import Mathlib.Data.Nat.Dist
import Mathlib.Order.Monotone.Basic
import ByteTemplate.Proofs.Number.Conversion

/-!
# The nearest magnitude

Among the absolute values that a format can hold, were its exponents unbounded, rounding finds one
that is nearest to the given ratio, and an even one where two are.  The rest of this file draws
what follows for rounding as a function: it is monotone.
-/

namespace ByteTemplate

theorem le_roundDiv (num den : Nat) : num / den ≤ roundDiv num den := by
  simp only [roundDiv]
  split
  · exact Nat.le_refl _
  · split <;> omega

theorem roundDiv_le (num den : Nat) : roundDiv num den ≤ num / den + 1 := by
  simp only [roundDiv]
  split
  · omega
  · split <;> omega

/-- No multiple of the denominator is nearer than the rounded one, and an odd one is not as near
as another. -/
theorem roundDiv_nearest {num den : Nat} (pos : 0 < den) (k : Nat) :
    Nat.dist (roundDiv num den * den) num ≤ Nat.dist (k * den) num ∧
      (Nat.dist (roundDiv num den * den) num = Nat.dist (k * den) num →
        k ≠ roundDiv num den → roundDiv num den % 2 = 0) := by
  obtain ⟨above, below⟩ := roundDiv_near num den pos
  have tie := roundDiv_tie_even num den
  have split := Nat.div_add_mod num den
  have small := Nat.mod_lt num pos
  have low := le_roundDiv num den
  have high := roundDiv_le num den
  generalize roundDiv num den = r at *
  have apart : k = r ∨ k * den + den ≤ r * den ∨ r * den + den ≤ k * den := by
    rcases Nat.lt_trichotomy k r with less | rfl | more
    · have step := Nat.mul_le_mul_right den less
      rw [Nat.succ_mul] at step
      exact .inr (.inl step)
    · exact .inl rfl
    · have step := Nat.mul_le_mul_right den more
      rw [Nat.succ_mul] at step
      exact .inr (.inr step)
  have twice : (2 * r + 1) * den = 2 * (r * den) + den := by
    rw [Nat.add_mul, Nat.one_mul, Nat.mul_assoc]
  have twice' : 2 * r * den = 2 * (r * den) := Nat.mul_assoc _ _ _
  rw [twice] at above
  rw [twice'] at below
  simp only [Nat.dist]
  constructor
  · rcases apart with rfl | apart
    · exact Nat.le_refl _
    · omega
  · intro same other
    apply tie
    have quotient : r = num / den ∨ r = num / den + 1 := by omega
    have product : r * den = num / den * den ∨ r * den = num / den * den + den := by
      rcases quotient with rfl | rfl
      · exact .inl rfl
      · exact .inr (Nat.succ_mul _ _)
    rw [Nat.mul_comm] at split
    rcases apart with rfl | apart
    · exact absurd rfl other
    · omega

namespace BinaryFloat

variable {f : Nat}

theorem magnitudeUnits_zero (f : Nat) : magnitudeUnits f 0 = 0 :=
  if_pos (Nat.two_pow_pos f)

theorem magnitudeUnits_add_of_le {c j : Nat} (low : 2 ^ f ≤ c) (high : c ≤ 2 ^ (f + 1)) :
    magnitudeUnits f (j * 2 ^ f + c) = c * 2 ^ j := by
  rcases Nat.lt_or_eq_of_le high with inside | rfl
  · exact magnitudeUnits_add low inside
  · have carry : j * 2 ^ f + 2 ^ (f + 1) = (j + 1) * 2 ^ f + 2 ^ f := by
      rw [Nat.pow_succ, Nat.succ_mul]
      omega
    rw [carry, magnitudeUnits_add (Nat.le_refl _) (Nat.pow_lt_pow_succ (by decide)), Nat.pow_succ,
      Nat.pow_succ, Nat.mul_assoc, Nat.mul_comm 2]

theorem strictMono_magnitudeUnits (f : Nat) : StrictMono (magnitudeUnits f) := by
  apply strictMono_nat_of_lt_succ
  intro m
  rcases magnitude_cases f m with small | ⟨j, c, low, high, -, rfl⟩
  · have own : magnitudeUnits f m = m := if_pos small
    rw [own]
    rcases Nat.lt_or_eq_of_le (Nat.succ_le_of_lt small) with inside | carry
    · have next : magnitudeUnits f (m + 1) = m + 1 := if_pos inside
      omega
    · have next := @magnitudeUnits_add_of_le f (m + 1) 0 (Nat.le_of_eq carry.symm)
        (by rw [Nat.pow_succ]; omega)
      rw [Nat.zero_mul, Nat.zero_add, Nat.pow_zero, Nat.mul_one] at next
      omega
  · rw [magnitudeUnits_add_of_le low (Nat.le_of_lt high), Nat.add_assoc,
      magnitudeUnits_add_of_le (Nat.le_succ_of_le low) high]
    exact Nat.mul_lt_mul_of_pos_right (Nat.lt_succ_self c) (Nat.two_pow_pos j)

/-- Units are a multiple of the unit of a binade, or they lie below the binade. -/
theorem magnitudeUnits_cases (f scale m : Nat) :
    (∃ k, magnitudeUnits f m = k * 2 ^ scale) ∨ magnitudeUnits f m < 2 ^ (f + scale) := by
  rcases magnitude_cases f m with small | ⟨j, c, low, high, -, rfl⟩
  · right
    have own : magnitudeUnits f m = m := if_pos small
    rw [own]
    exact Nat.lt_of_lt_of_le small (Nat.pow_le_pow_right (by decide) (Nat.le_add_right f scale))
  · rw [magnitudeUnits_add low high]
    rcases Nat.lt_or_ge j scale with less | more
    · right
      calc
        c * 2 ^ j < 2 ^ (f + 1) * 2 ^ j := Nat.mul_lt_mul_of_pos_right high (Nat.two_pow_pos j)
        _ = 2 ^ (f + (j + 1)) := by rw [← Nat.pow_add, Nat.add_assoc, Nat.add_comm 1]
        _ ≤ 2 ^ (f + scale) :=
          Nat.pow_le_pow_right (by decide) (Nat.add_le_add_left less f)
    · left
      obtain ⟨k, rfl⟩ := Nat.exists_eq_add_of_le more
      exact ⟨c * 2 ^ k, by rw [Nat.add_comm scale, Nat.pow_add, Nat.mul_assoc]⟩

/-! ## Rounding to units -/

variable {num den : Nat}

theorem exists_scale (pos : 0 < den) : ∃ scale,
    roundedMagnitude f num den = scale * 2 ^ f + roundDiv num (den * 2 ^ scale) ∧
      magnitudeUnits f (roundedMagnitude f num den) =
        roundDiv num (den * 2 ^ scale) * 2 ^ scale ∧
      (scale = 0 ∨ den * 2 ^ (f + scale) ≤ num) := by
  refine ⟨Nat.log2 (num / den) - f, rfl, ?_⟩
  simp only [roundedMagnitude]
  generalize defined : Nat.log2 (num / den) - f = scale
  have quotient : num / (den * 2 ^ scale) = num / den / 2 ^ scale :=
    (Nat.div_div_eq_div_mul _ _ _).symm
  have below : num / den / 2 ^ scale < 2 ^ (f + 1) := by
    apply Nat.div_lt_of_lt_mul
    rw [← Nat.pow_add]
    apply Nat.lt_of_lt_of_le Nat.lt_log2_self
    exact Nat.pow_le_pow_right (by decide) (by omega)
  have most : roundDiv num (den * 2 ^ scale) ≤ 2 ^ (f + 1) := by
    have high := roundDiv_le num (den * 2 ^ scale)
    omega
  rcases Nat.eq_zero_or_pos scale with rfl | some_scale
  · refine ⟨?_, .inl rfl⟩
    rw [Nat.pow_zero, Nat.mul_one] at most ⊢
    rw [Nat.mul_one, Nat.zero_mul, Nat.zero_add]
    rcases Nat.lt_or_ge (roundDiv num den) (2 ^ f) with small | large
    · exact if_pos small
    · simpa using @magnitudeUnits_add_of_le f _ 0 large most
  · have exponent : Nat.log2 (num / den) = f + scale := by omega
    have nonzero : num / den ≠ 0 := by
      intro zero
      rw [zero, Nat.log2_zero] at exponent
      omega
    have whole : 2 ^ (f + scale) ≤ num / den := by
      rw [← exponent]
      exact Nat.log2_self_le nonzero
    have least : 2 ^ f ≤ roundDiv num (den * 2 ^ scale) := by
      apply Nat.le_trans _ (le_roundDiv _ _)
      rw [quotient, Nat.le_div_iff_mul_le (Nat.two_pow_pos scale), ← Nat.pow_add]
      exact whole
    refine ⟨magnitudeUnits_add_of_le least most, .inr ?_⟩
    rw [Nat.mul_comm, ← Nat.le_div_iff_mul_le pos]
    exact whole

theorem roundedMagnitude_nearest (some_fraction : 0 < f) (pos : 0 < den) (num m : Nat) :
    Nat.dist (magnitudeUnits f (roundedMagnitude f num den) * den) num ≤
        Nat.dist (magnitudeUnits f m * den) num ∧
      (Nat.dist (magnitudeUnits f (roundedMagnitude f num den) * den) num =
          Nat.dist (magnitudeUnits f m * den) num →
        m ≠ roundedMagnitude f num den → roundedMagnitude f num den % 2 = 0) := by
  obtain ⟨scale, split, units, full⟩ := @exists_scale f num den pos
  have unit_pos : 0 < den * 2 ^ scale := Nat.mul_pos pos (Nat.two_pow_pos scale)
  have regroup : ∀ k, k * 2 ^ scale * den = k * (den * 2 ^ scale) := by
    intro k
    rw [Nat.mul_assoc, Nat.mul_comm (2 ^ scale)]
  have parity : roundDiv num (den * 2 ^ scale) % 2 = 0 → roundedMagnitude f num den % 2 = 0 := by
    intro even
    obtain ⟨g, rfl⟩ := Nat.exists_eq_succ_of_ne_zero (Nat.ne_of_gt some_fraction)
    rw [split, Nat.pow_succ, ← Nat.mul_assoc]
    omega
  have multiple : (∃ k, magnitudeUnits f m = k * 2 ^ scale) ∨
      magnitudeUnits f m < 2 ^ (f + scale) ∧ den * 2 ^ (f + scale) ≤ num := by
    rcases full with rfl | full
    · exact .inl ⟨_, (Nat.mul_one _).symm⟩
    · exact (magnitudeUnits_cases f scale m).imp_right fun below => ⟨below, full⟩
  rcases multiple with ⟨k, own⟩ | ⟨below, full⟩
  · obtain ⟨nearest, even⟩ := @roundDiv_nearest num _ unit_pos k
    rw [units, own, regroup, regroup]
    refine ⟨nearest, fun same other => parity (even same ?_)⟩
    rintro rfl
    exact other ((strictMono_magnitudeUnits f).injective (own.trans units.symm))
  · -- The least number of the binade is a multiple, and nearer than everything below it.
    have nearest := (@roundDiv_nearest num _ unit_pos (2 ^ f)).1
    rw [← regroup, ← regroup, ← units, ← Nat.pow_add] at nearest
    have less := Nat.mul_lt_mul_of_pos_right below pos
    rw [Nat.mul_comm] at full
    simp only [Nat.dist] at nearest ⊢
    omega

theorem lt_roundedMagnitude_iff (some_fraction : 0 < f) (pos : 0 < den) {m : Nat}
    (odd : m % 2 = 1) :
    m < roundedMagnitude f num den ↔
      (magnitudeUnits f m + magnitudeUnits f (m + 1)) * den ≤ 2 * num := by
  have step := Nat.mul_lt_mul_of_pos_right (strictMono_magnitudeUnits f (Nat.lt_succ_self m)) pos
  have near := roundedMagnitude_nearest some_fraction pos num
  rw [Nat.add_mul]
  constructor
  · intro above
    have least := Nat.mul_le_mul_right den ((strictMono_magnitudeUnits f).monotone above)
    have close := (near m).1
    simp only [Nat.dist, Nat.succ_eq_add_one] at step least close
    omega
  · intro large
    apply Nat.lt_of_not_le
    intro below
    obtain ⟨close, even⟩ := near (m + 1)
    rcases Nat.lt_or_eq_of_le below with less | rfl
    · have apart := Nat.mul_lt_mul_of_pos_right (strictMono_magnitudeUnits f less) pos
      simp only [Nat.dist, Nat.succ_eq_add_one] at step close
      omega
    · have tie := even
        (by simp only [Nat.dist, Nat.succ_eq_add_one] at step close ⊢; omega) (by omega)
      omega

theorem roundedMagnitude_mono (some_fraction : 0 < f) (pos : 0 < den) {num num' : Nat}
    (h : num ≤ num') : roundedMagnitude f num den ≤ roundedMagnitude f num' den := by
  apply Nat.le_of_not_lt
  intro less
  have units := strictMono_magnitudeUnits f less
  have apart := Nat.mul_lt_mul_of_pos_right units pos
  have near := (roundedMagnitude_nearest some_fraction pos num (roundedMagnitude f num' den)).1
  have near' := (roundedMagnitude_nearest some_fraction pos num' (roundedMagnitude f num den)).1
  have other : num ≠ num' := by
    rintro rfl
    exact Nat.lt_irrefl _ less
  simp only [Nat.dist] at near near'
  omega

end BinaryFloat

end ByteTemplate
