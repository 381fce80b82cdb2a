import ByteTemplate.Number.BinaryFloat

/-!
# Single precision within double precision

Every number of single precision is one of double precision, so that widening it and rounding the
result gives it back.  A NaN becomes quiet on the way and is kept from then on.
-/

namespace ByteTemplate.BinaryFloat

variable {f c j k d : Nat}

theorem magnitudeUnits_add (low : 2 ^ f ≤ c) (high : c < 2 ^ (f + 1)) :
    magnitudeUnits f (j * 2 ^ f + c) = c * 2 ^ j := by
  obtain ⟨r, rfl⟩ := Nat.exists_eq_add_of_le low
  rw [Nat.pow_succ] at high
  have small : r < 2 ^ f := by omega
  have regroup : j * 2 ^ f + (2 ^ f + r) = r + 2 ^ f * (j + 1) := by
    rw [Nat.mul_add, Nat.mul_one, Nat.mul_comm]
    omega
  have large : ¬j * 2 ^ f + (2 ^ f + r) < 2 ^ f := by omega
  rw [magnitudeUnits, if_neg large, regroup, Nat.add_mul_mod_self_left, Nat.mod_eq_of_lt small,
    Nat.add_mul_div_left _ _ (Nat.two_pow_pos f), Nat.div_eq_of_lt small, Nat.zero_add,
    Nat.add_sub_cancel, Nat.add_comm r]

theorem magnitude_cases (f m : Nat) :
    m < 2 ^ f ∨ ∃ j c, 2 ^ f ≤ c ∧ c < 2 ^ (f + 1) ∧ j + 1 = m / 2 ^ f ∧ m = j * 2 ^ f + c := by
  rcases Nat.lt_or_ge m (2 ^ f) with small | large
  · exact .inl small
  · have pos := Nat.two_pow_pos f
    have split := Nat.div_add_mod m (2 ^ f)
    have below := Nat.mod_lt m pos
    have some_scale : 0 < m / 2 ^ f := Nat.div_pos large pos
    obtain ⟨j, scale⟩ := Nat.exists_eq_succ_of_ne_zero (Nat.ne_of_gt some_scale)
    refine .inr ⟨j, 2 ^ f + m % 2 ^ f, Nat.le_add_right _ _, ?_, scale.symm, ?_⟩
    · rw [Nat.pow_succ]
      omega
    · rw [scale, Nat.mul_succ, Nat.mul_comm] at split
      omega

theorem roundedMagnitude_of_lt {u : Nat} (pos : 0 < d) (small : u < 2 ^ f) :
    roundedMagnitude f (u * d) d = u := by
  have scale : Nat.log2 u - f = 0 := by
    rcases Nat.eq_zero_or_pos u with rfl | some_unit
    · rw [Nat.log2_zero, Nat.zero_sub]
    · have bits := (Nat.log2_lt (Nat.ne_of_gt some_unit)).mpr small
      omega
  simp only [roundedMagnitude, Nat.mul_div_cancel _ pos, scale, Nat.pow_zero, Nat.mul_one,
    Nat.zero_mul, Nat.zero_add, roundDiv_mul _ _ pos]

theorem roundedMagnitude_of_le (pos : 0 < d) (low : 2 ^ f ≤ c) (high : c < 2 ^ (f + 1)) :
    roundedMagnitude f (c * 2 ^ j * d) d = j * 2 ^ f + c := by
  have some_unit : c * 2 ^ j ≠ 0 :=
    Nat.ne_of_gt (Nat.mul_pos (Nat.lt_of_lt_of_le (Nat.two_pow_pos f) low) (Nat.two_pow_pos j))
  have least : f + j ≤ Nat.log2 (c * 2 ^ j) := by
    rw [Nat.le_log2 some_unit, Nat.pow_add]
    exact Nat.mul_le_mul_right _ low
  have most : Nat.log2 (c * 2 ^ j) < f + 1 + j := by
    rw [Nat.log2_lt some_unit, Nat.pow_add]
    exact Nat.mul_lt_mul_of_pos_right high (Nat.two_pow_pos j)
  have scale : Nat.log2 (c * 2 ^ j) - f = j := by omega
  have split : c * 2 ^ j * d = c * (d * 2 ^ j) := by rw [Nat.mul_assoc, Nat.mul_comm d]
  simp only [roundedMagnitude, Nat.mul_div_cancel _ pos, scale]
  rw [split, roundDiv_mul _ _ (Nat.mul_pos pos (Nat.two_pow_pos j))]

theorem roundedMagnitude_magnitudeUnits (pos : 0 < d) (m : Nat) :
    roundedMagnitude f (magnitudeUnits f m * d) d = m := by
  rcases magnitude_cases f m with small | ⟨j, c, low, high, -, rfl⟩
  · rw [magnitudeUnits, if_pos small, roundedMagnitude_of_lt pos small]
  · rw [magnitudeUnits_add low high, roundedMagnitude_of_le pos low high]

/-- A number of `f + 1` significant bits can be scaled to just as many, unless it is small. -/
theorem exists_significand (few : c < 2 ^ (f + 1)) (k : Nat) :
    c * 2 ^ k < 2 ^ f ∨
      ∃ c' j, 2 ^ f ≤ c' ∧ c' < 2 ^ (f + 1) ∧ j ≤ k ∧ c * 2 ^ k = c' * 2 ^ j := by
  induction k with
  | zero =>
      rw [Nat.pow_zero, Nat.mul_one]
      rcases Nat.lt_or_ge c (2 ^ f) with small | large
      · exact .inl small
      · exact .inr ⟨c, 0, large, few, Nat.le_refl _, by rw [Nat.pow_zero, Nat.mul_one]⟩
  | succ k ih =>
      rw [Nat.pow_succ, ← Nat.mul_assoc]
      rcases ih with small | ⟨c', j, low, high, within, same⟩
      · rcases Nat.lt_or_ge (c * 2 ^ k * 2) (2 ^ f) with small' | large
        · exact .inl small'
        · refine .inr ⟨c * 2 ^ k * 2, 0, large, ?_, Nat.zero_le _, ?_⟩
          · rw [Nat.pow_succ]
            omega
          · rw [Nat.pow_zero, Nat.mul_one]
      · refine .inr ⟨c', j + 1, low, high, Nat.succ_le_succ within, ?_⟩
        rw [same, Nat.pow_succ, Nat.mul_assoc]

theorem magnitudeUnits_roundedMagnitude (pos : 0 < d) (few : c < 2 ^ (f + 1)) (k : Nat) :
    magnitudeUnits f (roundedMagnitude f (c * 2 ^ k * d) d) = c * 2 ^ k ∧
      roundedMagnitude f (c * 2 ^ k * d) d < (k + 2) * 2 ^ f := by
  rcases exists_significand few k with small | ⟨c', j, low, high, within, same⟩
  · rw [roundedMagnitude_of_lt pos small, magnitudeUnits, if_pos small]
    refine ⟨rfl, Nat.lt_of_lt_of_le small ?_⟩
    exact Nat.le_mul_of_pos_left _ (Nat.succ_pos _)
  · rw [same, roundedMagnitude_of_le pos low high, magnitudeUnits_add low high]
    refine ⟨rfl, ?_⟩
    have scaled : j * 2 ^ f ≤ k * 2 ^ f := Nat.mul_le_mul_right _ within
    rw [Nat.pow_succ] at high
    rw [Nat.add_mul]
    omega

theorem unitDenominator_widened {e f e' f' k : Nat}
    (wider : 2 ^ (e' - 1) + f' - 2 = k + (2 ^ (e - 1) + f - 2)) :
    unitDenominator e' f' = 2 ^ k * unitDenominator e f := by
  rw [unitDenominator, wider, Nat.pow_add, unitDenominator]

theorem isFinite_of_not {e f : Nat} {x : BinaryFloat e f} (number : x.isNaN = false)
    (finite : x.isInfinite = false) : x.magnitude.val < infiniteMagnitude e f := by
  simp only [isNaN, decide_eq_false_iff_not] at number
  simp only [isInfinite, beq_eq_false_iff_ne] at finite
  omega

theorem convert_of_finite {s : Single} (number : s.isNaN = false) (finite : s.isInfinite = false) :
    (s.convert : Double).negative = s.negative ∧
      (s.convert : Double).units = s.units * 2 ^ (925 : Nat) ∧ (s.convert : Double).isNaN = false ∧
      (s.convert : Double).isInfinite = false := by
  have bound := isFinite_of_not number finite
  obtain ⟨c, k, few, within, units⟩ : ∃ c k, c < 2 ^ (23 + 1) ∧ k < 255 ∧ s.units = c * 2 ^ k := by
    rcases magnitude_cases 23 s.magnitude.val with small | ⟨j, c, low, high, scale, split⟩
    · refine ⟨s.magnitude.val, 0, by omega, by decide, ?_⟩
      rw [units, magnitudeUnits, if_pos small, Nat.pow_zero, Nat.mul_one]
    · refine ⟨c, j, high, ?_, ?_⟩
      · simp only [infiniteMagnitude] at bound
        omega
      · rw [units, split, magnitudeUnits_add low high]
  have wide : c < 2 ^ (52 + 1) := Nat.lt_of_lt_of_le few (by decide)
  have widened := @unitDenominator_widened 8 23 11 52 925 (by decide)
  have scaled : s.units * unitDenominator 11 52 =
      c * 2 ^ (k + 925) * unitDenominator 8 23 := by
    rw [widened, units, Nat.pow_add, Nat.mul_assoc, Nat.mul_assoc, Nat.mul_assoc]
  obtain ⟨exact, below⟩ :=
    magnitudeUnits_roundedMagnitude (unitDenominator_pos 8 23) wide (k + 925)
  have inside : (k + 925 + 2) * 2 ^ 52 ≤ infiniteMagnitude 11 52 := by
    simp only [infiniteMagnitude]
    omega
  have magnitude : (s.convert : Double).magnitude.val =
      roundedMagnitude 52 (c * 2 ^ (k + 925) * unitDenominator 8 23) (unitDenominator 8 23) := by
    simp only [convert, number, finite, Bool.false_eq_true, if_false, ofRatio, scaled]
    exact Nat.min_eq_left (Nat.le_of_lt (Nat.lt_of_lt_of_le below inside))
  refine ⟨?_, ?_, ?_, ?_⟩
  · simp only [convert, number, finite, Bool.false_eq_true, if_false, ofRatio]
  · rw [BinaryFloat.units, magnitude, exact, units, Nat.pow_add, Nat.mul_assoc]
  · simp only [isNaN, magnitude, decide_eq_false_iff_not]
    omega
  · simp only [isInfinite, magnitude, beq_eq_false_iff_ne]
    omega

theorem convert_convert_of_finite {s : Single} (number : s.isNaN = false)
    (finite : s.isInfinite = false) : ((s.convert : Double).convert : Single) = s := by
  obtain ⟨sign, units, number', finite'⟩ := convert_of_finite number finite
  have bound := isFinite_of_not number finite
  have widened := @unitDenominator_widened 8 23 11 52 925 (by decide)
  have scaled : (s.convert : Double).units * unitDenominator 8 23 =
      magnitudeUnits 23 s.magnitude.val * unitDenominator 11 52 := by
    rw [units, BinaryFloat.units, widened, Nat.mul_assoc]
  have magnitude := @roundedMagnitude_magnitudeUnits 23 _ (unitDenominator_pos 11 52) s.magnitude.val
  rw [convert, number', finite']
  simp only [Bool.false_eq_true, if_false, ofRatio, scaled, magnitude, sign,
    Nat.min_eq_left (Nat.le_of_lt bound)]

/-! ## Infinities and NaNs -/

theorem isNaN_infinity {e f : Nat} (negative : Bool) :
    (infinity negative : BinaryFloat e f).isNaN = false := by
  simp [isNaN, infinity]

theorem isInfinite_infinity {e f : Nat} (negative : Bool) :
    (infinity negative : BinaryFloat e f).isInfinite = true := by
  simp [isInfinite, infinity]

theorem convert_infinity {e f e' f' : Nat} (negative : Bool) :
    ((infinity negative : BinaryFloat e f).convert : BinaryFloat e' f') = infinity negative := by
  rw [convert, isNaN_infinity, isInfinite_infinity, if_neg (by decide), if_pos rfl]
  rfl

theorem convert_of_isInfinite {e f e' f' : Nat} {x : BinaryFloat e f} (number : x.isNaN = false)
    (infinite : x.isInfinite = true) :
    (x.convert : BinaryFloat e' f') = infinity x.negative := by
  rw [convert, number, infinite, if_neg (by decide), if_pos rfl]

def quietNaN (e f : Nat) (negative : Bool) (payload : Nat) : BinaryFloat e f :=
  ofMagnitude negative (infiniteMagnitude e f + quietBit f + payload)

theorem quietBit_add_lt {payload : Nat} (some_fraction : 0 < f) (small : payload < quietBit f) :
    quietBit f + payload < 2 ^ f := by
  obtain ⟨g, rfl⟩ := Nat.exists_eq_succ_of_ne_zero (Nat.ne_of_gt some_fraction)
  have half : quietBit (g + 1) = 2 ^ g := rfl
  rw [half] at small ⊢
  rw [Nat.pow_succ]
  omega

theorem magnitude_quietNaN {e payload : Nat} (some_fraction : 0 < f) (negative : Bool)
    (small : payload < quietBit f) :
    (quietNaN e f negative payload).magnitude.val =
      infiniteMagnitude e f + (quietBit f + payload) := by
  have fraction := quietBit_add_lt some_fraction small
  have inside : infiniteMagnitude e f + (quietBit f + payload) < 2 ^ (e + f) := by
    have pos := Nat.two_pow_pos e
    calc
      infiniteMagnitude e f + (quietBit f + payload) < infiniteMagnitude e f + 2 ^ f :=
        Nat.add_lt_add_left fraction _
      _ = (2 ^ e - 1 + 1) * 2 ^ f := by rw [infiniteMagnitude, Nat.add_mul, Nat.one_mul]
      _ = 2 ^ (e + f) := by rw [Nat.sub_add_cancel pos, Nat.pow_add]
  simp only [quietNaN, ofMagnitude, Nat.add_assoc]
  exact Nat.mod_eq_of_lt inside

theorem convert_of_isNaN {e f e' f' : Nat} {x : BinaryFloat e f} (nan : x.isNaN = true) :
    (x.convert : BinaryFloat e' f') = quietNaN e' f' x.negative
      (x.magnitude.val % 2 ^ f * 2 ^ f' / 2 ^ f % quietBit f') := by
  rw [convert, if_pos nan]
  rfl

theorem convert_quietNaN {e f e' f' payload : Nat} (some_fraction : 0 < f) (negative : Bool)
    (small : payload < quietBit f) :
    ((quietNaN e f negative payload).convert : BinaryFloat e' f') = quietNaN e' f' negative
      ((quietBit f + payload) * 2 ^ f' / 2 ^ f % quietBit f') := by
  have magnitude := @magnitude_quietNaN f e payload some_fraction negative small
  have pos : 0 < quietBit f := Nat.two_pow_pos _
  have nan : (quietNaN e f negative payload).isNaN = true := by
    apply decide_eq_true
    omega
  have fraction : (quietNaN e f negative payload).magnitude.val % 2 ^ f =
      quietBit f + payload := by
    rw [magnitude, infiniteMagnitude, Nat.mul_comm, Nat.mul_add_mod,
      Nat.mod_eq_of_lt (quietBit_add_lt some_fraction small)]
  rw [convert_of_isNaN nan, fraction]
  rfl

theorem convert_convert_convert (s : Single) :
    (((s.convert : Double).convert : Single).convert : Double) = s.convert := by
  cases number : s.isNaN with
  | true =>
      have pos : 0 < quietBit 52 ∧ 0 < quietBit 23 := by decide
      rw [convert_of_isNaN number, convert_quietNaN (by decide) _ (Nat.mod_lt _ pos.1),
        convert_quietNaN (by decide) _ (Nat.mod_lt _ pos.2)]
      -- The payload has its bits at the top of the wider fraction.
      refine congrArg (quietNaN 11 52 s.negative) ?_
      simp only [quietBit]
      omega
  | false =>
      cases infinite : s.isInfinite with
      | true => rw [convert_of_isInfinite number infinite, convert_infinity, convert_infinity]
      | false => rw [convert_convert_of_finite number infinite]

end ByteTemplate.BinaryFloat
