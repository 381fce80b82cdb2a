import Mathlib.Algebra.Order.Field.Basic
import Mathlib.Algebra.Order.Field.Rat
import Mathlib.Tactic.FieldSimp
import Mathlib.Tactic.Linarith
import ByteTemplate.Number.Order
import ByteTemplate.Proofs.Number.Nearest

/-!
# Exact values of floating-point numbers

A finite number stands for a rational one.  A number of another format, unless it is out of the
range of this one, is converted to the number nearest to its value, with its sign, and an even one
where two are nearest.  The conversion is monotone, infinities included.
-/

namespace ByteTemplate

namespace BinaryFloat

variable {e f e' f' : Nat}

def signedUnits (x : BinaryFloat e f) : Int :=
  if x.negative then -(x.units : Int) else x.units

def value (x : BinaryFloat e f) : ℚ :=
  x.signedUnits / unitDenominator e f

/-- Whether a finite number is nearest to a rational one, and even where it is not the only one. -/
structure IsNearest (q : ℚ) (y : BinaryFloat e f) : Prop where
  finite : y.isFinite = true
  nearest : ∀ z : BinaryFloat e f, z.isFinite = true → |y.value - q| ≤ |z.value - q|
  even : ∀ z : BinaryFloat e f, z.isFinite = true → |y.value - q| = |z.value - q| →
    z.value ≠ y.value → y.magnitude.val % 2 = 0

def distance (y : BinaryFloat e' f') (x : BinaryFloat e f) : Nat :=
  (y.signedUnits * unitDenominator e f - x.signedUnits * unitDenominator e' f').natAbs

theorem distance_of_same {y : BinaryFloat e' f'} {x : BinaryFloat e f}
    (same : y.negative = x.negative) : y.distance x =
      Nat.dist (y.units * unitDenominator e f) (x.units * unitDenominator e' f') := by
  simp only [distance, signedUnits, same, Nat.dist]
  split
  · rw [Int.neg_mul, Int.neg_mul]
    omega
  · omega

theorem distance_of_ne {y : BinaryFloat e' f'} {x : BinaryFloat e f}
    (other : y.negative ≠ x.negative) : y.distance x =
      y.units * unitDenominator e f + x.units * unitDenominator e' f' := by
  simp only [distance, signedUnits]
  cases own : y.negative <;> cases sign : x.negative
  · exact absurd (own.trans sign.symm) other
  · simp only [Bool.false_eq_true, if_false, if_true, Int.neg_mul]
    omega
  · simp only [Bool.false_eq_true, if_false, if_true, Int.neg_mul]
    omega
  · exact absurd (own.trans sign.symm) other

theorem cast_unitDenominator_pos (e f : Nat) : (0 : ℚ) < unitDenominator e f := by
  exact_mod_cast unitDenominator_pos e f

theorem abs_value_sub (y : BinaryFloat e' f') (x : BinaryFloat e f) :
    |y.value - x.value| = y.distance x / (unitDenominator e f * unitDenominator e' f' : ℚ) := by
  have pos := cast_unitDenominator_pos e f
  have pos' := cast_unitDenominator_pos e' f'
  have common : y.value - x.value =
      (y.signedUnits * unitDenominator e f - x.signedUnits * unitDenominator e' f' : ℤ) /
        (unitDenominator e f * unitDenominator e' f' : ℚ) := by
    simp only [value]
    push_cast
    field_simp
  rw [common, abs_div, abs_of_pos (mul_pos pos pos'), distance, Nat.cast_natAbs, Int.cast_abs]

theorem value_le_iff (y z : BinaryFloat e f) :
    y.value ≤ z.value ↔ y.signedUnits ≤ z.signedUnits := by
  simp only [value]
  rw [div_le_div_iff_of_pos_right (cast_unitDenominator_pos e f)]
  norm_cast

theorem abs_value_sub_le_iff (y z : BinaryFloat e' f') (x : BinaryFloat e f) :
    |y.value - x.value| ≤ |z.value - x.value| ↔ y.distance x ≤ z.distance x := by
  have pos := cast_unitDenominator_pos e f
  have pos' := cast_unitDenominator_pos e' f'
  rw [abs_value_sub, abs_value_sub, div_le_div_iff_of_pos_right (mul_pos pos pos')]
  norm_cast

/-! ## Conversion to another format -/

theorem negative_convert (x : BinaryFloat e f) :
    (x.convert : BinaryFloat e' f').negative = x.negative := by
  unfold convert
  split
  · rfl
  · split <;> rfl

theorem magnitude_convert {x : BinaryFloat e f} (number : x.isNaN = false) :
    (x.convert : BinaryFloat e' f').magnitude.val =
      if x.isInfinite then infiniteMagnitude e' f'
      else min (roundedMagnitude f' (x.units * unitDenominator e' f') (unitDenominator e f))
        (infiniteMagnitude e' f') := by
  rw [convert, number, if_neg (by decide)]
  split <;> rfl

theorem isNaN_of_isFinite {x : BinaryFloat e f} (finite : x.isFinite = true) : x.isNaN = false := by
  simp only [isFinite, isNaN, decide_eq_true_eq, decide_eq_false_iff_not] at *
  omega

theorem isInfinite_of_isFinite {x : BinaryFloat e f} (finite : x.isFinite = true) :
    x.isInfinite = false := by
  simp only [isFinite, isInfinite, decide_eq_true_eq, beq_eq_false_iff_ne] at *
  omega

theorem class_cases (x : BinaryFloat e f) :
    x.isFinite = true ∧ x.isInfinite = false ∧ x.isNaN = false ∨
      x.isFinite = false ∧ x.isInfinite = true ∧ x.isNaN = false ∨
      x.isFinite = false ∧ x.isInfinite = false ∧ x.isNaN = true := by
  simp only [isFinite, isInfinite, isNaN, decide_eq_true_eq, decide_eq_false_iff_not, beq_iff_eq,
    beq_eq_false_iff_ne]
  omega

theorem isNaN_convert {x : BinaryFloat e f} (number : x.isNaN = false) :
    (x.convert : BinaryFloat e' f').isNaN = false := by
  simp only [isNaN, magnitude_convert number, decide_eq_false_iff_not]
  split <;> omega

theorem isInfinite_convert_iff {x : BinaryFloat e f} (finite : x.isFinite = true) :
    (x.convert : BinaryFloat e' f').isInfinite = true ↔ infiniteMagnitude e' f' ≤
      roundedMagnitude f' (x.units * unitDenominator e' f') (unitDenominator e f) := by
  have magnitude := @magnitude_convert e f e' f' x (isNaN_of_isFinite finite)
  rw [isInfinite_of_isFinite finite, if_neg (by decide)] at magnitude
  simp only [isInfinite, magnitude, beq_iff_eq]
  omega

/-- A number of another format is converted to a nearest one, unless it is out of range. -/
theorem isNearest_convert (some_fraction : 0 < f') {x : BinaryFloat e f}
    (finite : x.isFinite = true) (within : (x.convert : BinaryFloat e' f').isInfinite = false) :
    IsNearest x.value (x.convert : BinaryFloat e' f') := by
  have pos := unitDenominator_pos e f
  have sign := @negative_convert e f e' f' x
  have magnitude := @magnitude_convert e f e' f' x (isNaN_of_isFinite finite)
  have inside := mt (@isInfinite_convert_iff e f e' f' x finite).mpr (by simp [within])
  rw [isInfinite_of_isFinite finite, if_neg (by decide),
    Nat.min_eq_left (Nat.le_of_not_le inside)] at magnitude
  have near := roundedMagnitude_nearest some_fraction pos (x.units * unitDenominator e' f')
  rw [← magnitude] at near inside
  generalize (x.convert : BinaryFloat e' f') = y at *
  have own := distance_of_same sign
  have to_zero := near 0
  rw [magnitudeUnits_zero, Nat.zero_mul, Nat.dist_zero_left] at to_zero
  constructor
  · apply decide_eq_true
    omega
  · intro z _
    rw [abs_value_sub_le_iff, own]
    by_cases same : z.negative = x.negative
    · rw [distance_of_same same]
      exact (near z.magnitude.val).1
    · rw [distance_of_ne same]
      exact Nat.le_trans to_zero.1 (Nat.le_add_left _ _)
  · intro z _ equal other
    have equal : y.distance x = z.distance x := by
      apply Nat.le_antisymm
      · exact (abs_value_sub_le_iff y z x).mp (le_of_eq equal)
      · exact (abs_value_sub_le_iff z y x).mp (le_of_eq equal.symm)
    rw [own] at equal
    by_cases same : z.negative = x.negative
    · rw [distance_of_same same] at equal
      apply (near z.magnitude.val).2 equal
      intro magnitudes
      apply other
      simp only [value, signedUnits, units, same, sign, Fin.ext magnitudes]
    · -- A number of the other sign can be as near as this one only if both are zeros.
      rw [distance_of_ne same] at equal
      have bound : Nat.dist (y.units * unitDenominator e f) (x.units * unitDenominator e' f') ≤
          x.units * unitDenominator e' f' := to_zero.1
      have none_left : z.units * unitDenominator e f = 0 := by omega
      rw [none_left, Nat.zero_add] at equal
      apply to_zero.2 equal
      intro zero
      apply other
      have z_zero : z.units = 0 := (Nat.mul_eq_zero.mp none_left).resolve_right (Nat.ne_of_gt pos)
      have y_zero : y.units = 0 := by rw [units, ← zero, magnitudeUnits_zero]
      simp [value, signedUnits, z_zero, y_zero]

/-! ## Order -/

/-- The magnitude with the sign of the number, so that both zeros have the same rank. -/
def rank (x : BinaryFloat e f) : Int :=
  if x.negative then -(x.magnitude.val : Int) else x.magnitude.val

theorem rank_bounds {x : BinaryFloat e f} (finite : x.isFinite = true) :
    -(infiniteMagnitude e f : Int) < x.rank ∧ x.rank < infiniteMagnitude e f := by
  simp only [isFinite, decide_eq_true_eq] at finite
  simp only [rank]
  split <;> omega

theorem rank_of_isInfinite {x : BinaryFloat e f} (infinite : x.isInfinite = true) :
    x.rank = if x.negative then -(infiniteMagnitude e f : Int) else infiniteMagnitude e f := by
  simp only [isInfinite, beq_iff_eq] at infinite
  rw [rank, infinite]

theorem signedUnits_le_iff (x y : BinaryFloat e f) :
    x.signedUnits ≤ y.signedUnits ↔ x.rank ≤ y.rank := by
  have mono := strictMono_magnitudeUnits f
  have forth := @StrictMono.le_iff_le _ _ _ _ _ mono x.magnitude.val y.magnitude.val
  have back := @StrictMono.le_iff_le _ _ _ _ _ mono y.magnitude.val x.magnitude.val
  have zero := @StrictMono.le_iff_le _ _ _ _ _ mono x.magnitude.val 0
  have zero' := @StrictMono.le_iff_le _ _ _ _ _ mono y.magnitude.val 0
  rw [magnitudeUnits_zero] at zero zero'
  simp only [signedUnits, rank, units]
  cases x.negative <;> cases y.negative <;>
    simp only [Bool.false_eq_true, if_false, if_true] <;> omega

theorem magnitude_convert_le (some_fraction : 0 < f') {x y : BinaryFloat e f}
    (number : x.isNaN = false) (number' : y.isNaN = false)
    (h : x.magnitude.val ≤ y.magnitude.val) :
    (x.convert : BinaryFloat e' f').magnitude.val ≤
      (y.convert : BinaryFloat e' f').magnitude.val := by
  rw [magnitude_convert number, magnitude_convert number']
  cases infinite : y.isInfinite with
  | true =>
      rw [if_pos rfl]
      split
      · exact Nat.le_refl _
      · exact Nat.min_le_right _ _
  | false =>
      have finite := isFinite_of_not number' infinite
      have finite' : x.isInfinite = false := by
        simp only [isInfinite, beq_eq_false_iff_ne]
        omega
      have units : x.units * unitDenominator e' f' ≤ y.units * unitDenominator e' f' :=
        Nat.mul_le_mul_right _ ((strictMono_magnitudeUnits f).monotone h)
      have rounded := roundedMagnitude_mono some_fraction (unitDenominator_pos e f) units
      simp only [finite', Bool.false_eq_true, if_false]
      omega

theorem magnitude_convert_zero {x : BinaryFloat e f} (number : x.isNaN = false)
    (zero : x.magnitude.val = 0) (some_finite : 0 < infiniteMagnitude e f) :
    (x.convert : BinaryFloat e' f').magnitude.val = 0 := by
  have finite : x.isInfinite = false := by
    simp only [isInfinite, zero, beq_eq_false_iff_ne]
    omega
  have rounded := @roundedMagnitude_of_lt f' _ 0 (unitDenominator_pos e f) (Nat.two_pow_pos f')
  rw [Nat.zero_mul] at rounded
  rw [magnitude_convert number, finite, if_neg (by decide), units, zero, magnitudeUnits_zero,
    Nat.zero_mul, rounded, Nat.zero_min]

theorem rank_convert_le (some_fraction : 0 < f') (some_finite : 0 < infiniteMagnitude e f)
    {x y : BinaryFloat e f} (number : x.isNaN = false) (number' : y.isNaN = false)
    (h : x.rank ≤ y.rank) :
    (x.convert : BinaryFloat e' f').rank ≤ (y.convert : BinaryFloat e' f').rank := by
  have forth := @magnitude_convert_le e f e' f' some_fraction x y number number'
  have back := @magnitude_convert_le e f e' f' some_fraction y x number' number
  have zero := @magnitude_convert_zero e f e' f' x number
  have zero' := @magnitude_convert_zero e f e' f' y number'
  simp only [rank, negative_convert] at h ⊢
  cases sign : x.negative <;> cases sign' : y.negative <;>
    simp only [sign, sign', Bool.false_eq_true, if_false, if_true] at h ⊢
  · have magnitudes := forth (by omega)
    omega
  · rw [zero (by omega) some_finite, zero' (by omega) some_finite]
    decide
  · omega
  · have magnitudes := back (by omega)
    omega

end BinaryFloat

/-! ## Comparison -/

namespace Number

open BinaryFloat

theorem rational?_float (x : Double) :
    (float x).rational? = if x.isFinite then some x.value else none := by
  simp only [rational?, value, signedUnits, Rat.mkRat_eq_div]
  generalize unitDenominator 11 52 = one
  split
  · cases x.negative
    · simp
    · simp [neg_div]
  · rfl

theorem isAtMost_float_iff (x y : Double) :
    (float x).isAtMost (.float y) = true ↔
      x.isNaN = false ∧ y.isNaN = false ∧ x.rank ≤ y.rank := by
  have values : x.value ≤ y.value ↔ x.rank ≤ y.rank :=
    (value_le_iff x y).trans (signedUnits_le_iff x y)
  have bounds := @rank_bounds 11 52 x
  have bounds' := @rank_bounds 11 52 y
  have extreme := @rank_of_isInfinite 11 52 x
  have extreme' := @rank_of_isInfinite 11 52 y
  have some_finite : 0 < infiniteMagnitude 11 52 := by decide
  generalize infiniteMagnitude 11 52 = top at *
  simp only [isAtMost, isLess, isSame, rational?_float, infinite?]
  rcases class_cases x with ⟨finite, infinite, nan⟩ | ⟨finite, infinite, nan⟩ |
    ⟨finite, infinite, nan⟩
  · obtain ⟨low, high⟩ := bounds finite
    rcases class_cases y with ⟨finite', infinite', nan'⟩ | ⟨finite', infinite', nan'⟩ |
      ⟨finite', infinite', nan'⟩
    · simp [finite, nan, finite', nan', ← values, le_iff_lt_or_eq]
    · rw [extreme' infinite']
      cases y.negative <;> simp [finite, infinite, nan, finite', infinite', nan'] <;> omega
    · simp [finite, infinite, finite', infinite', nan']
  · rw [extreme infinite]
    rcases class_cases y with ⟨finite', infinite', nan'⟩ | ⟨finite', infinite', nan'⟩ |
      ⟨finite', infinite', nan'⟩
    · obtain ⟨low, high⟩ := bounds' finite'
      cases x.negative <;> simp [finite, infinite, nan, finite', infinite', nan'] <;> omega
    · rw [extreme' infinite']
      cases x.negative <;> cases y.negative <;>
        simp [finite, infinite, nan, finite', infinite', nan']
      omega
    · simp [finite, infinite, finite', infinite', nan']
  · simp [finite, infinite, nan]

end Number

end ByteTemplate
