import ByteTemplate.Number.Rounding

/-!
# Binary floating-point numbers

The interchange formats of IEEE 754 with `e` exponent bits and `f` fraction bits.  A number is
its sign and the magnitude field below the sign bit; on finite numbers and infinities the order
of the fields is the order of the absolute values.

Finite absolute values are whole multiples of the least positive one.  `units` is that
multiple and `unitDenominator` the number of them in one, so the absolute value of `x` is
`x.units / unitDenominator e f`.  Rounding to a format, `ofRatio`, is to nearest with ties to
even, and saturates at infinity.
-/

namespace ByteTemplate

structure BinaryFloat (e f : Nat) where
  negative : Bool
  magnitude : Fin (2 ^ (e + f))
  deriving DecidableEq, Repr

abbrev Double := BinaryFloat 11 52
abbrev Single := BinaryFloat 8 23

namespace BinaryFloat

variable {e f : Nat}

def toBits (x : BinaryFloat e f) : Nat :=
  (if x.negative then 2 ^ (e + f) else 0) + x.magnitude.val

/-- The number with the last `e + f` bits of `magnitude` below its sign. -/
def ofMagnitude (negative : Bool) (magnitude : Nat) : BinaryFloat e f :=
  ⟨negative, ⟨magnitude % 2 ^ (e + f), Nat.mod_lt _ (Nat.two_pow_pos _)⟩⟩

def ofBits (n : Nat) : BinaryFloat e f :=
  ofMagnitude (n / 2 ^ (e + f) % 2 == 1) n

theorem toBits_lt (x : BinaryFloat e f) : x.toBits < 2 ^ (e + f + 1) := by
  have small := x.magnitude.isLt
  simp only [toBits, Nat.pow_succ]
  split <;> omega

theorem ofBits_toBits (x : BinaryFloat e f) : ofBits x.toBits = x := by
  rcases x with ⟨negative, magnitude, small⟩
  have pos := Nat.two_pow_pos (e + f)
  cases negative
  · simp [ofBits, ofMagnitude, toBits, Nat.div_eq_of_lt small, Nat.mod_eq_of_lt small]
  · simp [ofBits, ofMagnitude, toBits, Nat.add_div_left _ pos, Nat.div_eq_of_lt small,
      Nat.mod_eq_of_lt small]

theorem toBits_ofBits {n : Nat} (h : n < 2 ^ (e + f + 1)) :
    (ofBits n : BinaryFloat e f).toBits = n := by
  have split := Nat.div_add_mod n (2 ^ (e + f))
  have top : n / 2 ^ (e + f) < 2 := by
    rw [Nat.div_lt_iff_lt_mul (Nat.two_pow_pos _), Nat.mul_comm]
    exact h
  rcases Nat.lt_or_ge (n / 2 ^ (e + f)) 1 with low | high
  · have zero : n / 2 ^ (e + f) = 0 := Nat.lt_one_iff.mp low
    simp only [zero] at split
    simp [toBits, ofBits, ofMagnitude, zero]
    omega
  · have one : n / 2 ^ (e + f) = 1 := Nat.le_antisymm (Nat.le_of_lt_succ top) high
    simp only [one] at split
    simp [toBits, ofBits, ofMagnitude, one]
    omega

def infiniteMagnitude (e f : Nat) : Nat :=
  (2 ^ e - 1) * 2 ^ f

theorem infiniteMagnitude_lt (e f : Nat) : infiniteMagnitude e f < 2 ^ (e + f) := by
  rw [infiniteMagnitude, Nat.pow_add]
  exact Nat.mul_lt_mul_of_pos_right (Nat.sub_lt (Nat.two_pow_pos e) Nat.one_pos)
    (Nat.two_pow_pos f)

def isNaN (x : BinaryFloat e f) : Bool :=
  infiniteMagnitude e f < x.magnitude.val

def isInfinite (x : BinaryFloat e f) : Bool :=
  x.magnitude.val == infiniteMagnitude e f

def isFinite (x : BinaryFloat e f) : Bool :=
  x.magnitude.val < infiniteMagnitude e f

def unitDenominator (e f : Nat) : Nat :=
  2 ^ (2 ^ (e - 1) + f - 2)

theorem unitDenominator_pos (e f : Nat) : 0 < unitDenominator e f :=
  Nat.two_pow_pos _

/-- The absolute value of a magnitude, counted in least positive numbers. -/
def magnitudeUnits (f magnitude : Nat) : Nat :=
  if magnitude < 2 ^ f then magnitude
  else (magnitude % 2 ^ f + 2 ^ f) * 2 ^ (magnitude / 2 ^ f - 1)

def units (x : BinaryFloat e f) : Nat :=
  magnitudeUnits f x.magnitude.val

def truncate (x : BinaryFloat e f) : Int :=
  let whole := x.units / unitDenominator e f
  if x.negative then -(whole : Int) else whole

def integer? (x : BinaryFloat e f) : Option Int :=
  if x.isFinite ∧ x.units % unitDenominator e f = 0 then some x.truncate else none

/-- The magnitude nearest to `num / den` units, before saturation.  The unit of the binade is
`2 ^ scale`; rounding up to the next power of two carries into the exponent field. -/
def roundedMagnitude (f num den : Nat) : Nat :=
  let scale := Nat.log2 (num / den) - f
  scale * 2 ^ f + roundDiv num (den * 2 ^ scale)

def infinity (negative : Bool) : BinaryFloat e f :=
  ⟨negative, ⟨infiniteMagnitude e f, infiniteMagnitude_lt e f⟩⟩

def zero (negative : Bool) : BinaryFloat e f :=
  ⟨negative, ⟨0, Nat.two_pow_pos _⟩⟩

def ofRatio (negative : Bool) (num den : Nat) : BinaryFloat e f :=
  let magnitude := roundedMagnitude f (num * unitDenominator e f) den
  ⟨negative, ⟨min magnitude (infiniteMagnitude e f),
    Nat.lt_of_le_of_lt (Nat.min_le_right _ _) (infiniteMagnitude_lt e f)⟩⟩

def quietBit (f : Nat) : Nat :=
  2 ^ (f - 1)

/-- A NaN that keeps its sign and the leading bits of its fraction, with the quiet bit set. -/
def convertNaN {e' f' : Nat} (x : BinaryFloat e f) : BinaryFloat e' f' :=
  let fraction := x.magnitude.val % 2 ^ f * 2 ^ f' / 2 ^ f
  let payload := fraction % quietBit f'
  ofMagnitude x.negative (infiniteMagnitude e' f' + quietBit f' + payload)

def convert {e' f' : Nat} (x : BinaryFloat e f) : BinaryFloat e' f' :=
  if x.isNaN then convertNaN x
  else if x.isInfinite then infinity x.negative
  else ofRatio x.negative x.units (unitDenominator e f)

def nan (negative : Bool) : BinaryFloat e f :=
  ofMagnitude negative (infiniteMagnitude e f + quietBit f)

end BinaryFloat

end ByteTemplate
