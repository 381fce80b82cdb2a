import ByteTemplate.Proofs.Elements
import ByteTemplate.Proofs.Number.Value

/-!
# Floats in fields

The bytes of a float that is read are written again as they were, except that a signaling NaN of
single precision becomes quiet.  A double that is written in single precision is rounded to the
nearest number, and out of range it becomes infinite.
-/

namespace ByteTemplate

namespace BinaryFloat

variable {e f : Nat}

def isSignaling (x : BinaryFloat e f) : Bool :=
  x.isNaN && x.magnitude.val / quietBit f % 2 == 0

private theorem magnitude_convert_convert_of_isNaN {s : Single} (nan : s.isNaN = true) :
    ((s.convert : Double).convert : Single).magnitude.val =
      if s.isSignaling then s.magnitude.val + quietBit 23 else s.magnitude.val := by
  have payload : s.magnitude.val % 2 ^ 23 * 2 ^ 52 / 2 ^ 23 % quietBit 52 < quietBit 52 :=
    Nat.mod_lt _ (Nat.two_pow_pos _)
  rw [convert_of_isNaN nan, convert_quietNaN (by decide) _ payload,
    magnitude_quietNaN (by decide) _ (Nat.mod_lt _ (Nat.two_pow_pos _))]
  have below := s.magnitude.isLt
  have above : infiniteMagnitude 8 23 < s.magnitude.val := by simpa [isNaN] using nan
  simp only [infiniteMagnitude, quietBit] at *
  cases signaling : s.isSignaling with
  | true =>
      have unset : s.magnitude.val / 2 ^ 22 % 2 = 0 := by
        simpa [isSignaling, nan, quietBit] using signaling
      rw [if_pos rfl]
      omega
  | false =>
      have set : s.magnitude.val / 2 ^ 22 % 2 ≠ 0 := by
        simpa [isSignaling, nan, quietBit] using signaling
      rw [if_neg (by decide)]
      omega

private theorem infinity_of_isInfinite {x : BinaryFloat e f} (infinite : x.isInfinite = true) :
    infinity x.negative = x := by
  rcases x with ⟨negative, magnitude⟩
  simp only [isInfinite, beq_iff_eq] at infinite
  simp only [infinity, mk.injEq, true_and]
  exact Fin.ext infinite.symm

private theorem toBits_convert_convert (s : Single) :
    ((s.convert : Double).convert : Single).toBits =
      if s.isSignaling then s.toBits + quietBit 23 else s.toBits := by
  rcases class_cases s with ⟨-, infinite, nan⟩ | ⟨-, infinite, nan⟩ | ⟨-, -, nan⟩
  · rw [convert_convert_of_finite nan infinite]
    simp [isSignaling, nan]
  · rw [convert_of_isInfinite nan infinite, convert_infinity, infinity_of_isInfinite infinite]
    simp [isSignaling, nan]
  · simp only [toBits, negative_convert, magnitude_convert_convert_of_isNaN nan]
    cases s.isSignaling
    · simp
    · simp [Nat.add_assoc]

end BinaryFloat

namespace Real

open BinaryFloat

def held (order : ByteOrder) (bs : Bytes) : Single :=
  BinaryFloat.ofBits (Integer.ofLittle (order.arrange bs))

/-- Four bytes with the quiet bit set, which is in the second byte from the sign. -/
def quieted (order : ByteOrder) (bs : Bytes) : Bytes :=
  order.arrange ((order.arrange bs).modify 2 (· ||| 0x40))

private theorem ofLittle_modify {bs : Bytes} (length : bs.length = 4)
    (unset : Integer.ofLittle bs / quietBit 23 % 2 = 0) :
    Integer.ofLittle (bs.modify 2 (· ||| 0x40)) = Integer.ofLittle bs + quietBit 23 := by
  have all : ∀ n : Fin 256, n.val / 64 % 2 = 0 →
      (UInt8.ofNat n.val ||| 0x40).toNat = n.val + 64 := by decide +kernel
  match bs, length with
  | [b₀, b₁, b₂, b₃], _ =>
      have small := b₀.toNat_lt
      have small' := b₁.toNat_lt
      have own := all ⟨b₂.toNat, b₂.toNat_lt⟩
      simp only [UInt8.ofNat_toNat] at own
      simp only [Integer.ofLittle, quietBit] at unset
      have set := own (by omega)
      simp only [List.modify_succ_cons, List.modify_zero_cons, Integer.ofLittle, set, quietBit]
      omega

private theorem unset_of_isSignaling {order : ByteOrder} {bs : Bytes}
    (signaling : (held order bs).isSignaling = true) :
    Integer.ofLittle (order.arrange bs) / quietBit 23 % 2 = 0 := by
  simp only [isSignaling, held, BinaryFloat.ofBits, ofMagnitude, Bool.and_eq_true,
    beq_iff_eq] at signaling
  have unset := signaling.2
  simp only [quietBit] at unset ⊢
  omega

private theorem encode_decode_single {order : ByteOrder} {bs : Bytes}
    (length : bs.length = Precision.single.width) :
    encode .single order (decode .single order bs) =
      if (held order bs).isSignaling then quieted order bs else bs := by
  have arranged : (order.arrange bs).length = 4 := by
    rw [ByteOrder.length_arrange]
    exact length
  have small := Integer.ofLittle_lt (order.arrange bs)
  rw [arranged] at small
  have own : (held order bs).toBits = Integer.ofLittle (order.arrange bs) := toBits_ofBits small
  have written : bits .single (decode .single order bs) =
      (((held order bs).convert : Double).convert : Single).toBits := rfl
  rw [encode, written, toBits_convert_convert, own]
  cases signaling : (held order bs).isSignaling with
  | false =>
      have back := Integer.toLittle_ofLittle (order.arrange bs)
      rw [arranged] at back
      simp only [Precision.width, Bool.false_eq_true, if_false]
      rw [back, ByteOrder.arrange_arrange]
  | true =>
      have back := Integer.toLittle_ofLittle ((order.arrange bs).modify 2 (· ||| 0x40))
      rw [List.length_modify, arranged,
        ofLittle_modify arranged (unset_of_isSignaling signaling)] at back
      simp only [Precision.width, if_true]
      rw [back, quieted]

/-- Bytes that are read as a float are written again, a signaling NaN of single precision with its
quiet bit set, and the two byte orders are the reverse of each other. -/
theorem keeps_bits (order : ByteOrder) (bs : Bytes) :
    (bs.length = 8 → encode .double order (decode .double order bs) = bs) ∧
      (bs.length = 4 → encode .single order (decode .single order bs) =
        if (held order bs).isSignaling then quieted order bs else bs) ∧
      ∀ precision x, encode precision .big x = (encode precision .little x).reverse := by
  refine ⟨?_, ?_, ?_⟩
  · intro length
    exact encode_decode_double length
  · intro length
    exact encode_decode_single length
  · intro precision x
    rfl

theorem keeps_bits_signaling :
    ([0x7F, 0xF0, 0, 0, 0, 0, 0, 1] : Bytes).length = 8 ∧
      encode .double .big (decode .double .big [0x7F, 0xF0, 0, 0, 0, 0, 0, 1]) =
        [0x7F, 0xF0, 0, 0, 0, 0, 0, 1] ∧
      ([0xFF, 0x80, 0, 1] : Bytes).length = 4 ∧
      encode .single .big (decode .single .big [0xFF, 0x80, 0, 1]) = [0xFF, 0xC0, 0, 1] := by
  refine ⟨rfl, (keeps_bits .big _).1 rfl, rfl, ?_⟩
  rw [(keeps_bits .big _).2.1 rfl]
  decide +kernel

end Real

/-! ## Rounding to single precision -/

namespace BinaryFloat

private theorem abs_value (x : BinaryFloat e f) : |x.value| = x.units / unitDenominator e f := by
  simp only [value, signedUnits]
  rw [abs_div, Nat.abs_cast]
  split <;> simp

/-- A double is out of the range of single precision from half way between the greatest number and
the next power of two. -/
theorem isInfinite_single_iff {x : Double} (finite : x.isFinite = true) :
    (x.convert : Single).isInfinite = true ↔ 2 ^ 128 - 2 ^ 103 ≤ |x.value| := by
  have cancel : ∀ one units : Nat,
      (2 ^ 128 - 2 ^ 103) * 2 ^ 150 * one ≤ 2 * (units * 2 ^ 149) ↔
        (2 ^ 128 - 2 ^ 103) * one ≤ units := by
    intro one units
    omega
  have ends : magnitudeUnits 23 (infiniteMagnitude 8 23 - 1) +
      magnitudeUnits 23 (infiniteMagnitude 8 23 - 1 + 1) = (2 ^ 128 - 2 ^ 103) * 2 ^ 150 := by
    decide +kernel
  have unit : unitDenominator 8 23 = 2 ^ 149 := rfl
  have pos := unitDenominator_pos 11 52
  rw [isInfinite_convert_iff finite, unit, abs_value]
  generalize unitDenominator 11 52 = one at pos
  have half_way := @lt_roundedMagnitude_iff 23 (x.units * 2 ^ 149) one (by decide) pos
    (infiniteMagnitude 8 23 - 1) (by decide)
  rw [ends, cancel] at half_way
  have pos' : (0 : ℚ) < one := by exact_mod_cast pos
  have whole : ((2 ^ 128 - 2 ^ 103) * one : ℚ) = ((2 ^ 128 - 2 ^ 103) * one : Nat) := by
    norm_num
  rw [le_div_iff₀ pos', whole, Nat.cast_le, ← half_way]
  have some_finite : 0 < infiniteMagnitude 8 23 := by decide
  omega

end BinaryFloat

namespace Real

open BinaryFloat

/-- A double is written in single precision without failure, as the nearest number with its sign,
and as an infinity from half way between the greatest number and the next power of two.  What is
read again keeps the order of the doubles. -/
theorem rounds_to_single (order : ByteOrder) :
    (∀ x : Double, x.isFinite = true → ∃ s : Single,
      (Element.float .single).encode order (.float x) =
          .ok (order.arrange (Integer.toLittle 4 s.toBits)) ∧
        s.negative = x.negative ∧
        (s.isInfinite = true ↔ 2 ^ 128 - 2 ^ 103 ≤ |x.value|) ∧
        (s.isInfinite = false → s.IsNearest x.value)) ∧
      ∀ x y : Double, (Number.float x).isAtMost (.float y) = true →
        (Number.float (decode .single order (encode .single order x))).isAtMost
          (.float (decode .single order (encode .single order y))) = true := by
  constructor
  · intro x finite
    refine ⟨x.convert, rfl, negative_convert x, isInfinite_single_iff finite, ?_⟩
    exact isNearest_convert (by decide) finite
  · intro x y less
    obtain ⟨number, number', ranks⟩ := (Number.isAtMost_float_iff x y).mp less
    rw [decode_encode, decode_encode, Number.isAtMost_float_iff]
    refine ⟨isNaN_convert (isNaN_convert number), isNaN_convert (isNaN_convert number'), ?_⟩
    apply rank_convert_le (by decide) (by decide) (isNaN_convert number) (isNaN_convert number')
    exact rank_convert_le (by decide) (by decide) number number' ranks

theorem rounds_to_single_half :
    (BinaryFloat.ofBits 0xB690000000000000 : Double).isFinite = true ∧
      (∃ s : Single,
        (Element.float .single).encode .little (.float (BinaryFloat.ofBits 0xB690000000000000)) =
            .ok (ByteOrder.little.arrange (Integer.toLittle 4 s.toBits)) ∧
          s.negative = true ∧
          (s.isInfinite = false →
            s.IsNearest (BinaryFloat.ofBits 0xB690000000000000 : Double).value)) ∧
      (Number.float (BinaryFloat.ofBits 0xB690000000000000)).isAtMost
        (.float (BinaryFloat.ofBits 0)) = true ∧
      (Number.float (decode .single .little
          (encode .single .little (BinaryFloat.ofBits 0xB690000000000000)))).isAtMost
        (.float (decode .single .little
          (encode .single .little (BinaryFloat.ofBits 0)))) = true := by
  have finite : (BinaryFloat.ofBits 0xB690000000000000 : Double).isFinite = true := by
    decide +kernel
  have less : (Number.float (BinaryFloat.ofBits 0xB690000000000000)).isAtMost
      (.float (BinaryFloat.ofBits 0)) = true := by decide +kernel
  obtain ⟨s, written, sign, -, nearest⟩ := (rounds_to_single .little).1 _ finite
  exact ⟨finite, ⟨s, written, sign, nearest⟩, less, (rounds_to_single .little).2 _ _ less⟩

/-- The tie goes to the zero with the same sign; the threshold of infinity and the double before
it. -/
example : encode .single .big (BinaryFloat.ofBits 0xB690000000000000) = [0x80, 0, 0, 0] ∧
    encode .single .big (BinaryFloat.ofBits 0x47EFFFFFF0000000) = [0x7F, 0x80, 0, 0] ∧
    encode .single .big (BinaryFloat.ofBits 0x47EFFFFFEFFFFFFF) = [0x7F, 0x7F, 0xFF, 0xFF] := by
  decide +kernel

end Real

end ByteTemplate
