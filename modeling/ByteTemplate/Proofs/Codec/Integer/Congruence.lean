import ByteTemplate.Proofs.Codec.Integer
import Mathlib.Data.Int.ModEq

/-!
# Integers up to congruence

Bytes stand for the integers of one class modulo a power of two.  Writing picks the class, and
reading the one member of it in the range of the type.
-/

namespace ByteTemplate.Integer

variable {signed : Bool} {width : Nat} {order : ByteOrder}

theorem encode_eq_encode_iff {u v : Int} :
    encode width order u = encode width order v ↔ u ≡ v [ZMOD 2 ^ (8 * width)] := by
  have modulus : ((256 ^ width : Nat) : Int) = 2 ^ (8 * width) := by
    rw [modulus_eq]
    exact Int.natCast_pow 2 _
  constructor
  · intro same
    have read := congrArg (decode false order) same
    simp only [decode_encode, wrap, Bool.false_eq_true, if_false, modulus] at read
    exact read
  · intro congruent
    rw [encode, encode, modulus, congruent.eq]

theorem decode_encode_modEq (signed : Bool) (width : Nat) (order : ByteOrder) (n : Int) :
    decode signed order (encode width order n) ≡ n [ZMOD 2 ^ (8 * width)] := by
  have back := encode_decode signed order (encode width order n)
  rw [length_encode] at back
  exact encode_eq_encode_iff.mp back

theorem eq_decode_encode_iff (pos : 0 < width) {k n : Int} :
    k ≡ n [ZMOD 2 ^ (8 * width)] ∧ InRange signed width k ↔
      k = decode signed order (encode width order n) := by
  constructor
  · rintro ⟨congruent, inside⟩
    have same := @encode_eq_encode_iff width order k n
    rw [← same.mpr congruent, decode_encode, wrap_of_inRange pos inside]
  · rintro rfl
    refine ⟨decode_encode_modEq signed width order n, ?_⟩
    have inside := @inRange_decode signed order (encode width order n) (by rwa [length_encode])
    rwa [length_encode] at inside

/-- Writing and reading are arithmetic on residues modulo `2 ^ (8 * width)`, whatever the width,
the numbers and the byte order are. -/
theorem represents_residues (pos : 0 < width) (order : ByteOrder) (u v : Int) :
    (∀ signed, ∃ m, decodeWithin none signed order (encode width order v) = .ok m ∧
      ∀ k, k ≡ v [ZMOD 2 ^ (8 * width)] ∧ InRange signed width k ↔ k = m) ∧
    (∀ signed bs, ∃ m, decodeWithin none signed order bs = .ok m ∧
      encode bs.length order m = bs) ∧
    encode width .big v = (encode width .little v).reverse ∧
    (encode width order u = encode width order v ↔ u ≡ v [ZMOD 2 ^ (8 * width)]) :=
  ⟨fun _ => ⟨_, rfl, fun _ => eq_decode_encode_iff pos⟩,
    fun signed bs => ⟨_, rfl, encode_decode signed order bs⟩, rfl, encode_eq_encode_iff⟩

theorem represents_residues_wide :
    encode 3 .big (2 ^ 24 + 2 ^ 23) = [0x80, 0, 0] ∧
      decodeWithin none true .big [0x80, 0, 0] = .ok (-2 ^ 23) ∧
      encode 3 .big (2 ^ 24 + 2 ^ 23) = encode 3 .big (-2 ^ 23) := by
  obtain ⟨-, -, -, same⟩ := @represents_residues 3 (by decide) .big (2 ^ 24 + 2 ^ 23) (-2 ^ 23)
  exact ⟨by decide, by decide, same.mpr (by decide)⟩

end ByteTemplate.Integer
