import ByteTemplate.Codec.Integer

/-!
# Integers as residues

Writing keeps the residue of a number modulo `256 ^ width`.  Reading answers the number with
this residue in the unsigned or in the two's-complement range.
-/

namespace ByteTemplate.Integer

def wrap (signed : Bool) (width : Nat) (n : Int) : Int :=
  if signed then n.bmod (256 ^ width) else n % (256 ^ width : Nat)

def InRange (signed : Bool) (width : Nat) (n : Int) : Prop :=
  if signed then -2 ^ (8 * width - 1) ≤ n ∧ n < 2 ^ (8 * width - 1)
  else 0 ≤ n ∧ n < 2 ^ (8 * width)

theorem decode_encode (signed : Bool) (width : Nat) (order : ByteOrder) (n : Int) :
    decode signed order (encode width order n) = wrap signed width n := by
  have pos : (0 : Int) < (256 ^ width : Nat) := by
    exact_mod_cast Nat.pow_pos (by decide : 0 < 256)
  have nonneg := Int.emod_nonneg n (Int.ne_of_gt pos)
  have below := Int.emod_lt_of_pos n pos
  have small : (n % (256 ^ width : Nat)).toNat < 256 ^ width := by omega
  have read : ofLittle (order.arrange (encode width order n)) =
      (n % (256 ^ width : Nat)).toNat := by
    rw [encode, ByteOrder.arrange_arrange, ofLittle_toLittle, Nat.mod_eq_of_lt small]
  simp only [decode, wrap, read, length_encode, Int.bmod_def]
  cases signed with
  | false => simp only [Bool.false_eq_true, false_and, if_false]; omega
  | true => simp only [true_and, if_true]; split <;> split <;> omega

theorem natAbs_decode_lt (signed : Bool) (order : ByteOrder) (bs : Bytes) :
    (decode signed order bs).natAbs < 256 ^ bs.length := by
  have small := ofLittle_lt (order.arrange bs)
  rw [ByteOrder.length_arrange] at small
  simp only [decode]
  split <;> omega

theorem encode_decode (signed : Bool) (order : ByteOrder) (bs : Bytes) :
    encode bs.length order (decode signed order bs) = bs := by
  have small := ofLittle_lt (order.arrange bs)
  have back := toLittle_ofLittle (order.arrange bs)
  rw [ByteOrder.length_arrange] at small back
  have residue : (decode signed order bs % (256 ^ bs.length : Nat)).toNat =
      ofLittle (order.arrange bs) := by
    simp only [decode]
    split
    · rw [Int.sub_emod_right, Int.emod_eq_of_lt (by omega) (by omega), Int.toNat_natCast]
    · rw [Int.emod_eq_of_lt (by omega) (by omega), Int.toNat_natCast]
  rw [encode, residue, back, ByteOrder.arrange_arrange]

theorem modulus_eq (width : Nat) : 256 ^ width = 2 ^ (8 * width) := by
  rw [Nat.pow_mul]

theorem modulus_eq_two_mul {width : Nat} (pos : 0 < width) :
    256 ^ width = 2 * 2 ^ (8 * width - 1) := by
  rw [modulus_eq, ← Nat.pow_succ']
  congr 1
  omega

theorem wrap_of_inRange {signed : Bool} {width : Nat} {n : Int} (pos : 0 < width)
    (h : InRange signed width n) : wrap signed width n = n := by
  cases signed with
  | false =>
      obtain ⟨nonneg, below⟩ : 0 ≤ n ∧ n < 2 ^ (8 * width) := h
      simp only [wrap, Bool.false_eq_true, if_false, modulus_eq]
      exact Int.emod_eq_of_lt nonneg (by exact_mod_cast below)
  | true =>
      obtain ⟨low, high⟩ : -2 ^ (8 * width - 1) ≤ n ∧ n < 2 ^ (8 * width - 1) := h
      simp only [wrap, if_true, modulus_eq_two_mul pos]
      apply Int.bmod_eq_of_le
      · push_cast; omega
      · push_cast; omega

theorem inRange_decode (signed : Bool) (order : ByteOrder) {bs : Bytes} (pos : 0 < bs.length) :
    InRange signed bs.length (decode signed order bs) := by
  have small := ofLittle_lt (order.arrange bs)
  rw [ByteOrder.length_arrange] at small
  cases signed with
  | false =>
      rw [modulus_eq] at small
      simp only [InRange, decode, Bool.false_eq_true, false_and, if_false]
      exact ⟨Int.natCast_nonneg _, by exact_mod_cast small⟩
  | true =>
      have half : ((2 ^ (8 * bs.length - 1) : Nat) : Int) = 2 ^ (8 * bs.length - 1) :=
        Int.natCast_pow 2 _
      simp only [InRange, decode, if_true, true_and, modulus_eq_two_mul pos, ← half] at small ⊢
      split
      · constructor <;> push_cast <;> omega
      · constructor <;> omega

theorem limit_eq_error {maxBits : Option Nat} (set : ∀ b ∈ maxBits, 2 ≤ b) {n : Int} {e : Error}
    (h : limit maxBits n = .error e) :
    maxBits.isSome = true ∧
      (e = .integerTooWide n ∨ e = .tooManyDigits ∧ 10 ^ maxDigits ≤ n.natAbs) := by
  unfold limit at h
  split at h
  · cases h
  · exact absurd (set 0 rfl) (by decide)
  · split at h
    · cases h
    · split at h
      · cases h
        exact ⟨rfl, .inl rfl⟩
      · next long =>
          cases h
          exact ⟨rfl, .inr ⟨rfl, by simpa [isShowable] using long⟩⟩

theorem eq_of_limit {maxBits : Option Nat} {n m : Int} (h : limit maxBits n = .ok m) : m = n := by
  unfold limit at h
  split at h
  · exact (Except.ok.inj h).symm
  · cases h
  · split at h
    · exact (Except.ok.inj h).symm
    · split at h <;> cases h

theorem of_map_decodeWithin {maxBits : Option Nat} {signed : Bool} {order : ByteOrder}
    {bs : Bytes} {v : Value} (h : (decodeWithin maxBits signed order bs).map Value.int = .ok v) :
    v = .int (decode signed order bs) ∧
      limit maxBits (decode signed order bs) = .ok (decode signed order bs) := by
  unfold decodeWithin at h
  cases within : limit maxBits (decode signed order bs) with
  | error e =>
      rw [within] at h
      cases h
  | ok n =>
      obtain rfl := eq_of_limit within
      rw [within] at h
      exact ⟨(Except.ok.inj h).symm, rfl⟩

/-- Integers of eight bytes are far from the most digits that are shown. -/
theorem pow_le_of_le_eight {width : Nat} (narrow : width ≤ 8) : 256 ^ width ≤ 10 ^ maxDigits :=
  calc
    256 ^ width ≤ 256 ^ 8 := Nat.pow_le_pow_right (by decide) narrow
    _ ≤ 10 ^ 20 := by decide
    _ ≤ 10 ^ maxDigits := Nat.pow_le_pow_right (by decide) (by decide)

end ByteTemplate.Integer
