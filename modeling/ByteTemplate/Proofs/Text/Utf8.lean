import ByteTemplate.Conversion
import ByteTemplate.Proofs.Codec.Codepoint

/-!
# UTF-8

The UTF-8 form of a text is read back as the text, and a form that ends inside a character is
not read at all.
-/

namespace ByteTemplate

namespace Text

def utf8OfChars (cs : List Char) : Bytes :=
  cs.flatMap String.utf8EncodeChar

@[simp] theorem utf8OfChars_nil : utf8OfChars [] = [] := rfl

@[simp] theorem utf8OfChars_cons (c : Char) (cs : List Char) :
    utf8OfChars (c :: cs) = String.utf8EncodeChar c ++ utf8OfChars cs := by
  simp [utf8OfChars]

@[simp] theorem utf8OfChars_append (cs ds : List Char) :
    utf8OfChars (cs ++ ds) = utf8OfChars cs ++ utf8OfChars ds := by
  simp [utf8OfChars]

theorem toNat_lt_bound (c : Char) : c.toNat < Codepoint.bound := by
  rcases c.valid with h | ⟨-, h⟩ <;>
    simp only [Char.toNat, UInt32.toNat, Codepoint.bound] at * <;> omega

theorem utf8EncodeChar_eq_bytes (c : Char) :
    String.utf8EncodeChar c = Codepoint.bytes c.toNat := by
  have value : c.val.toNat = c.toNat := rfl
  have small : c.toNat < 0x200000 := toNat_lt_bound c
  simp only [String.utf8EncodeChar, value, Codepoint.bytes, Codepoint.continuation]
  rcases Codepoint.range_cases c.toNat with low | ⟨low, high⟩ | ⟨low, high⟩ | low
  · rw [if_pos (by omega), if_pos low]
  · have lead : c.toNat / 64 < 0x20 := by omega
    rw [if_neg (by omega), if_pos (by omega), if_neg (by omega), if_pos high,
      Nat.mod_eq_of_lt lead]
    simp only [Nat.add_comm]
  · have lead : c.toNat / 4096 < 0x10 := by omega
    rw [if_neg (by omega), if_neg (by omega), if_pos (by omega), if_neg (by omega),
      if_neg (by omega), if_pos high, Nat.mod_eq_of_lt lead]
    simp only [Nat.add_comm]
  · have lead : c.toNat / 262144 < 0x08 := by omega
    rw [if_neg (by omega), if_neg (by omega), if_neg (by omega), if_neg (by omega),
      if_neg (by omega), if_neg (by omega), Nat.mod_eq_of_lt lead]
    simp only [Nat.add_comm]

private theorem ofUtf8From_of_decode {fuel n size : Nat} {bs : Bytes} (left : bs ≠ [])
    (read : Codepoint.decode bs = .ok (some n, size)) (valid : n.isValidChar) :
    ofUtf8From (fuel + 1) bs =
      (ofUtf8From fuel (bs.drop size)).map (.scalar (Char.ofNat n) :: ·) := by
  cases bs with
  | nil => exact absurd rfl left
  | cons b bs => simp [ofUtf8From, read, valid]

theorem ofUtf8From_utf8OfChars_append (cs : List Char) (fuel : Nat) (tail : Bytes) :
    ofUtf8From (cs.length + fuel) (utf8OfChars cs ++ tail) =
      (ofUtf8From fuel tail).map (ofChars cs ++ ·) := by
  induction cs with
  | nil => simp [ofChars]
  | cons c cs ih =>
      have left : utf8OfChars (c :: cs) ++ tail ≠ [] := by
        simp [utf8EncodeChar_eq_bytes, Codepoint.bytes_ne_nil]
      have read : Codepoint.decode (utf8OfChars (c :: cs) ++ tail) =
          .ok (some c.toNat, (String.utf8EncodeChar c).length) := by
        rw [utf8OfChars_cons, List.append_assoc, utf8EncodeChar_eq_bytes]
        exact Codepoint.decode_bytes_append (toNat_lt_bound c) _
      rw [List.length_cons, Nat.add_right_comm, ofUtf8From_of_decode left read c.valid,
        utf8OfChars_cons, List.append_assoc, List.drop_left' rfl, ih, Option.map_map]
      simp [ofChars, Function.comp_def]

theorem length_le_length_utf8OfChars (cs : List Char) :
    cs.length ≤ (utf8OfChars cs).length := by
  induction cs with
  | nil => simp
  | cons c cs ih =>
      have pos : 0 < (String.utf8EncodeChar c).length := by
        rw [utf8EncodeChar_eq_bytes]
        exact List.length_pos_iff.mpr (Codepoint.bytes_ne_nil _)
      simp only [utf8OfChars_cons, List.length_cons, List.length_append]
      omega

@[simp] theorem ofUtf8?_utf8OfChars (cs : List Char) :
    ofUtf8? (utf8OfChars cs) = some (ofChars cs) := by
  obtain ⟨fuel, enough⟩ := Nat.exists_eq_add_of_le (length_le_length_utf8OfChars cs)
  have read := ofUtf8From_utf8OfChars_append cs fuel []
  rw [List.append_nil] at read
  rw [ofUtf8?, enough, read]
  cases fuel <;> simp [ofUtf8From]

theorem ofUtf8?_cut (cs : List Char) (c : Char) {k : Nat} (some_left : 0 < k)
    (cut : k < (String.utf8EncodeChar c).length) :
    ofUtf8? (utf8OfChars cs ++ (String.utf8EncodeChar c).take k) = none := by
  rw [utf8EncodeChar_eq_bytes] at cut ⊢
  obtain ⟨e, fault⟩ := Codepoint.decode_take_bytes (toNat_lt_bound c) some_left cut
  have pos : 0 < ((Codepoint.bytes c.toNat).take k).length := by
    rw [List.length_take]
    omega
  have count := length_le_length_utf8OfChars cs
  obtain ⟨fuel, enough⟩ := Nat.exists_eq_add_of_le
    (show cs.length + 1 ≤ (utf8OfChars cs ++ (Codepoint.bytes c.toNat).take k).length by
      rw [List.length_append]
      omega)
  rw [ofUtf8?, enough, Nat.add_assoc, Nat.add_comm 1 fuel, ofUtf8From_utf8OfChars_append]
  cases left : (Codepoint.bytes c.toNat).take k with
  | nil => simp [left] at pos
  | cons b bs =>
      rw [left] at fault
      simp [ofUtf8From, fault]

private theorem eq_ofChars_of_chars? {t : Text} {cs : List Char} (h : t.chars? = some cs) :
    t = ofChars cs := by
  induction t generalizing cs with
  | nil =>
      simp only [chars?, List.mapM_nil, Option.pure_def, Option.some.injEq] at h
      simp [← h, ofChars]
  | cons c t ih =>
      simp only [chars?, List.mapM_cons, Option.bind_eq_bind, Option.bind_eq_some_iff,
        Option.pure_def, Option.some.injEq] at h
      obtain ⟨first, isChar, rest, others, rfl⟩ := h
      cases c with
      | surrogate offset => simp [CodePoint.char?] at isChar
      | scalar c =>
          simp only [CodePoint.char?, Option.some.injEq] at isChar
          simp [ofChars, ih others, isChar]

theorem utf8?_eq_some_iff {t : Text} {bs : Bytes} :
    t.utf8? = some bs ↔ ∃ cs, t = ofChars cs ∧ bs = utf8OfChars cs := by
  constructor
  · intro h
    simp only [utf8?, Option.map_eq_some_iff] at h
    obtain ⟨cs, read, rfl⟩ := h
    exact ⟨cs, eq_ofChars_of_chars? read, rfl⟩
  · rintro ⟨cs, rfl, rfl⟩
    exact utf8?_ofChars cs

theorem utf8?_eq_none_iff {t : Text} :
    t.utf8? = none ↔ t.any CodePoint.isSurrogate = true := by
  simp only [utf8?, Option.map_eq_none_iff, chars?]
  induction t with
  | nil => simp
  | cons c t ih =>
      cases c with
      | surrogate offset => simp [CodePoint.char?, CodePoint.isSurrogate]
      | scalar c =>
          rw [List.mapM_cons]
          simp only [List.any_cons, CodePoint.isSurrogate, Bool.false_or, ← ih]
          cases List.mapM CodePoint.char? t <;> simp [CodePoint.char?]

theorem exists_eq_ofChars {t : Text} (scalar : t.any CodePoint.isSurrogate = false) :
    ∃ cs, t = ofChars cs := by
  cases form : t.utf8? with
  | none =>
      rw [utf8?_eq_none_iff.mp form] at scalar
      cases scalar
  | some bs =>
      obtain ⟨cs, eq, -⟩ := utf8?_eq_some_iff.mp form
      exact ⟨cs, eq⟩

end Text

theorem Value.toBytes_ofChars (cs : List Char) :
    (Value.text (Text.ofChars cs)).toBytes = .ok (Text.utf8OfChars cs) := by
  simp only [Value.toBytes, Text.toUtf8, Text.utf8?_ofChars]
  rfl

end ByteTemplate
