import ByteTemplate.Proofs.Codec.Padded
import ByteTemplate.Proofs.Text.Utf8

/-!
# Texts in fields of fixed width

The bytes of a text are cut at the width of its field, wherever that is.  What is left is the
UTF-8 form of a text again unless the cut falls inside a character: neither padding nor stripping
touches the bytes of characters beyond ASCII.
-/

namespace ByteTemplate.Text

theorem utf8EncodeChar_of_ascii {c : Char} (h : c.toNat < 0x80) :
    String.utf8EncodeChar c = [UInt8.ofNat c.toNat] := by
  rw [utf8EncodeChar_eq_bytes, Codepoint.bytes_of_lt_0x80 h]

theorem le_of_mem_utf8EncodeChar {c : Char} (h : 0x80 ≤ c.toNat) :
    ∀ b ∈ String.utf8EncodeChar c, 0x80 ≤ b.toNat := by
  have small : c.toNat < 0x200000 := toNat_lt_bound c
  rw [utf8EncodeChar_eq_bytes]
  rcases Codepoint.range_cases c.toNat with low | ⟨low, high⟩ | ⟨low, high⟩ | low
  · omega
  · have lead := @Codepoint.toNat_lead 0xC0 (c.toNat / 0x40) (by omega)
    rw [Codepoint.bytes_of_lt_0x800 low high]
    simp only [List.forall_mem_cons, lead, Codepoint.toNat_continuation]
    exact ⟨by omega, by omega, fun b mem => by cases mem⟩
  · have lead := @Codepoint.toNat_lead 0xE0 (c.toNat / 0x1000) (by omega)
    rw [Codepoint.bytes_of_lt_0x10000 low high]
    simp only [List.forall_mem_cons, lead, Codepoint.toNat_continuation]
    exact ⟨by omega, by omega, by omega, fun b mem => by cases mem⟩
  · have lead := @Codepoint.toNat_lead 0xF0 (c.toNat / 0x40000) (by omega)
    rw [Codepoint.bytes_of_lt_bound low]
    simp only [List.forall_mem_cons, lead, Codepoint.toNat_continuation]
    exact ⟨by omega, by omega, by omega, by omega, fun b mem => by cases mem⟩

private theorem long_of_one_lt_length {c : Char} (h : 1 < (String.utf8EncodeChar c).length) :
    0x80 ≤ c.toNat := by
  apply Nat.le_of_not_lt
  intro ascii
  rw [utf8EncodeChar_of_ascii ascii] at h
  simp at h

theorem length_utf8EncodeChar_pos (c : Char) : 0 < (String.utf8EncodeChar c).length := by
  rw [utf8EncodeChar_eq_bytes]
  exact List.length_pos_iff.mpr (Codepoint.bytes_ne_nil _)

def isSplit : Nat → List Char → Bool
  | _, [] => false
  | n, c :: cs =>
      if n < (String.utf8EncodeChar c).length then n != 0
      else isSplit (n - (String.utf8EncodeChar c).length) cs

/-- The first bytes of a text are a text, with the beginning of a character after it where the
text is split. -/
theorem take_utf8OfChars (cs : List Char) : ∀ n, ∃ ds,
    (isSplit n cs = false ∧ (utf8OfChars cs).take n = utf8OfChars ds) ∨
      (isSplit n cs = true ∧ n ≤ (utf8OfChars cs).length ∧
        ∃ c k, 0 < k ∧ k < (String.utf8EncodeChar c).length ∧
          (utf8OfChars cs).take n = utf8OfChars ds ++ (String.utf8EncodeChar c).take k) := by
  induction cs with
  | nil => exact fun n => ⟨[], .inl ⟨rfl, by simp⟩⟩
  | cons c cs ih =>
      intro n
      rw [utf8OfChars_cons]
      by_cases inside : n < (String.utf8EncodeChar c).length
      · refine ⟨[], ?_⟩
        rw [List.take_append_of_le_length (Nat.le_of_lt inside)]
        simp only [isSplit, if_pos inside]
        by_cases nothing : n = 0
        · exact .inl ⟨by simp [nothing], by simp [nothing]⟩
        · refine .inr ⟨by simp [nothing], ?_, c, n, Nat.pos_of_ne_zero nothing, inside, rfl⟩
          rw [List.length_append]
          omega
      · obtain ⟨ds, rest⟩ := ih (n - (String.utf8EncodeChar c).length)
        refine ⟨c :: ds, ?_⟩
        rw [List.take_append, List.take_of_length_le (Nat.le_of_not_lt inside)]
        simp only [isSplit, if_neg inside, utf8OfChars_cons, List.append_assoc, List.length_append]
        rcases rest with ⟨whole, taken⟩ | ⟨split, enough, c', k, some_left, cut, taken⟩
        · exact .inl ⟨whole, by rw [taken]⟩
        · exact .inr ⟨split, by omega, c', k, some_left, cut, by rw [taken]⟩

/-! ## Stripping -/

theorem le_of_isTrimmed {b : UInt8} (h : Padded.isTrimmed b = true) : b.toNat < 0x80 := by
  simp only [Padded.isTrimmed, Bool.or_eq_true, beq_iff_eq, Bool.and_eq_true,
    decide_eq_true_eq] at h
  rcases h with (rfl | ⟨-, high⟩) | rfl
  · decide
  · have bound := UInt8.le_iff_toNat_le.mp high
    have limit : (0x0D : UInt8).toNat = 13 := rfl
    omega
  · decide

private theorem trimEnd_concat_of_trimmed {bs : Bytes} {b : UInt8} (h : Padded.isTrimmed b = true) :
    Padded.trimEnd (bs ++ [b]) = Padded.trimEnd bs := by
  simp only [Padded.trimEnd, List.reverse_append, List.reverse_singleton, List.singleton_append,
    List.dropWhile_cons_of_pos h]

theorem trimEnd_append_take {bs : Bytes} {c : Char} {k : Nat} (long : 0x80 ≤ c.toNat)
    (some_left : 0 < k) :
    Padded.trimEnd (bs ++ (String.utf8EncodeChar c).take k) =
      bs ++ (String.utf8EncodeChar c).take k := by
  have pos := length_utf8EncodeChar_pos c
  have ends : (String.utf8EncodeChar c).take k ≠ [] := by
    apply List.ne_nil_of_length_pos
    rw [List.length_take]
    omega
  apply Padded.trimEnd_eq_self
  intro b last
  rw [List.getLast?_append, List.getLast?_eq_some_getLast ends, Option.some_or] at last
  have part := List.mem_of_mem_take
    (List.mem_of_getLast? ((List.getLast?_eq_some_getLast ends).trans last))
  have high := le_of_mem_utf8EncodeChar long b part
  cases trimmed : Padded.isTrimmed b with
  | false => rfl
  | true =>
      have low := le_of_isTrimmed trimmed
      omega

private theorem exists_trimEnd_utf8OfChars (cs : List Char) :
    ∃ ds, Padded.trimEnd (utf8OfChars cs) = utf8OfChars ds := by
  -- Characters are stripped from the end, so the induction is on the reversed text.
  have reversed : ∀ rs : List Char,
      ∃ ds, Padded.trimEnd (utf8OfChars rs.reverse) = utf8OfChars ds := by
    intro rs
    induction rs with
    | nil => exact ⟨[], rfl⟩
    | cons c rs ih =>
        have split : utf8OfChars (c :: rs).reverse =
            utf8OfChars rs.reverse ++ String.utf8EncodeChar c := by simp
        rcases Nat.lt_or_ge c.toNat 0x80 with ascii | long
        · rw [split, utf8EncodeChar_of_ascii ascii]
          cases trimmed : Padded.isTrimmed (UInt8.ofNat c.toNat) with
          | true =>
              rw [trimEnd_concat_of_trimmed trimmed]
              exact ih
          | false =>
              refine ⟨(c :: rs).reverse, ?_⟩
              rw [split, utf8EncodeChar_of_ascii ascii]
              apply Padded.trimEnd_eq_self
              intro b last
              rw [List.getLast?_concat] at last
              cases last
              exact trimmed
        · refine ⟨(c :: rs).reverse, ?_⟩
          have whole := @trimEnd_append_take (utf8OfChars rs.reverse) c _ long
            (length_utf8EncodeChar_pos c)
          rw [List.take_length] at whole
          rw [split, whole]
  have back := reversed cs.reverse
  rwa [List.reverse_reverse] at back

private theorem takeWhile_utf8OfChars (cs : List Char) :
    (utf8OfChars cs).takeWhile (· != 0) = utf8OfChars (cs.takeWhile (· != '\x00')) := by
  induction cs with
  | nil => rfl
  | cons c cs ih =>
      rw [utf8OfChars_cons]
      by_cases null : c = '\x00'
      · subst null
        rfl
      · have no_null : ∀ b ∈ String.utf8EncodeChar c, (b != 0) = true := by
          intro b mem
          rcases Nat.lt_or_ge c.toNat 0x80 with ascii | long
          · rw [utf8EncodeChar_of_ascii ascii, List.mem_singleton] at mem
            have value : b.toNat = c.toNat := by
              rw [mem, UInt8.toNat_ofNat']
              omega
            have pos : c.toNat ≠ 0 := by
              intro zero
              exact null (Char.toNat_inj.mp zero)
            simp only [bne_iff_ne, ne_eq]
            rintro rfl
            exact pos value.symm
          · have high := le_of_mem_utf8EncodeChar long b mem
            simp only [bne_iff_ne, ne_eq]
            rintro rfl
            exact absurd high (by decide)
        rw [List.takeWhile_append_of_pos no_null, ih,
          List.takeWhile_cons_of_pos (by simpa using null), utf8OfChars_cons]

/-! ## Kept texts -/

/-- Whether a field of `n` bytes cuts a text inside a character.  A terminated text is cut before
its first NUL or not at all. -/
def isCut (padding : Padding) (n : Nat) (cs : List Char) : Bool :=
  match padding with
  | .terminated => isSplit n (cs.takeWhile (· != '\x00'))
  | _ => isSplit n cs

theorem ofUtf8?_kept (padding : Padding) (n : Nat) (cs : List Char) :
    (ofUtf8? (Padded.kept padding (some n) (utf8OfChars cs))).isNone = isCut padding n cs := by
  have plain : ∀ cs, (ofUtf8? ((utf8OfChars cs).take n)).isNone = isSplit n cs := by
    intro cs
    obtain ⟨ds, ⟨whole, taken⟩ | ⟨split, -, c, k, some_left, cut, taken⟩⟩ := take_utf8OfChars cs n
    · rw [whole, taken, ofUtf8?_utf8OfChars]
      rfl
    · rw [split, taken, ofUtf8?_cut ds c some_left cut]
      rfl
  cases padding with
  | terminated =>
      have stopped : Padded.kept .terminated (some n) (utf8OfChars cs) =
          (utf8OfChars (cs.takeWhile (· != '\x00'))).take n := by
        rw [← takeWhile_utf8OfChars, List.take_takeWhile]
        rfl
      rw [stopped, plain]
      rfl
  | nulls =>
      obtain ⟨ds, ⟨whole, taken⟩ | ⟨split, enough, -⟩⟩ := take_utf8OfChars cs n
      · have nulls : ∀ k, List.replicate k (0 : UInt8) = utf8OfChars (List.replicate k '\x00') := by
          intro k
          induction k with
          | zero => rfl
          | succ k ih => rw [List.replicate_succ, List.replicate_succ, utf8OfChars_cons, ← ih]; rfl
        simp only [Padded.kept, taken, isCut, whole]
        rw [nulls, ← utf8OfChars_append, ofUtf8?_utf8OfChars]
        rfl
      · have full : (some n).getD 0 - ((utf8OfChars cs).take n).length = 0 := by
          rw [List.length_take, Option.getD_some]
          omega
        simp only [Padded.kept, full, List.replicate_zero, List.append_nil, plain, isCut]
  | spaces =>
      simp only [Padded.kept, Padded.strip, isCut]
      obtain ⟨ds, ⟨whole, taken⟩ | ⟨split, -, c, k, some_left, cut, taken⟩⟩ := take_utf8OfChars cs n
      · obtain ⟨es, stripped⟩ := exists_trimEnd_utf8OfChars ds
        rw [whole, taken, stripped, ofUtf8?_utf8OfChars]
        rfl
      · have long := long_of_one_lt_length (Nat.lt_of_le_of_lt some_left cut)
        rw [taken, trimEnd_append_take long some_left, ← taken]
        exact plain cs

end ByteTemplate.Text
