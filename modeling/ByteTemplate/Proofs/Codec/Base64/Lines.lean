import ByteTemplate.Proofs.Codec.Base64

/-!
# Lines of Base64

Wrapping cuts a text into lines that hold as many bytes each, but for the last, which holds the
rest.  The line ends are all that wrapping adds, and the last of them is all that decoding leaves.
-/

namespace ByteTemplate.Base64

theorem symbol_ne {n : Nat} (h : n < 64) : symbol n ≠ padding ∧ symbol n ≠ 0x0A := by
  have all : ∀ k : Fin 64, symbol k.val ≠ padding ∧ symbol k.val ≠ 0x0A := by decide
  exact all ⟨n, h⟩

theorem mem_encodeLine {line : Bytes} {x : UInt8} (h : x ∈ encodeLine line) :
    (∃ n < 64, x = symbol n) ∨ (x = padding ∧ line.length % 3 ≠ 0) := by
  fun_induction encodeLine line with
  | case1 => cases h
  | case2 a =>
      have smallA := a.toNat_lt
      simp only [List.mem_cons, List.not_mem_nil, or_false] at h
      rcases h with first | second | pad | pad
      · exact .inl ⟨_, by omega, first⟩
      · exact .inl ⟨_, by omega, second⟩
      · exact .inr ⟨pad, by simp⟩
      · exact .inr ⟨pad, by simp⟩
  | case3 a b =>
      have smallA := a.toNat_lt
      have smallB := b.toNat_lt
      simp only [List.mem_cons, List.not_mem_nil, or_false] at h
      rcases h with first | second | third | pad
      · exact .inl ⟨_, by omega, first⟩
      · exact .inl ⟨_, by omega, second⟩
      · exact .inl ⟨_, by omega, third⟩
      · exact .inr ⟨pad, by simp⟩
  | case4 a b c line ih =>
      have smallA := a.toNat_lt
      have smallB := b.toNat_lt
      have smallC := c.toNat_lt
      simp only [List.mem_cons] at h
      rcases h with first | second | third | fourth | later
      · exact .inl ⟨_, by omega, first⟩
      · exact .inl ⟨_, by omega, second⟩
      · exact .inl ⟨_, by omega, third⟩
      · exact .inl ⟨_, by omega, fourth⟩
      · apply (ih later).imp_right
        rintro ⟨pad, broken⟩
        refine ⟨pad, ?_⟩
        simp only [List.length_cons]
        omega

theorem newline_notMem_encodeLine (line : Bytes) : 0x0A ∉ encodeLine line := by
  intro mem
  rcases mem_encodeLine mem with ⟨n, small, eq⟩ | ⟨eq, -⟩
  · exact (symbol_ne small).2 eq.symm
  · exact absurd eq (by decide)

private theorem padding_notMem_encodeLine {line : Bytes} (whole : line.length % 3 = 0) :
    padding ∉ encodeLine line := by
  intro mem
  rcases mem_encodeLine mem with ⟨n, small, eq⟩ | ⟨-, broken⟩
  · exact (symbol_ne small).1 eq.symm
  · exact broken whole

private theorem encodeLine_append {line : Bytes} (whole : line.length % 3 = 0) (rest : Bytes) :
    encodeLine (line ++ rest) = encodeLine line ++ encodeLine rest := by
  fun_induction encodeLine line with
  | case1 => rfl
  | case2 | case3 => simp at whole
  | case4 a b c line ih =>
      have tail := ih (by simp only [List.length_cons] at whole; omega)
      simp [encodeLine, tail]

theorem filter_encodeLine (line : Bytes) :
    (encodeLine line).filter (· != 0x0A) = encodeLine line := by
  rw [List.filter_eq_self]
  intro b mem
  rw [bne_iff_ne]
  rintro rfl
  exact newline_notMem_encodeLine line mem

/-! ## Lines -/

/-- Lines of a text: `full` ones that hold `width` bytes each and a last one with what is left. -/
structure AreLines (width : Nat) (full : List Bytes) (last source text : Bytes) : Prop where
  source_eq : source = full.flatten ++ last
  text_eq : text = (full ++ [last]).flatMap fun line => encodeLine line ++ [0x0A]
  width_eq : ∀ line ∈ full, line.length = width
  last_pos : 1 ≤ last.length
  last_le : last.length ≤ width

theorem exists_areLines {width : Nat} (pos : 0 < width) :
    ∀ (k : Nat) (source : Bytes), source ≠ [] → source.length ≤ k →
      ∃ full last, AreLines width full last source (wrapped width k source) := by
  intro k
  induction k with
  | zero =>
      intro source left enough
      exact absurd (List.eq_nil_of_length_eq_zero (Nat.le_zero.mp enough)) left
  | succ k ih =>
      intro source left enough
      rcases Nat.lt_or_ge width source.length with long | short
      · have rest_length : (source.drop width).length = source.length - width := List.length_drop
        have rest_left : source.drop width ≠ [] := by
          rw [← List.length_pos_iff]
          omega
        obtain ⟨full, last, lines⟩ := ih (source.drop width) rest_left (by omega)
        refine ⟨source.take width :: full, last, ?_, ?_, ?_, lines.last_pos, lines.last_le⟩
        · rw [List.flatten_cons, List.append_assoc, ← lines.source_eq, List.take_append_drop]
        · rw [wrapped_of_ne_nil left, lines.text_eq]
          simp
        · rw [List.forall_mem_cons]
          exact ⟨List.length_take_of_le (Nat.le_of_lt long), lines.width_eq⟩
      · refine ⟨[], source, rfl, ?_, nofun, List.length_pos_iff.mpr left, short⟩
        rw [wrapped_of_short left short]
        simp

namespace AreLines

variable {width : Nat} {full : List Bytes} {last source text : Bytes}

private theorem filter_eq (lines : AreLines width full last source text) (whole : width % 3 = 0) :
    text.filter (· != 0x0A) = encodeLine source := by
  obtain ⟨rfl, rfl, widths, -, -⟩ := lines
  induction full with
  | nil => simp [filter_encodeLine]
  | cons line full ih =>
      rw [List.forall_mem_cons] at widths
      have rest := ih widths.2
      rw [List.flatten_cons, List.append_assoc, encodeLine_append (by rw [widths.1, whole]), ← rest]
      simp [filter_encodeLine]

private theorem line_eq (lines : AreLines width full last source text) (whole : width % 3 = 0) :
    ∀ line ∈ full, (encodeLine line).length = 4 * width / 3 ∧ padding ∉ encodeLine line := by
  intro line mem
  have size := lines.width_eq line mem
  refine ⟨?_, padding_notMem_encodeLine (by rw [size, whole])⟩
  rw [length_encodeLine, size]
  omega

theorem ends (lines : AreLines width full last source text) :
    ∃ front, text = front ++ [0x0A] ∧ front.getLast? ≠ some 0x0A := by
  refine ⟨(full.flatMap fun line => encodeLine line ++ [0x0A]) ++ encodeLine last, ?_, ?_⟩
  · rw [lines.text_eq]
    simp
  · have pos := lines.last_pos
    have left : encodeLine last ≠ [] := by
      rw [← List.length_pos_iff, length_encodeLine]
      omega
    rw [List.getLast?_append, List.getLast?_eq_some_getLast left, Option.some_or, ne_eq,
      Option.some.injEq]
    intro newline
    apply newline_notMem_encodeLine last
    rw [← newline]
    exact List.getLast_mem left

end AreLines

/-! ## Texts -/

/-- The text of some bytes is read back, and holds them in lines where it is wrapped. -/
structure IsTransparent (count : Option Nat) (source text : Bytes) : Prop where
  decode_eq : decode text =
    (source, if count ≠ some 0 ∧ source ≠ [] then text.length - 1 else text.length)
  unwrapped : text.filter (· != 0x0A) = encode (some 0) source
  wraps : count ≠ some 0 → source ≠ [] → ∃ width : Nat,
    lineBytes (count.map Int.ofNat) = width ∧
      ∃ full last, AreLines width full last source text ∧
        (∀ line ∈ full, (encodeLine line).length = 4 * width / 3 ∧ padding ∉ encodeLine line) ∧
        (∀ line ∈ full ++ [last], 0x0A ∉ encodeLine line) ∧
        ∃ front, text = front ++ [0x0A] ∧ front.getLast? ≠ some 0x0A

private theorem filter_encode (count : Option Nat) (source : Bytes) :
    (encode (count.map Int.ofNat) source).filter (· != 0x0A) = encodeLine source := by
  obtain ⟨width, lineSize, whole, -⟩ := exists_lineBytes count
  rw [encode_eq lineSize]
  split
  · exact filter_encodeLine source
  · next wraps =>
      by_cases left : source = []
      · rw [left]
        rfl
      · obtain ⟨full, last, lines⟩ :=
          exists_areLines (Nat.pos_of_ne_zero wraps) source.length source left (Nat.le_refl _)
        exact lines.filter_eq whole

/-- Whatever the count, wrapping adds line ends and nothing else. -/
theorem encode_isTransparent (count : Option Nat) (source : Bytes) :
    IsTransparent count source (encode (count.map Int.ofNat) source) := by
  refine ⟨decode_encode count source, filter_encode count source, fun wraps left => ?_⟩
  obtain ⟨width, lineSize, whole, zero⟩ := exists_lineBytes count
  have nonzero : width ≠ 0 := fun h => wraps (zero.mp h)
  obtain ⟨full, last, lines⟩ :=
    exists_areLines (Nat.pos_of_ne_zero nonzero) source.length source left (Nat.le_refl _)
  have text := encode_eq lineSize source
  rw [if_neg nonzero] at text
  rw [text]
  exact ⟨width, lineSize, full, last, lines, lines.line_eq whole,
    fun line _ => newline_notMem_encodeLine line, lines.ends⟩

end ByteTemplate.Base64
