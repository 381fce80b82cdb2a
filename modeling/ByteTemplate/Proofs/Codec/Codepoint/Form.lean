import ByteTemplate.Codec.Codepoint

/-!
# Forms of code points

A number has a form in as many bytes as its bits need, and in any larger number of bytes up to
six: the first byte counts the bytes, and each of the others holds six bits.  The sequence of a
number is its shortest form.
-/

namespace ByteTemplate.Codepoint

theorem bytes_of_lt_0x80 {n : Nat} (h : n < 0x80) : bytes n = [UInt8.ofNat n] := by
  simp [bytes, h]

theorem bytes_of_lt_0x800 {n : Nat} (low : 0x80 ≤ n) (high : n < 0x800) :
    bytes n = [UInt8.ofNat (0xC0 + n / 0x40), continuation n] := by
  rw [bytes, if_neg (by omega), if_pos high]

theorem bytes_of_lt_0x10000 {n : Nat} (low : 0x800 ≤ n) (high : n < 0x10000) :
    bytes n =
      [UInt8.ofNat (0xE0 + n / 0x1000), continuation (n / 0x40), continuation n] := by
  rw [bytes, if_neg (by omega), if_neg (by omega), if_pos high]

theorem bytes_of_lt_bound {n : Nat} (low : 0x10000 ≤ n) :
    bytes n =
      [UInt8.ofNat (0xF0 + n / 0x40000), continuation (n / 0x1000),
        continuation (n / 0x40), continuation n] := by
  rw [bytes, if_neg (by omega), if_neg (by omega), if_neg (by omega)]

theorem range_cases (n : Nat) :
    n < 0x80 ∨ (0x80 ≤ n ∧ n < 0x800) ∨ (0x800 ≤ n ∧ n < 0x10000) ∨ 0x10000 ≤ n := by
  omega

theorem bytes_ne_nil (n : Nat) : bytes n ≠ [] := by
  rcases range_cases n with h | ⟨low, high⟩ | ⟨low, high⟩ | low
  · simp [bytes_of_lt_0x80 h]
  · simp [bytes_of_lt_0x800 low high]
  · simp [bytes_of_lt_0x10000 low high]
  · simp [bytes_of_lt_bound low]

theorem length_bytes_le (n : Nat) : (bytes n).length ≤ 4 := by
  rcases range_cases n with h | ⟨low, high⟩ | ⟨low, high⟩ | low
  · simp [bytes_of_lt_0x80 h]
  · simp [bytes_of_lt_0x800 low high]
  · simp [bytes_of_lt_0x10000 low high]
  · simp [bytes_of_lt_bound low]

theorem encode_eq_ok_iff {n : Nat} {bs : Bytes} :
    encode n = .ok bs ↔ n < bound ∧ bs = bytes n := by
  rw [encode, Int.toNat_natCast]
  split
  · next small =>
      have small : n < bound := Int.ofNat_lt.mp small.2
      simp [small, eq_comm]
  · next large =>
      have large : ¬n < bound := fun h => large ⟨Int.natCast_nonneg n, Int.ofNat_lt.mpr h⟩
      simp [large]

theorem encode_of_lt {n : Nat} (h : n < bound) : encode n = .ok (bytes n) :=
  encode_eq_ok_iff.mpr ⟨h, rfl⟩

def IsContinuation (b : UInt8) : Prop :=
  0x80 ≤ b.toNat ∧ b.toNat < 0xC0

/-- The least first byte of a form: as many ones at its top as the form has bytes, none for a
single byte. -/
def leadMark : Nat → Nat
  | 0 | 1 => 0
  | 2 => 0xC0
  | 3 => 0xE0
  | 4 => 0xF0
  | 5 => 0xF8
  | 6 => 0xFC
  | _ => 0xFE

def IsLead (length : Nat) (b : UInt8) : Prop :=
  leadMark length ≤ b.toNat ∧ b.toNat < leadMark (length + 1)

def formBound : Nat → Nat
  | 0 => 0
  | 1 => 0x80
  | 2 => 0x800
  | 3 => 0x10000
  | 4 => 0x200000
  | 5 => 0x4000000
  | _ => 0x80000000

structure HasForm (length n : Nat) : Prop where
  pos : 1 ≤ length
  le_six : length ≤ 6
  lt_bound : n < formBound length

def continuations : Nat → Nat → Bytes
  | 0, _ => []
  | count + 1, n => continuation (n / 0x40 ^ count) :: continuations count n

def formLead (length n : Nat) : UInt8 :=
  UInt8.ofNat (leadMark length + n / 0x40 ^ (length - 1))

def form (length n : Nat) : Bytes :=
  formLead length n :: continuations (length - 1) n

theorem length_continuations (count n : Nat) : (continuations count n).length = count := by
  induction count with
  | zero => rfl
  | succ count ih => rw [continuations, List.length_cons, ih]

theorem length_form {length n : Nat} (pos : 1 ≤ length) : (form length n).length = length := by
  rw [form, List.length_cons, length_continuations]
  omega

theorem toNat_lead {base n : Nat} (h : base + n < 256) :
    (UInt8.ofNat (base + n)).toNat = base + n := by
  simp only [UInt8.toNat_ofNat']
  omega

theorem formBound_mono {length longer : Nat} (h : length ≤ longer) :
    formBound length ≤ formBound longer := by
  induction h with
  | refl => exact Nat.le_refl _
  | @step longer _ ih =>
      refine Nat.le_trans ih ?_
      match longer with
      | 0 | 1 | 2 | 3 | 4 | 5 => decide
      | _ + 6 => exact Nat.le_refl _

/-- The shortest form of a number is the one that no shorter length has room for. -/
structure IsShortest (length n : Nat) : Prop extends HasForm length n where
  least : ∀ other, HasForm other n → length ≤ other

theorem isShortest_of_le {length n : Nat} (h : HasForm (length + 1) n)
    (large : formBound length ≤ n) : IsShortest (length + 1) n := by
  refine ⟨h, fun other known => ?_⟩
  apply Nat.le_of_not_lt
  intro shorter
  have larger := formBound_mono (Nat.le_of_lt_succ shorter)
  have small := known.lt_bound
  omega

theorem IsShortest.formBound_le {length n : Nat} (h : IsShortest (length + 1) n) :
    formBound length ≤ n := by
  apply Nat.le_of_not_lt
  intro small
  cases length with
  | zero => exact Nat.not_lt_zero n small
  | succ length =>
      have shorter : HasForm (length + 1) n := ⟨by omega, Nat.le_of_succ_le h.le_six, small⟩
      exact absurd (h.least _ shorter) (Nat.not_succ_le_self _)

private theorem form_two (n : Nat) :
    form 2 n = [UInt8.ofNat (0xC0 + n / 0x40), continuation n] := by
  simp [form, formLead, leadMark, continuations]

private theorem form_three (n : Nat) :
    form 3 n = [UInt8.ofNat (0xE0 + n / 0x1000), continuation (n / 0x40), continuation n] := by
  simp [form, formLead, leadMark, continuations]

private theorem form_four (n : Nat) :
    form 4 n = [UInt8.ofNat (0xF0 + n / 0x40000), continuation (n / 0x1000),
      continuation (n / 0x40), continuation n] := by
  simp [form, formLead, leadMark, continuations]

theorem exists_isShortest {n : Nat} (h : n < bound) :
    ∃ length, length ≤ 4 ∧ IsShortest length n ∧ bytes n = form length n := by
  have small : n < 0x200000 := h
  rcases range_cases n with low | ⟨low, high⟩ | ⟨low, high⟩ | low
  · refine ⟨1, by decide, isShortest_of_le ⟨by decide, by decide, low⟩ (Nat.zero_le n), ?_⟩
    rw [bytes_of_lt_0x80 low]
    simp [form, formLead, leadMark, continuations]
  · exact ⟨2, by decide, isShortest_of_le ⟨by decide, by decide, high⟩ low,
      by rw [bytes_of_lt_0x800 low high, form_two]⟩
  · exact ⟨3, by decide, isShortest_of_le ⟨by decide, by decide, high⟩ low,
      by rw [bytes_of_lt_0x10000 low high, form_three]⟩
  · exact ⟨4, by decide, isShortest_of_le ⟨by decide, by decide, small⟩ low,
      by rw [bytes_of_lt_bound low, form_four]⟩

/-- A shortest form of at most four bytes is the sequence of its number. -/
theorem bytes_of_isShortest {length n : Nat} (short : length ≤ 4) (h : IsShortest length n) :
    n < bound ∧ bytes n = form length n := by
  have small : n < bound := Nat.lt_of_lt_of_le h.lt_bound (formBound_mono short)
  obtain ⟨other, -, known, eq⟩ := exists_isShortest small
  obtain rfl : length = other :=
    Nat.le_antisymm (h.least other known.toHasForm) (known.least length h.toHasForm)
  exact ⟨small, eq⟩

/-! ## The bytes of a form -/

theorem toNat_continuation (n : Nat) : (continuation n).toNat = 0x80 + n % 0x40 := by
  simp only [continuation, UInt8.toNat_ofNat']
  omega

theorem isContinuation_continuation (n : Nat) : IsContinuation (continuation n) := by
  rw [IsContinuation, toNat_continuation]
  omega

theorem continuation_eq {n : Nat} {b : UInt8} (range : IsContinuation b)
    (low : n % 0x40 = b.toNat % 0x40) : continuation n = b := by
  rw [IsContinuation] at range
  have value : 0x80 + n % 0x40 = b.toNat := by omega
  rw [continuation, value, UInt8.ofNat_toNat]

theorem lead_cases (b : UInt8) :
    b.toNat < 0x80 ∨ IsContinuation b ∨ 0xF8 ≤ b.toNat ∨
      ∃ length, 2 ≤ length ∧ length ≤ 4 ∧ IsLead length b := by
  by_cases single : b.toNat < 0x80
  · exact .inl single
  by_cases rest : b.toNat < 0xC0
  · exact .inr (.inl ⟨by omega, rest⟩)
  by_cases wide : 0xF8 ≤ b.toNat
  · exact .inr (.inr (.inl wide))
  refine .inr (.inr (.inr ?_))
  by_cases two : b.toNat < 0xE0
  · exact ⟨2, by decide, by decide, by simp only [leadMark]; omega, two⟩
  by_cases three : b.toNat < 0xF0
  · exact ⟨3, by decide, by decide, by simp only [leadMark]; omega, three⟩
  · exact ⟨4, by decide, by decide, by simp only [leadMark]; omega,
      by simp only [leadMark]; omega⟩

theorem toNat_formLead {length n : Nat} (h : HasForm length n) :
    (formLead length n).toNat = leadMark length + n / 0x40 ^ (length - 1) := by
  have pos := h.pos
  have six := h.le_six
  have small := h.lt_bound
  apply toNat_lead
  match length with
  | 1 | 2 | 3 | 4 | 5 | 6 => simp only [formBound, leadMark] at *; omega

theorem isLead_formLead {length n : Nat} (h : HasForm length n) :
    IsLead length (formLead length n) := by
  have pos := h.pos
  have six := h.le_six
  have small := h.lt_bound
  rw [IsLead, toNat_formLead h]
  match length with
  | 1 | 2 | 3 | 4 | 5 | 6 => simp only [formBound, leadMark] at *; omega

theorem leadMark_add_mod {length : Nat} {b : UInt8} (long : 2 ≤ length) (short : length ≤ 6)
    (h : IsLead length b) : leadMark length + b.toNat % 2 ^ (7 - length) = b.toNat := by
  obtain ⟨low, high⟩ := h
  match length with
  | 2 | 3 | 4 | 5 | 6 => simp only [leadMark] at *; omega

theorem lt_formBound {length n : Nat} (long : 2 ≤ length) (short : length ≤ 6)
    (h : n / 0x40 ^ (length - 1) < 2 ^ (7 - length)) : n < formBound length := by
  match length with
  | 2 | 3 | 4 | 5 | 6 => simp only [formBound] at *; omega

inductive IsMalformed : Bytes → Prop
  /-- A byte that continues a form stands first. -/
  | stray {b : UInt8} {rest : Bytes} : IsContinuation b → IsMalformed (b :: rest)
  /-- The first byte begins forms of five or six bytes, or none. -/
  | wide {b : UInt8} {rest : Bytes} : 0xF8 ≤ b.toNat → IsMalformed (b :: rest)
  /-- One of the bytes that the first one announces is missing or of another kind. -/
  | broken {length i : Nat} {lead : UInt8} {rest : Bytes} : 2 ≤ length → length ≤ 6 →
      IsLead length lead → i + 1 < length → (∀ b ∈ rest[i]?, ¬IsContinuation b) →
      IsMalformed (lead :: rest)
  /-- A number stands in more bytes than it needs. -/
  | overlong {shorter length n : Nat} {rest : Bytes} : HasForm shorter n → HasForm length n →
      shorter < length → IsMalformed (form length n ++ rest)

end ByteTemplate.Codepoint
