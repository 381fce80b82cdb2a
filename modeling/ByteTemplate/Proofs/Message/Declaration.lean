import ByteTemplate.Proofs.Message.Schema

/-!
# Declared texts

A text that is declared with a length is packed by a string directive, and the count of this
directive is the length.  A length below zero is none that a schema accepts.
-/

namespace ByteTemplate

private theorem exists_digits (n : Nat) :
    ∃ digits : List (Fin 10), decimalDigits n = digits.map (fun d => (Mark.digit d).char) ∧
      digits ≠ [] ∧ digits.foldl (fun n d => n * 10 + d.val) 0 = n := by
  have written : ∀ d : Fin 10, Nat.digitChar d.val = (Mark.digit d).char := by decide
  induction n using Nat.strongRecOn with
  | ind n ih =>
      rcases Nat.lt_or_ge n 10 with small | large
      · refine ⟨[⟨n, small⟩], ?_, by simp, by simp⟩
        rw [decimalDigits, Nat.toDigits_of_lt_base small]
        exact congrArg (fun c => [c]) (written ⟨n, small⟩)
      · obtain ⟨digits, front, -, value⟩ := ih (n / 10) (by omega)
        have last : n % 10 < 10 := Nat.mod_lt _ (by decide)
        refine ⟨digits ++ [⟨n % 10, last⟩], ?_, by simp, ?_⟩
        · rw [decimalDigits, Nat.toDigits_of_base_le (by decide) large, ← decimalDigits, front,
            List.map_append]
          exact congrArg (fun c => digits.map (fun d => (Mark.digit d).char) ++ [c])
            (written ⟨n % 10, last⟩)
        · rw [List.foldl_append, value]
          exact Nat.div_add_mod' n 10

namespace Suffix

private theorem count_of_read_inCount {modifiable : Bool} {digits : List (Fin 10)} :
    ∀ {s s' : Suffix} {n : Nat}, s.inCount = true → s.count = some n →
      read modifiable s (digits.map Mark.digit) = .ok s' →
        s'.count = some (digits.foldl (fun n d => n * 10 + d.val) n) := by
  induction digits with
  | nil =>
      intro s s' n _ count h
      cases h
      exact count
  | cons d digits ih =>
      intro s s' n inside count h
      simp only [List.map_cons, read, push, pushDigit, inside, if_true, count,
        Option.getD_some] at h
      by_cases large : maxSize < n * 10 + d.val
      · simp [large] at h
      · rw [if_neg large] at h
        exact ih rfl rfl h

private theorem count_of_read_digits {modifiable : Bool} {digits : List (Fin 10)} {s : Suffix}
    (some_digit : digits ≠ []) (h : read modifiable {} (digits.map Mark.digit) = .ok s) :
    s.count = some (digits.foldl (fun n d => n * 10 + d.val) 0) := by
  cases digits with
  | nil => exact absurd rfl some_digit
  | cons d digits =>
      simp only [List.map_cons, read, push, pushDigit, Bool.false_eq_true, if_false] at h
      rw [count_of_read_inCount rfl rfl h, List.foldl_cons, Nat.zero_mul, Nat.zero_add]

end Suffix

theorem Mark.codePoint_inj {m m' : Mark} (h : m.codePoint = m'.codePoint) : m = m' := by
  have same := congrArg Mark.ofCodePoint? h
  rw [Mark.ofCodePoint?_codePoint, Mark.ofCodePoint?_codePoint] at same
  exact Option.some.inj same

theorem Group.count_of_text {config : Config} {g : Group} {d : Directive} {letter : CodePoint}
    {n : Int} (read : g.directive config = .ok d)
    (text : g.text = letter :: Text.ofChars (intChars n)) :
    g.lead = letter ∧ ∃ k : Nat, n = k ∧ d.count = some k := by
  obtain ⟨lead, marks⟩ := List.cons.inj text
  refine ⟨lead, n.natAbs, ?_⟩
  by_cases negative : n < 0
  · -- The minus sign is no mark.
    rw [intChars, if_pos negative] at marks
    have minus : Mark.codePoint <$> g.marks.head? = some (.scalar '-') := by
      rw [Option.map_eq_map, ← List.head?_map, marks]
      rfl
    obtain ⟨m, -, own⟩ := Option.map_eq_some_iff.mp minus
    have known := Mark.ofCodePoint?_codePoint m
    rw [own] at known
    cases known
  · obtain ⟨digits, written, some_digit, value⟩ := exists_digits n.natAbs
    have digit_marks : g.marks = digits.map Mark.digit := by
      refine (List.map_inj_right fun _ _ => Mark.codePoint_inj).mp (marks.trans ?_)
      rw [intChars, if_neg negative, written, Text.ofChars, List.map_map,
        List.map_map]
      rfl
    obtain ⟨entry, suffix, -, counted, rfl⟩ := Group.directive_eq_ok read
    rw [digit_marks] at counted
    have count := Suffix.count_of_read_digits some_digit counted
    rw [value] at count
    exact ⟨by omega, count⟩

namespace Message

namespace Declaration

variable {d : Declaration} {f : Field}

theorem type_of_field (h : d.field = .ok f) : f.type = d.type := by
  unfold field at h
  simp only [bind, Except.bind] at h
  split at h
  case h_6 | h_7 =>
    split at h
    · cases h
    · cases h
      rfl
  all_goals
    cases h
    rfl

private theorem directive_of_text {n : Int} (form : d.form = .text) (length : d.length = .int n)
    (h : d.field = .ok f) :
    ∃ c, [CodePoint.scalar c] ∈ widthLetters ∧
      f.directive = some (.scalar c :: Text.ofChars (intChars n)) := by
  have digits : d.length.plain = Text.ofChars (intChars n) := by
    rw [length]
    change Text.ofString (String.ofList (intChars n)) = _
    rw [Text.ofString, String.toList_ofList]
  simp only [field, form, widthDirective, digits] at h
  cases letter : textValue? (d.directiveOr "A") with
  | none => simp [letter, bind, Except.bind] at h
  | some t =>
      by_cases known : t ∈ widthLetters
      · simp only [letter, known, if_true, bind, Except.bind, Except.ok.injEq] at h
        have single : ∀ t ∈ widthLetters, ∃ c, t = [CodePoint.scalar c] := by
          intro t mem
          simp only [widthLetters, List.mem_cons, List.not_mem_nil, or_false] at mem
          rcases mem with rfl | rfl | rfl <;> exact ⟨_, rfl⟩
        obtain ⟨c, rfl⟩ := single t known
        exact ⟨c, known, by rw [← h]; rfl⟩
      · simp [letter, known, bind, Except.bind] at h

private theorem forall₂_of_fields {ds : List Declaration} {fields : List Field}
    (h : Declaration.fields ds = .ok fields) :
    List.Forall₂ (fun d f => d.field = .ok f) ds fields := by
  refine forall₂_of_collected (F := Declaration.fields) rfl (fun d ds => ?_) h
  cases first : d.field <;> cases rest : Declaration.fields ds <;>
    simp [Declaration.fields, first, rest, bind, Except.bind, Except.map]

end Declaration

theorem FieldSchema.string_of_text {d : Declaration} {field : Field} {f : FieldSchema}
    {n : Int} (form : d.form = .text) (length : d.length = .int n)
    (declared : d.field = .ok field) (accepted : ofField field = .ok f) :
    ∃ padding, ∃ k : Nat, n = k ∧ f.directive.codec = .block (.string padding) ∧
      f.directive.count = some k := by
  obtain ⟨c, letter, written⟩ := Declaration.directive_of_text form length declared
  obtain ⟨own, -, -, text⟩ := FieldSchema.of_ofField accepted
  obtain ⟨g, group, read⟩ := own.group
  have same : g.text = .scalar c :: Text.ofChars (intChars n) := by
    rw [← group]
    rw [written] at text
    exact (Option.some.inj text).symm
  obtain ⟨lead, k, natural, count⟩ := Group.count_of_text read same
  obtain ⟨entry, suffix, found, -, directive⟩ := Group.directive_eq_ok read
  rw [lead] at found directive
  simp only [Declaration.widthLetters, Text.ofString, Text.ofChars, String.reduceToList,
    List.map_cons, List.map_nil, List.mem_cons, List.cons.injEq, CodePoint.scalar.injEq, and_true,
    List.not_mem_nil, or_false] at letter
  have padded : ∃ padding, entry.codec = .block (.string padding) := by
    rcases letter with rfl | rfl | rfl
    all_goals
      rw [Group.entry_of_ne _ (by decide) (by decide)] at found
      rw [← Except.ok.inj found]
      exact ⟨_, rfl⟩
  obtain ⟨padding, codec⟩ := padded
  refine ⟨padding, k, natural, ?_, count⟩
  rw [directive]
  simp only [codec, Codec.toNative, ite_self]

theorem Schema.exists_declaration {ds : List Declaration} {fields : List Field} {s : Schema}
    (declared : Declaration.fields ds = .ok fields) (schema : ofFields fields = .ok s) :
    ∀ f ∈ s, ∃ d ∈ ds, ∃ field, d.field = .ok field ∧ FieldSchema.ofField field = .ok f := by
  intro f mem
  obtain ⟨field, among, own⟩ :=
    exists_of_mem_of_forall₂ (Schema.forall₂_of_ofFields schema) f mem
  obtain ⟨d, declaration, first⟩ :=
    exists_of_mem_of_forall₂ (Declaration.forall₂_of_fields declared) field among
  exact ⟨d, declaration, field, first, own⟩

end Message

end ByteTemplate
