import Mathlib.Data.List.DropRight
import ByteTemplate.Proofs.Groups

/-!
# The grammar of templates

Reading a template one directive at a time follows a grammar: a group is a character and the
longest run of marks after it, the marks stand for a count and for modifiers in whatever order they
are written, and a group fails at its leftmost fault.
-/

namespace ByteTemplate

namespace Mark

def isDigit : Mark → Bool
  | .digit _ => true
  | _ => false

def isModifier (m : Mark) : Bool :=
  m.modifiers?.isSome

def lastDigits (marks : List Mark) : List Mark :=
  marks.rtakeWhile isDigit

def digitValue : Mark → Nat
  | .digit d => d.val
  | _ => 0

def number (digits : List Mark) : Nat :=
  digits.foldl (fun n m => n * 10 + m.digitValue) 0

/-- The count of the last star or run of digits, one where there is none. -/
def lastCount (marks : List Mark) : Option Nat :=
  let counted := marks.rdropWhile isModifier
  match counted.getLast? with
  | none => some 1
  | some .star => none
  | some _ => some (number (lastDigits counted))

/-- The error of a mark that stands after others: a modifier where none is allowed, or a digit
with which the run of digits before it becomes too large a number. -/
def fault? (modifiable : Bool) (before : List Mark) (m : Mark) : Option Error :=
  match m with
  | .digit _ =>
      if maxSize < number (lastDigits (before ++ [m])) then some .countTooLarge else none
  | .star => none
  | _ => if modifiable then none else some (.modifierNotAllowed m.char)

private theorem number_concat (digits : List Mark) (m : Mark) :
    number (digits ++ [m]) = number digits * 10 + m.digitValue := by
  simp [number]

private theorem lastDigits_digit (marks : List Mark) (d : Fin 10) :
    lastDigits (marks ++ [.digit d]) = lastDigits marks ++ [.digit d] :=
  List.rtakeWhile_concat_pos _ _ _ rfl

theorem lastDigits_of_not_digit (marks : List Mark) {m : Mark} (h : m.isDigit = false) :
    lastDigits (marks ++ [m]) = [] :=
  List.rtakeWhile_concat_neg _ _ _ (by simp [h])

private theorem lastCount_digit (marks : List Mark) (d : Fin 10) :
    lastCount (marks ++ [.digit d]) = some (number (lastDigits (marks ++ [.digit d]))) := by
  rw [lastCount, List.rdropWhile_concat_neg _ _ _ (by simp [isModifier, modifiers?])]
  simp

private theorem lastCount_star (marks : List Mark) : lastCount (marks ++ [.star]) = none := by
  rw [lastCount, List.rdropWhile_concat_neg _ _ _ (by decide)]
  simp

private theorem lastCount_modifier (marks : List Mark) {m : Mark} (h : m.isModifier = true) :
    lastCount (marks ++ [m]) = lastCount marks := by
  rw [lastCount, List.rdropWhile_concat_pos _ _ _ h, lastCount]

end Mark

def Modifiers.ofMarks (marks : List Mark) : Modifiers where
  native := marks.contains .underscore || marks.contains .bang
  little := marks.contains .less
  big := marks.contains .greater

theorem Modifiers.union_ofMarks {marks : List Mark} {m : Mark} {own : Modifiers}
    (h : m.modifiers? = some own) :
    (ofMarks marks).union own = ofMarks (marks ++ [m]) := by
  cases m with
  | digit d => cases h
  | star => cases h
  | _ =>
      cases h
      simp [ofMarks, union]

/-! ## Reading marks -/

/-- Whether marks, none of which is at fault, amount to a suffix. -/
structure Suffix.Sums (marks : List Mark) (s : Suffix) : Prop where
  count : s.count = Mark.lastCount marks
  modifiers : s.modifiers = .ofMarks marks
  digits : if s.inCount then s.count = some (Mark.number (Mark.lastDigits marks))
    else Mark.lastDigits marks = []

namespace Suffix

variable {modifiable : Bool} {before : List Mark} {s : Suffix}

theorem sums_nil : Sums [] {} :=
  ⟨rfl, rfl, rfl⟩

theorem Sums.pushDigit (sums : s.Sums before) (d : Fin 10) :
    (∃ e, Mark.fault? modifiable before (.digit d) = some e ∧ s.pushDigit d.val = .error e) ∨
      Mark.fault? modifiable before (.digit d) = none ∧
        ∃ s', s.pushDigit d.val = .ok s' ∧ s'.Sums (before ++ [.digit d]) := by
  have digits := sums.digits
  have modifiers : s.modifiers = .ofMarks (before ++ [.digit d]) := by
    rw [sums.modifiers]
    simp [Modifiers.ofMarks]
  have longer : Mark.number (Mark.lastDigits (before ++ [.digit d])) =
      Mark.number (Mark.lastDigits before) * 10 + d.val := by
    rw [Mark.lastDigits_digit, Mark.number_concat, Mark.digitValue]
  have count := Mark.lastCount_digit before d
  simp only [Mark.fault?, longer, Suffix.pushDigit] at count ⊢
  cases inside : s.inCount with
  | true =>
      simp only [inside, if_true] at digits
      simp only [if_true, digits, Option.getD_some]
      by_cases large : maxSize < Mark.number (Mark.lastDigits before) * 10 + d.val
      · exact .inl ⟨_, if_pos large, if_pos large⟩
      · refine .inr ⟨if_neg large, _, if_neg large, count.symm, modifiers, ?_⟩
        rw [if_pos rfl, longer]
  | false =>
      simp only [inside, Bool.false_eq_true, if_false] at digits
      have alone : Mark.number (Mark.lastDigits before) * 10 + d.val = d.val := by
        rw [digits]
        exact Nat.zero_add _
      have small : ¬maxSize < d.val := Nat.not_lt_of_le (Nat.le_trans d.is_le (by decide))
      simp only [alone] at longer count ⊢
      refine .inr ⟨if_neg small, _, rfl, count.symm, modifiers, ?_⟩
      rw [if_pos rfl, longer]

theorem Sums.push (sums : s.Sums before) (m : Mark) :
    (∃ e, Mark.fault? modifiable before m = some e ∧ s.push modifiable m = .error e) ∨
      Mark.fault? modifiable before m = none ∧
        ∃ s', s.push modifiable m = .ok s' ∧ s'.Sums (before ++ [m]) := by
  have modify : ∀ {own}, m.modifiers? = some own → m.isDigit = false →
      (s.modify own).Sums (before ++ [m]) := by
    intro own known no_digit
    refine ⟨?_, ?_, Mark.lastDigits_of_not_digit _ no_digit⟩
    · rw [Mark.lastCount_modifier _ (by rw [Mark.isModifier, known]; rfl)]
      exact sums.count
    · rw [← Modifiers.union_ofMarks known, ← sums.modifiers]
      rfl
  cases m with
  | digit d => exact sums.pushDigit d
  | star =>
      refine .inr ⟨rfl, _, rfl, (Mark.lastCount_star before).symm, ?_,
        Mark.lastDigits_of_not_digit _ rfl⟩
      rw [sums.modifiers]
      simp [Modifiers.ofMarks]
  | _ =>
      cases modifiable with
      | true => exact .inr ⟨rfl, _, rfl, modify rfl rfl⟩
      | false => exact .inl ⟨_, rfl, rfl⟩

end Suffix

def Mark.AreSound (modifiable : Bool) (marks : List Mark) : Prop :=
  ∀ before m after, marks = before ++ m :: after → Mark.fault? modifiable before m = none

theorem Mark.areSound_concat {modifiable : Bool} {marks : List Mark} {m : Mark}
    (sound : AreSound modifiable marks) (own : fault? modifiable marks m = none) :
    AreSound modifiable (marks ++ [m]) := by
  intro before m' after split
  rcases List.eq_nil_or_concat after with rfl | ⟨rest, last, rfl⟩
  · obtain ⟨rfl, same⟩ := List.append_inj' split rfl
    cases same
    exact own
  · rw [List.concat_eq_append, ← List.cons_append, ← List.append_assoc] at split
    exact sound before m' rest (List.append_inj' split rfl).1

/-- Reading on after some marks ends at the leftmost fault, or sums up all marks. -/
theorem Suffix.Sums.read {modifiable : Bool} {marks : List Mark} :
    ∀ {before : List Mark} {s : Suffix}, s.Sums before → Mark.AreSound modifiable before →
      match Suffix.read modifiable s marks with
      | .error ⟨e, unread⟩ =>
          ∃ front m after, before ++ marks = front ++ m :: after ∧
            Mark.AreSound modifiable front ∧ Mark.fault? modifiable front m = some e ∧
            unread = after.length
      | .ok s' => s'.Sums (before ++ marks) ∧ Mark.AreSound modifiable (before ++ marks) := by
  induction marks with
  | nil =>
      intro before s sums sound
      rw [List.append_nil]
      exact ⟨sums, sound⟩
  | cons m marks ih =>
      intro before s sums sound
      simp only [Suffix.read]
      rcases @Suffix.Sums.push modifiable _ _ sums m with ⟨e, fault, pushed⟩ | ⟨own, s', pushed, more⟩
      · rw [pushed]
        exact ⟨before, m, marks, rfl, sound, fault, rfl⟩
      · rw [pushed, List.append_cons]
        exact ih more (Mark.areSound_concat sound own)

namespace Suffix

variable {modifiable : Bool} {marks : List Mark}

theorem sums_of_read {s : Suffix} (h : read modifiable {} marks = .ok s) :
    s.Sums marks ∧ Mark.AreSound modifiable marks := by
  have outcome := @Sums.read modifiable marks [] {} sums_nil (by simp [Mark.AreSound])
  rw [h] at outcome
  exact outcome

private theorem exists_read_of_areSound (sound : Mark.AreSound modifiable marks) :
    ∃ s, read modifiable {} marks = .ok s ∧ s.Sums marks := by
  have outcome := @Sums.read modifiable marks [] {} sums_nil (by simp [Mark.AreSound])
  cases read : Suffix.read modifiable {} marks with
  | ok s =>
      rw [read] at outcome
      exact ⟨s, rfl, outcome.1⟩
  | error fault =>
      rw [read] at outcome
      obtain ⟨front, m, after, split, -, own, -⟩ := outcome
      rw [sound front m after split] at own
      cases own

theorem read_eq_error_iff {fault : Fault} :
    read modifiable {} marks = .error fault ↔
      ∃ before m after, marks = before ++ m :: after ∧ Mark.AreSound modifiable before ∧
        Mark.fault? modifiable before m = some fault.error ∧ fault.unread = after.length := by
  constructor
  · intro h
    have outcome := @Sums.read modifiable marks [] {} sums_nil (by simp [Mark.AreSound])
    rw [h] at outcome
    exact outcome
  · rintro ⟨before, m, after, rfl, sound, own, unread⟩
    obtain ⟨s, first, sums⟩ := exists_read_of_areSound sound
    rw [read_append, first]
    rcases @Sums.push modifiable _ _ sums m with ⟨e, found, pushed⟩ | ⟨none_found, -⟩
    · rw [own] at found
      obtain rfl := Option.some.inj found
      simp only [read, pushed, ← unread]
    · rw [none_found] at own
      cases own

end Suffix

/-! ## The directive of a group -/

namespace Entry

def aliases : List (Char × Nat × Char) :=
  [('I', 2, 'S'), ('I', 4, 'L'), ('I', 8, 'Q'), ('i', 2, 's'), ('i', 4, 'l'), ('i', 8, 'q')]

/-- Whether an entry of the table is that of a character or of the one it stands for. -/
inductive IsOf (config : Config) : CodePoint → Entry → Prop
  | own {c : Char} (upper : c ≠ 'I') (lower : c ≠ 'i') : IsOf config (.scalar c) (ofChar c)
  | native {c c' : Char} (known : (c, config.intSize, c') ∈ aliases) :
      IsOf config (.scalar c) (ofChar c')
  | surrogate (offset : Fin 0x800) : IsOf config (.surrogate offset) { codec := .ignored }

private theorem native_ofChar (c : Char) : (ofChar c).modifiers.native = false := by
  unfold ofChar
  split <;> rfl

theorem IsOf.native_eq_false {config : Config} {c : CodePoint} {entry : Entry}
    (h : IsOf config c entry) : entry.modifiers.native = false := by
  cases h with
  | surrogate offset => rfl
  | _ => exact native_ofChar _

end Entry

section

variable {config : Config} {c : CodePoint}

theorem Group.nativeEntry_eq_ok_iff {signed : Bool} {entry : Entry} :
    nativeEntry config signed = .ok entry ↔
      ∃ c', ((if signed then 'i' else 'I'), config.intSize, c') ∈ Entry.aliases ∧
        entry = Entry.ofChar c' := by
  unfold nativeEntry Entry.ofNativeInt?
  cases signed <;> simp only [Entry.aliases, List.mem_cons, Prod.mk.injEq, List.not_mem_nil]
  all_goals
    split
    · next found => split at found <;> simp_all [eq_comm]
    · next missing => split at missing <;> simp_all

theorem Group.nativeEntry_eq_error_iff {signed : Bool} {e : Error} :
    nativeEntry config signed = .error e ↔
      config.intSize ∉ [2, 4, 8] ∧ e = unsupportedSize config.intSize := by
  unfold nativeEntry Entry.ofNativeInt?
  split
  · next found => split at found <;> simp_all
  · next missing => split at missing <;> simp_all [eq_comm]

theorem Group.entry_eq_ok_iff {entry : Entry} :
    Group.entry config c = .ok entry ↔ Entry.IsOf config c entry := by
  constructor
  · intro h
    cases c with
    | surrogate offset =>
        cases h
        exact .surrogate offset
    | scalar c =>
        by_cases upper : c = 'I'
        · subst upper
          obtain ⟨c', known, rfl⟩ := nativeEntry_eq_ok_iff.mp h
          exact .native known
        by_cases lower : c = 'i'
        · subst lower
          obtain ⟨c', known, rfl⟩ := nativeEntry_eq_ok_iff.mp h
          exact .native known
        rw [Group.entry_of_ne config upper lower] at h
        cases h
        exact .own upper lower
  · rintro (⟨upper, lower⟩ | @⟨c, c', known⟩ | offset)
    · exact Group.entry_of_ne config upper lower
    · have letter : c = 'I' ∨ c = 'i' := by
        simp only [Entry.aliases, List.mem_cons, Prod.mk.injEq, List.not_mem_nil, or_false] at known
        rcases known with ⟨rfl, -⟩ | ⟨rfl, -⟩ | ⟨rfl, -⟩ | ⟨rfl, -⟩ | ⟨rfl, -⟩ | ⟨rfl, -⟩ <;> simp
      rcases letter with rfl | rfl
      · exact nativeEntry_eq_ok_iff.mpr ⟨c', known, rfl⟩
      · exact nativeEntry_eq_ok_iff.mpr ⟨c', known, rfl⟩
    · rfl

theorem Group.entry_eq_error_iff {e : Error} :
    Group.entry config c = .error e ↔
      (c = .scalar 'I' ∨ c = .scalar 'i') ∧ config.intSize ∉ [2, 4, 8] ∧
        e = unsupportedSize config.intSize := by
  cases c with
  | surrogate offset => simp [Group.entry]
  | scalar c =>
      by_cases upper : c = 'I'
      · subst upper
        rw [Group.entry_upper_int, nativeEntry_eq_error_iff]
        simp
      by_cases lower : c = 'i'
      · subst lower
        rw [Group.entry_lower_int, nativeEntry_eq_error_iff]
        simp
      rw [Group.entry_of_ne config upper lower]
      simp [upper, lower]

def familyWidth (config : Config) (c : CodePoint) (width : Nat) : Nat :=
  if c ∈ Text.ofString "sS" then 2
  else if c ∈ Text.ofString "iI" then config.intSize
  else if c ∈ Text.ofString "lL" then config.longSize
  else width

private theorem nativeWidth_eq (width : Nat) :
    nativeWidth config c width = familyWidth config c width := by
  unfold nativeWidth familyWidth
  split <;> simp_all [Text.ofString, Text.ofChars, Config.shortSize]

theorem Codec.toNative_eq (codec : Codec) :
    codec.toNative config c = codec.resize (familyWidth config c) := by
  unfold Codec.toNative Codec.resize
  split <;> simp_all [nativeWidth_eq]

end

namespace Group

/-- Whether a directive is the one that a group is written for. -/
structure Denotes (config : Config) (g : Group) (d : Directive) : Prop where
  sound : Mark.AreSound (isModifiable g.lead) g.marks
  char : d.char = g.lead
  count : d.count = Mark.lastCount g.marks
  entry : ∃ entry, Entry.IsOf config g.lead entry ∧
    d.modifiers = entry.modifiers.union (.ofMarks g.marks) ∧
    d.codec = entry.codec.resize fun width =>
      if .underscore ∈ g.marks ∨ .bang ∈ g.marks then familyWidth config g.lead width else width
  order : d.order = .little ↔
    d.modifiers.little = true ∨ d.modifiers.big = false ∧ config.byteOrder = .little

/-- Whether a group has a fault: the native integer has no directive of its size, or a mark is the
leftmost at fault. -/
inductive Fails (config : Config) (g : Group) : Fault → Prop
  | unsupported (lead : g.lead = .scalar 'I' ∨ g.lead = .scalar 'i')
      (size : config.intSize ∉ [2, 4, 8]) :
      Fails config g ⟨unsupportedSize config.intSize, g.marks.length⟩
  | mark {entry before m after e} (found : Entry.IsOf config g.lead entry)
      (split : g.marks = before ++ m :: after)
      (leftmost : Mark.AreSound (isModifiable g.lead) before)
      (own : Mark.fault? (isModifiable g.lead) before m = some e) :
      Fails config g ⟨e, after.length⟩

variable {config : Config} {g : Group}

theorem directive_eq_error_iff {fault : Fault} :
    g.directive config = .error fault ↔ g.Fails config fault := by
  unfold directive
  constructor
  · intro h
    cases found : Group.entry config g.lead with
    | error e =>
        rw [found] at h
        cases h
        obtain ⟨lead, size, error⟩ := entry_eq_error_iff.mp found
        rw [error]
        exact .unsupported lead size
    | ok entry =>
        cases read : Suffix.read (isModifiable g.lead) {} g.marks with
        | ok s => simp [found, read] at h
        | error fault' =>
            simp only [found, read, Except.error.injEq] at h
            subst h
            obtain ⟨before, m, after, split, leftmost, own, unread⟩ :=
              Suffix.read_eq_error_iff.mp read
            have fails : g.Fails config ⟨fault'.error, after.length⟩ :=
              .mark (entry_eq_ok_iff.mp found) split leftmost own
            rwa [← unread] at fails
  · rintro (⟨lead, size⟩ | @⟨entry, before, m, after, e, found, split, leftmost, own⟩)
    · rw [entry_eq_error_iff.mpr ⟨lead, size, rfl⟩]
    · have read : Suffix.read (isModifiable g.lead) {} g.marks = .error ⟨e, after.length⟩ :=
        Suffix.read_eq_error_iff.mpr ⟨before, m, after, split, leftmost, own, rfl⟩
      simp only [entry_eq_ok_iff.mpr found, read]

theorem denotes_of_directive {d : Directive} (h : g.directive config = .ok d) :
    g.Denotes config d := by
  obtain ⟨entry, s, found, read, rfl⟩ := directive_eq_ok h
  obtain ⟨sums, sound⟩ := Suffix.sums_of_read read
  have own := entry_eq_ok_iff.mp found
  refine ⟨sound, rfl, sums.count, ⟨entry, own, by rw [sums.modifiers], ?_⟩, ?_⟩
  · simp only [Modifiers.union, own.native_eq_false, Bool.false_or, sums.modifiers,
      Modifiers.ofMarks, Bool.or_eq_true, List.contains_iff_mem, Codec.toNative_eq]
    split
    · rfl
    · exact (Codec.resize_self (fun _ => rfl) _).symm
  · unfold Modifiers.order
    cases (entry.modifiers.union s.modifiers).little <;>
      cases (entry.modifiers.union s.modifiers).big <;> simp

theorem Denotes.unique {d d' : Directive} (h : g.Denotes config d) (h' : g.Denotes config d') :
    d = d' := by
  obtain ⟨entry, found, modifiers, codec⟩ := h.entry
  obtain ⟨entry', found', modifiers', codec'⟩ := h'.entry
  obtain rfl : entry = entry' :=
    Except.ok.inj ((entry_eq_ok_iff.mpr found).symm.trans (entry_eq_ok_iff.mpr found'))
  have little : d.order = .little ↔ d'.order = .little := by
    rw [h.order, h'.order, modifiers, modifiers']
  have order : d.order = d'.order := by
    cases own : d.order <;> cases own' : d'.order <;> simp_all
  have char : d.char = d'.char := by rw [h.char, h'.char]
  have count : d.count = d'.count := by rw [h.count, h'.count]
  cases d
  cases d'
  simp_all

theorem directive_eq_ok_iff {d : Directive} :
    g.directive config = .ok d ↔ g.Denotes config d := by
  refine ⟨denotes_of_directive, fun h => ?_⟩
  cases read : g.directive config with
  | ok d' => rw [(denotes_of_directive read).unique h]
  | error fault =>
      obtain ⟨entry, found, -⟩ := h.entry
      rcases directive_eq_error_iff.mp read with ⟨lead, size⟩ | ⟨-, split, -, own⟩
      · have missing := entry_eq_error_iff.mpr ⟨lead, size, rfl⟩
        rw [entry_eq_ok_iff.mpr found] at missing
        cases missing
      · rw [h.sound _ _ _ split] at own
        cases own

end Group

/-! ## Whole templates -/

namespace Template

/-- The steps along a text that begins at `offset`.  Each reads one character and the longest run
of marks after it, up to the first fault or to the end of the text. -/
inductive Scans (config : Config) : Nat → Text → List Step → Prop
  | exhausted {offset} : Scans config offset [] [⟨.error .templateExhausted, offset, false⟩]
  | directive {offset g rest d steps}
      (longest : ∀ c ∈ rest.head?, Mark.ofCodePoint? c = none)
      (denotes : Group.Denotes config g d)
      (more : Scans config (offset + g.text.length) rest steps) :
      Scans config offset (g.text ++ rest)
        (⟨.ok d, offset + g.text.length, !rest.isEmpty⟩ :: steps)
  | fault {offset g rest fault}
      (longest : ∀ c ∈ rest.head?, Mark.ofCodePoint? c = none)
      (fails : Group.Fails config g fault) :
      Scans config offset (g.text ++ rest)
        [⟨.error fault.error, offset + g.text.length - fault.unread,
          fault.unread != 0 || !rest.isEmpty⟩]

variable {config : Config}

private theorem scans_stepsFrom {gs : List Group} :
    ∀ {offset : Nat} {t : Text}, t.groups = gs →
      Scans config offset t (stepsFrom config offset gs) := by
  induction gs with
  | nil =>
      intro offset t groups
      obtain rfl := Text.eq_nil_of_groups groups
      exact .exhausted
  | cons g gs ih =>
      intro offset t groups
      obtain ⟨rest, rfl, rfl, longest⟩ := Text.eq_append_of_groups groups
      simp only [stepsFrom, Text.isEmpty_groups, ← Group.length_text]
      cases own : g.directive config with
      | ok d => exact .directive longest (Group.directive_eq_ok_iff.mp own) (ih rfl)
      | error fault => exact .fault longest (Group.directive_eq_error_iff.mp own)

private theorem eq_stepsFrom_of_scans {offset : Nat} {t : Text} {read : List Step}
    (h : Scans config offset t read) : read = stepsFrom config offset t.groups := by
  induction h with
  | exhausted => rfl
  | directive longest denotes _ ih =>
      simp only [Text.groups_text_append _ longest, stepsFrom,
        Group.directive_eq_ok_iff.mpr denotes, ih, Text.isEmpty_groups, Group.length_text]
  | fault longest fails =>
      simp only [Text.groups_text_append _ longest, stepsFrom,
        Group.directive_eq_error_iff.mpr fails, Text.isEmpty_groups, Group.length_text]

/-- Reading one directive after another follows the grammar, whatever the text is. -/
theorem steps_eq_iff_scans {t : Text} {read : List Step} :
    steps config t = read ↔ Scans config 0 t read := by
  constructor
  · rintro rfl
    exact scans_stepsFrom rfl
  · exact fun h => (eq_stepsFrom_of_scans h).symm

end Template

end ByteTemplate
