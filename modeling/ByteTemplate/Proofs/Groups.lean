import ByteTemplate.Proofs.Template

/-!
# Groups and their directives

A group is a template of its own, which stands for the one directive of the group.  What the
configuration decides about this directive is the width of native integers and the byte order.
-/

namespace ByteTemplate

private theorem splitGroups_marks (marks : List Mark) :
    splitGroups (marks.map Mark.codePoint) = (marks, []) := by
  induction marks with
  | nil => rfl
  | cons mark marks ih => simp [splitGroups, ih]

theorem Group.groups_text (g : Group) : g.text.groups = [g] := by
  simp [Group.text, Text.groups, splitGroups_marks]

theorem Text.groups_text_append (g : Group) {rest : Text}
    (longest : ∀ c ∈ rest.head?, Mark.ofCodePoint? c = none) :
    (g.text ++ rest).groups = g :: rest.groups := by
  rw [Text.groups_append _ longest, Group.groups_text]
  rfl

theorem Text.isEmpty_groups (t : Text) : t.groups.isEmpty = t.isEmpty := by
  cases t <;> rfl

theorem Text.eq_nil_of_groups {t : Text} (h : t.groups = []) : t = [] := by
  cases t with
  | nil => rfl
  | cons c rest => cases h

private theorem lead_of_mem_splitGroups {t : Text} {g : Group} (h : g ∈ (splitGroups t).2) :
    Mark.ofCodePoint? g.lead = none := by
  induction t with
  | nil => cases h
  | cons c rest ih =>
      cases lead : Mark.ofCodePoint? c with
      | some mark =>
          simp only [splitGroups, lead] at h
          exact ih h
      | none =>
          simp only [splitGroups, lead, List.mem_cons] at h
          rcases h with rfl | mem
          · exact lead
          · exact ih mem

theorem head_flatMap_text {gs : List Group} (leads : ∀ g ∈ gs, Mark.ofCodePoint? g.lead = none) :
    ∀ c ∈ (gs.flatMap Group.text).head?, Mark.ofCodePoint? c = none := by
  intro c mem
  cases gs with
  | nil => cases mem
  | cons g gs =>
      cases mem
      exact leads g (by simp)

theorem Text.groups_flatMap_text {gs : List Group}
    (leads : ∀ g ∈ gs, Mark.ofCodePoint? g.lead = none) :
    Text.groups (gs.flatMap Group.text) = gs := by
  induction gs with
  | nil => rfl
  | cons g gs ih =>
      have others : ∀ g ∈ gs, Mark.ofCodePoint? g.lead = none :=
        fun g mem => leads g (List.mem_cons_of_mem _ mem)
      rw [List.flatMap_cons, Text.groups_text_append _ (head_flatMap_text others), ih others]

theorem Text.eq_append_of_groups {t : Text} {g : Group} {gs : List Group}
    (h : t.groups = g :: gs) :
    ∃ rest : Text, t = g.text ++ rest ∧ rest.groups = gs ∧
      ∀ c ∈ rest.head?, Mark.ofCodePoint? c = none := by
  cases t with
  | nil => cases h
  | cons c rest =>
      have whole := Text.flatMap_text_groups (c :: rest)
      have leads : ∀ g ∈ gs, Mark.ofCodePoint? g.lead = none := by
        intro g mem
        obtain ⟨-, others⟩ := List.cons.inj h
        rw [← others] at mem
        exact lead_of_mem_splitGroups mem
      rw [h, List.flatMap_cons] at whole
      exact ⟨_, whole.symm, Text.groups_flatMap_text leads, head_flatMap_text leads⟩

/-! ## The directive of a group -/

theorem Group.entry_upper_int (config : Config) :
    entry config (.scalar 'I') = nativeEntry config false := rfl

theorem Group.entry_lower_int (config : Config) :
    entry config (.scalar 'i') = nativeEntry config true := rfl

theorem Group.entry_of_ne (config : Config) {c : Char} (upper : c ≠ 'I') (lower : c ≠ 'i') :
    entry config (.scalar c) = .ok (Entry.ofChar c) := by
  unfold Group.entry
  split <;> simp_all

theorem Group.entry_of_mark {config : Config} {c : CodePoint} {mark : Mark}
    (h : Mark.ofCodePoint? c = some mark) : entry config c = .ok { codec := .ignored } := by
  rw [← Mark.codePoint_of_ofCodePoint? h]
  cases mark with
  | digit d =>
      have all : ∀ d : Fin 10, (Mark.digit d).char ≠ 'I' ∧ (Mark.digit d).char ≠ 'i' ∧
          Entry.ofChar (Mark.digit d).char = { codec := .ignored } := by decide
      obtain ⟨upper, lower, ignored⟩ := all d
      rw [Mark.codePoint, Group.entry_of_ne config upper lower, ignored]
  | _ => rfl

theorem Group.directive_eq_ok {config : Config} {g : Group} {d : Directive}
    (h : g.directive config = .ok d) :
    ∃ entry suffix, Group.entry config g.lead = .ok entry ∧
      Suffix.read (isModifiable g.lead) {} g.marks = .ok suffix ∧
      d = {
        char := g.lead
        codec := if (entry.modifiers.union suffix.modifiers).native then
          entry.codec.toNative config g.lead else entry.codec
        count := suffix.count
        modifiers := entry.modifiers.union suffix.modifiers
        order := (entry.modifiers.union suffix.modifiers).order config.byteOrder } := by
  simp only [Group.directive] at h
  cases found : Group.entry config g.lead with
  | error e => simp [found] at h
  | ok entry =>
      cases read : Suffix.read (isModifiable g.lead) {} g.marks with
      | error fault => simp [found, read] at h
      | ok suffix =>
          simp only [found, read, Except.ok.injEq] at h
          exact ⟨entry, suffix, rfl, rfl, h.symm⟩

theorem Group.lead_of_hasValues {config : Config} {g : Group} {d : Directive}
    (h : g.directive config = .ok d) (has : d.hasValues = true) :
    Mark.ofCodePoint? g.lead = none := by
  cases lead : Mark.ofCodePoint? g.lead with
  | none => rfl
  | some mark =>
      obtain ⟨entry, suffix, found, -, rfl⟩ := Group.directive_eq_ok h
      rw [Group.entry_of_mark lead] at found
      cases found
      simp [Directive.hasValues, Codec.toNative] at has

theorem Template.parse_group {config : Config} {g : Group} {d : Directive}
    (h : g.directive config = .ok d) (acts : d.isIgnored = false) :
    parse config g.text = .ok [d] := by
  have reading : read config g.text = ⟨[d], none⟩ := by
    rw [read, Group.groups_text]
    simp [Reading.ofGroups, h]
  rw [parse_eq_ok_iff, reading]
  simp [acts]

theorem Template.directive_of_parse_group {config : Config} {g : Group} {ds : List Directive}
    (h : parse config g.text = .ok ds) :
    ∃ d, g.directive config = .ok d ∧ ds = [d].filter fun d => !d.isIgnored := by
  obtain ⟨whole, rfl⟩ := parse_eq_ok_iff.mp h
  rw [read, Group.groups_text] at whole ⊢
  simp only [Reading.ofGroups] at whole ⊢
  cases one : g.directive config with
  | error fault => simp [one] at whole
  | ok d => exact ⟨d, rfl, rfl⟩

theorem Template.group_of_directives {config : Config} {t : Text} {d : Directive}
    (h : directives config t = .ok [d]) :
    ∃ g : Group, t = g.text ∧ g.directive config = .ok d := by
  have whole : Reading.ofGroups config t.groups = ⟨[d], none⟩ := by
    change (Reading.ofGroups config t.groups).toExcept = .ok [d] at h
    cases reading : Reading.ofGroups config t.groups with
    | mk ds fault =>
        rw [reading] at h
        cases fault with
        | none => simpa [Reading.toExcept] using h
        | some e => cases h
  have text := Text.flatMap_text_groups t
  cases groups : t.groups with
  | nil => simp [groups, Reading.ofGroups] at whole
  | cons g gs =>
      rw [groups] at whole text
      cases first : g.directive config with
      | error fault => simp [Reading.ofGroups, first] at whole
      | ok d' =>
          simp only [Reading.ofGroups, first, Reading.mk.injEq, List.cons.injEq] at whole
          obtain ⟨⟨rfl, none_left⟩, no_fault⟩ := whole
          refine ⟨g, ?_, first⟩
          cases gs with
          | nil => simpa using text.symm
          | cons next gs =>
              cases second : next.directive config with
              | error fault => simp [Reading.ofGroups, second] at no_fault
              | ok d' => simp [Reading.ofGroups, second] at none_left

/-! ## Directives under another configuration -/

def Codec.resize (width : Nat → Nat) : Codec → Codec
  | .element (.integer signed n) => .element (.integer signed (width n))
  | codec => codec

/-- The width under a configuration of integers that have width `n` under the default one. -/
def Directive.widthUnder (config : Config) (d : Directive) (n : Nat) : Nat :=
  match d.char with
  | .scalar 'i' | .scalar 'I' => config.intSize
  | .scalar 'l' | .scalar 'L' => if d.modifiers.native then config.longSize else n
  | _ => n

theorem Codec.resize_self {width : Nat → Nat} (h : ∀ n, width n = n) (codec : Codec) :
    codec.resize width = codec := by
  unfold Codec.resize
  split
  · rw [h]
  · rfl

private theorem Directive.widthUnder_of_ne {config : Config} {d : Directive} {c : Char}
    (char : d.char = .scalar c) (family : c ≠ 'i' ∧ c ≠ 'I' ∧ c ≠ 'l' ∧ c ≠ 'L') (n : Nat) :
    d.widthUnder config n = n := by
  obtain ⟨lower_int, upper_int, lower_long, upper_long⟩ := family
  unfold Directive.widthUnder
  rw [char]
  split <;> simp_all

theorem Group.eq_of_nativeEntry {config : Config} {signed : Bool} {entry : Entry}
    (h : nativeEntry config signed = .ok entry) :
    entry = { codec := .element (.integer signed config.intSize) } := by
  unfold nativeEntry Entry.ofNativeInt? at h
  split at h
  · next found =>
      cases h
      split at found
      all_goals cases found
      all_goals cases signed <;> simp [Entry.ofChar, *]
  · cases h

private theorem nativeWidth_eq_of_ne {config : Config} {c : Char} (width : Nat)
    (family : c ≠ 'i' ∧ c ≠ 'I' ∧ c ≠ 'l' ∧ c ≠ 'L') :
    nativeWidth config (.scalar c) width = nativeWidth .default (.scalar c) width := by
  obtain ⟨lower_int, upper_int, lower_long, upper_long⟩ := family
  by_cases lower_short : c = 's'
  · subst lower_short
    rfl
  by_cases upper_short : c = 'S'
  · subst upper_short
    rfl
  simp [nativeWidth, *]

theorem Codec.toNative_eq_of_ne {config : Config} {c : Char} (codec : Codec)
    (family : c ≠ 'i' ∧ c ≠ 'I' ∧ c ≠ 'l' ∧ c ≠ 'L') :
    codec.toNative config (.scalar c) = codec.toNative .default (.scalar c) := by
  unfold Codec.toNative
  split
  · rw [nativeWidth_eq_of_ne _ family]
  · rfl

theorem Group.directive_under {config : Config} {g : Group} {d d' : Directive}
    (default : g.directive .default = .ok d) (given : g.directive config = .ok d') :
    d'.char = d.char ∧ d'.count = d.count ∧ d'.modifiers = d.modifiers ∧
      d'.codec = d.codec.resize (d.widthUnder config) := by
  obtain ⟨entry, suffix, found, read, rfl⟩ := Group.directive_eq_ok default
  obtain ⟨entry', suffix', found', read', rfl⟩ := Group.directive_eq_ok given
  obtain rfl : suffix = suffix' := by
    rw [read] at read'
    exact Except.ok.inj read'
  cases lead : g.lead with
  | surrogate offset =>
      rw [lead] at found found'
      cases found
      cases found'
      simp [Codec.toNative, Codec.resize]
  | scalar c =>
      rw [lead] at found found'
      by_cases upper_int : c = 'I'
      · subst upper_int
        rw [Group.entry_upper_int] at found found'
        rw [Group.eq_of_nativeEntry found, Group.eq_of_nativeEntry found']
        simp [Codec.toNative, nativeWidth, Codec.resize, Directive.widthUnder]
      by_cases lower_int : c = 'i'
      · subst lower_int
        rw [Group.entry_lower_int] at found found'
        rw [Group.eq_of_nativeEntry found, Group.eq_of_nativeEntry found']
        simp [Codec.toNative, nativeWidth, Codec.resize, Directive.widthUnder]
      rw [Group.entry_of_ne _ upper_int lower_int] at found found'
      obtain rfl := Except.ok.inj found
      obtain rfl := Except.ok.inj found'
      refine ⟨rfl, rfl, rfl, ?_⟩
      by_cases upper_long : c = 'L'
      · subst upper_long
        cases native : suffix.modifiers.native <;>
          simp [Entry.ofChar, Codec.toNative, nativeWidth, Codec.resize, Directive.widthUnder,
            Modifiers.union, native]
      by_cases lower_long : c = 'l'
      · subst lower_long
        cases native : suffix.modifiers.native <;>
          simp [Entry.ofChar, Codec.toNative, nativeWidth, Codec.resize, Directive.widthUnder,
            Modifiers.union, native]
      have other : c ≠ 'i' ∧ c ≠ 'I' ∧ c ≠ 'l' ∧ c ≠ 'L' :=
        ⟨lower_int, upper_int, lower_long, upper_long⟩
      rw [Codec.resize_self fun n => Directive.widthUnder_of_ne rfl other n]
      simp only [Codec.toNative_eq_of_ne _ other]

end ByteTemplate
