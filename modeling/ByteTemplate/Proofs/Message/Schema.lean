import ByteTemplate.Message.Schema
import ByteTemplate.Proofs.Groups
import Mathlib.Data.List.Forall2

/-!
# Schemas and their templates

The directive of an accepted field is one group, which begins with a directive character, so that
the template of a class is read field by field under every configuration.
-/

namespace ByteTemplate

namespace Message

/-- The directive of an accepted field is one group, and takes exactly one value. -/
structure FieldSchema.IsAccepted (f : FieldSchema) : Prop where
  group : ∃ g : Group, f.directiveText = g.text ∧ g.directive .default = .ok f.directive
  hasValues : f.directive.hasValues = true
  single : ∀ e, f.directive.codec = .element e → f.directive.count = some 1

private theorem FieldSchema.of_singleDirective {name : String} {t : Text} {d : Directive}
    (h : singleDirective name t = .ok d) :
    Template.directives .default t = .ok [d] ∧ d.hasValues = true ∧
      ∀ e, d.codec = .element e → d.count = some 1 := by
  unfold singleDirective at h
  split at h
  · cases h
  · next d' read =>
      split at h
      · cases h
      · cases h
      · next b codec =>
          cases h
          exact ⟨read, by simp [Directive.hasValues, codec], by simp [codec]⟩
      · next e codec =>
          split at h
          · next one =>
              cases h
              exact ⟨read, by simp [Directive.hasValues, codec], fun _ _ => one⟩
          · cases h
  · cases h

theorem FieldSchema.of_ofField {f : Field} {fs : FieldSchema} (h : ofField f = .ok fs) :
    fs.IsAccepted ∧ fs.name = f.name ∧ fs.type = f.type ∧
      f.directive = some fs.directiveText := by
  unfold ofField at h
  split at h
  · cases h
  · split at h
    · cases h
    · next t text =>
        cases single : singleDirective f.name t with
        | error e => simp [single, Except.map] at h
        | ok d =>
            simp only [single, Except.map, Except.ok.injEq] at h
            subst h
            obtain ⟨read, has, one⟩ := FieldSchema.of_singleDirective single
            exact ⟨⟨Template.group_of_directives read, has, one⟩, rfl, rfl, text⟩

theorem forall₂_of_collected {α β ε : Type} {f : α → Except ε β}
    {F : List α → Except ε (List β)} (nil : F [] = .ok [])
    (cons : ∀ a as, F (a :: as) = (f a).bind fun b => (F as).map (b :: ·)) {as : List α} :
    ∀ {bs : List β}, F as = .ok bs → List.Forall₂ (fun a b => f a = .ok b) as bs := by
  induction as with
  | nil =>
      intro bs h
      rw [nil] at h
      cases h
      exact .nil
  | cons a as ih =>
      intro bs h
      rw [cons] at h
      cases first : f a with
      | error e =>
          rw [first] at h
          cases h
      | ok b =>
          rw [first] at h
          cases rest : F as with
          | error e =>
              rw [rest] at h
              cases h
          | ok more =>
              rw [rest] at h
              obtain rfl := Except.ok.inj h
              exact .cons first (ih rest)

theorem exists_of_mem_of_forall₂ {α β : Type} {R : α → β → Prop} {as : List α} {bs : List β}
    (h : List.Forall₂ R as bs) : ∀ b ∈ bs, ∃ a ∈ as, R a b := by
  induction h with
  | nil => exact fun b mem => by cases mem
  | cons first _ ih =>
      intro b mem
      rcases List.mem_cons.mp mem with rfl | mem
      · exact ⟨_, by simp, first⟩
      · obtain ⟨a, own, related⟩ := ih b mem
        exact ⟨a, List.mem_cons_of_mem _ own, related⟩

theorem Schema.forall₂_of_ofFields {fields : List Field} {s : Schema}
    (h : ofFields fields = .ok s) :
    List.Forall₂ (fun f fs => FieldSchema.ofField f = .ok fs) fields s := by
  refine forall₂_of_collected (F := ofFields) rfl (fun f fields => ?_) h
  cases first : FieldSchema.ofField f <;> cases rest : ofFields fields <;>
    simp [ofFields, first, rest, bind, Except.bind, Except.map]

theorem Schema.isAccepted_of_ofFields {fields : List Field} {s : Schema}
    (h : ofFields fields = .ok s) : ∀ f ∈ s, f.IsAccepted := by
  intro f mem
  obtain ⟨field, -, own⟩ := exists_of_mem_of_forall₂ (Schema.forall₂_of_ofFields h) f mem
  exact (FieldSchema.of_ofField own).1

/-! ## The template of a schema -/

namespace FieldSchema.IsAccepted

variable {f : FieldSchema} {config : Config}

theorem lead (h : f.IsAccepted) :
    ∃ c rest, f.directiveText = c :: rest ∧ Mark.ofCodePoint? c = none := by
  obtain ⟨g, text, read⟩ := h.group
  exact ⟨g.lead, _, text, Group.lead_of_hasValues read h.hasValues⟩

/-- Under every configuration a field has one directive, if any. -/
theorem of_parse (h : f.IsAccepted) {ds : List Directive}
    (parsed : Template.parse config f.directiveText = .ok ds) :
    ∃ d, ds = [d] ∧ d.count = f.directive.count ∧
      d.codec = f.directive.codec.resize (f.directive.widthUnder config) ∧
      d.hasValues = true := by
  obtain ⟨g, text, read⟩ := h.group
  rw [text] at parsed
  obtain ⟨d, given, rfl⟩ := Template.directive_of_parse_group parsed
  obtain ⟨-, count, -, codec⟩ := Group.directive_under read given
  have has : d.hasValues = true := by
    rw [← h.hasValues]
    unfold Directive.hasValues
    rw [codec]
    cases f.directive.codec with
    | element e => cases e <;> rfl
    | _ => rfl
  exact ⟨d, by simp [Directive.isIgnored_of_hasValues has], count, codec, has⟩

variable {d : Directive}

theorem of_parse_single (h : f.IsAccepted)
    (parsed : Template.parse config f.directiveText = .ok [d]) :
    d.count = f.directive.count ∧
      d.codec = f.directive.codec.resize (f.directive.widthUnder config) ∧
      d.hasValues = true ∧ ∀ e, d.codec = .element e → d.count = some 1 := by
  obtain ⟨_, same, count, codec, has⟩ := h.of_parse parsed
  obtain rfl := (List.cons.inj same).1
  refine ⟨count, codec, has, fun e element => ?_⟩
  rw [count]
  cases own : f.directive.codec with
  | element e' => exact h.single e' own
  | _ =>
      rw [codec, own] at element
      cases element

theorem demand_eq_one (h : f.IsAccepted)
    (parsed : Template.parse config f.directiveText = .ok [d]) (available : Nat) :
    d.demand available = 1 := by
  obtain ⟨-, -, has, single⟩ := h.of_parse_single parsed
  exact Directive.demand_eq_one has single available

theorem parse_default (h : f.IsAccepted) :
    Template.parse .default f.directiveText = .ok [f.directive] := by
  obtain ⟨g, text, read⟩ := h.group
  rw [text]
  exact Template.parse_group read (Directive.isIgnored_of_hasValues h.hasValues)

end FieldSchema.IsAccepted

namespace Schema

theorem template_cons (f : FieldSchema) {s : Schema} (more : s ≠ []) :
    template (f :: s) = f.directiveText ++ .scalar ' ' :: template s := by
  cases s with
  | nil => exact absurd rfl more
  | cons next s =>
      simp only [template, List.map_cons, List.intercalate_cons_cons, List.append_assoc]
      rfl

private theorem head_template {s : Schema} (accepted : ∀ f ∈ s, f.IsAccepted) :
    ∀ c ∈ (template s).head?, Mark.ofCodePoint? c = none := by
  cases s with
  | nil => exact fun c mem => by cases mem
  | cons f s =>
      obtain ⟨c, rest, text, no_mark⟩ := (accepted f (by simp)).lead
      intro c' mem
      cases s with
      | nil =>
          have whole : template [f] = c :: rest := by simp [template, text]
          rw [whole] at mem
          cases mem
          exact no_mark
      | cons next s =>
          rw [template_cons f (by simp), text] at mem
          cases mem
          exact no_mark

theorem parse_space_template_iff {config : Config} {s : Schema}
    (accepted : ∀ f ∈ s, f.IsAccepted) {ds : List Directive} :
    Template.parse config (.scalar ' ' :: template s) = .ok ds ↔
      Template.parse config (template s) = .ok ds := by
  have blank : Template.parse config [.scalar ' '] = .ok [] := rfl
  have split := @Template.parse_append config (template s) ds [.scalar ' ']
    (head_template accepted)
  rw [List.singleton_append] at split
  rw [split]
  constructor
  · rintro ⟨none_left, rest, nothing, parsed, rfl⟩
    rw [blank] at nothing
    cases nothing
    exact parsed
  · intro parsed
    exact ⟨[], ds, blank, parsed, rfl⟩

theorem parse_template_iff {config : Config} {s : Schema} (accepted : ∀ f ∈ s, f.IsAccepted)
    {ds : List Directive} :
    Template.parse config s.template = .ok ds ↔
      List.Forall₂ (fun f d => Template.parse config f.directiveText = .ok [d]) s ds := by
  induction s generalizing ds with
  | nil =>
      have empty : Template.parse config (template []) = .ok [] := rfl
      rw [empty, List.forall₂_nil_left_iff]
      exact ⟨fun h => (Except.ok.inj h).symm, fun h => by rw [h]⟩
  | cons f s ih =>
      have first := accepted f (by simp)
      have others : ∀ f ∈ s, f.IsAccepted := fun f mem => accepted f (by simp [mem])
      rw [List.forall₂_cons_left_iff]
      by_cases last : s = []
      · subst last
        have whole : template [f] = f.directiveText := by simp [template]
        rw [whole]
        constructor
        · intro parsed
          obtain ⟨d, rfl, -⟩ := first.of_parse parsed
          exact ⟨d, [], parsed, .nil, rfl⟩
        · rintro ⟨d, none_left, parsed, nothing, rfl⟩
          cases nothing
          exact parsed
      · have no_mark : ∀ c ∈ (CodePoint.scalar ' ' :: template s).head?,
            Mark.ofCodePoint? c = none := by
          intro c mem
          cases mem
          rfl
        rw [template_cons f last, Template.parse_append no_mark]
        constructor
        · rintro ⟨one, rest, parsed, more, rfl⟩
          obtain ⟨d, rfl, -⟩ := first.of_parse parsed
          exact ⟨d, rest, parsed, (ih others).mp ((parse_space_template_iff others).mp more), rfl⟩
        · rintro ⟨d, rest, parsed, more, rfl⟩
          have spaced := (parse_space_template_iff others).mpr ((ih others).mpr more)
          exact ⟨[d], rest, parsed, spaced, rfl⟩

theorem parse_default {s : Schema} (accepted : ∀ f ∈ s, f.IsAccepted) :
    Template.parse .default s.template = .ok (s.map FieldSchema.directive) := by
  refine (parse_template_iff accepted).mpr ?_
  rw [List.forall₂_map_right_iff, List.forall₂_same]
  exact fun f mem => (accepted f mem).parse_default

theorem totalDemand_eq {config : Config} {s : Schema} (accepted : ∀ f ∈ s, f.IsAccepted)
    {ds : List Directive}
    (fields : List.Forall₂ (fun f d => Template.parse config f.directiveText = .ok [d]) s ds) :
    totalDemand ds = s.length := by
  induction fields with
  | nil => rfl
  | cons parsed _ ih =>
      have one := (accepted _ (by simp)).demand_eq_one parsed 0
      rw [totalDemand, one, ih fun f mem => accepted f (by simp [mem]),
        List.length_cons, Nat.add_comm]

end Schema

end Message

end ByteTemplate
