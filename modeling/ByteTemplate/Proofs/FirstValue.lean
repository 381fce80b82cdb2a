import ByteTemplate.Proofs.Template

/-!
# The first value

Unpacking the first value is unpacking that stops early: it answers with the first batch of the
whole run, whatever comes after this batch, and fails where the run fails before it has any.
-/

namespace ByteTemplate

variable {config : Config}

private theorem firstBatch_eq (ds : List Directive) : ∀ c : Cursor, firstBatch config c ds =
    match (walk (Directive.unpack config) c ds).1.filterMap id with
    | batch :: _ => .ok (some batch)
    | [] => (walk (Directive.unpack config) c ds).2.map fun _ => none := by
  induction ds with
  | nil => exact fun _ => rfl
  | cons d ds ih =>
      intro c
      simp only [firstBatch, walk]
      cases d.unpack config c with
      | error e => rfl
      | ok result =>
          rcases result with ⟨_ | batch, c⟩
          · exact ih c
          · rfl

/-- The first value is that of the first batch before the run fails, and the failure if there is
no batch before it. -/
theorem unpackFirst_eq (config : Config) (data : Bytes) (t : Text) :
    unpackFirst config data t =
      match (Unpacking.run config data t).batches with
      | batch :: _ => .ok (batch.values.headD .none)
      | [] => (Unpacking.run config data t).last.map fun _ => .none := by
  simp only [unpackFirst, Unpacking.run, firstBatch_eq]
  rcases walk (Directive.unpack config) ⟨data, 0⟩ (Template.read config t).directives with
    ⟨outs, last⟩
  cases outs.filterMap id with
  | cons batch batches => rfl
  | nil =>
      cases last with
      | error e => rfl
      | ok c => cases (Template.read config t).fault <;> rfl

private theorem Directive.unpack_ne_none {d : Directive} (has : d.hasValues = true)
    (c c' : Cursor) :
    d.unpack config c ≠ .ok (none, c') := by
  intro unpacked
  cases codec : d.codec with
  | ignored => simp [hasValues, codec] at has
  | null => simp [hasValues, codec] at has
  | block b =>
      simp only [unpack, codec] at unpacked
      cases moved : c.advance (min (b.decode d.count (c.peek d.window)).2 c.remaining) <;>
        simp [moved, bind, Except.bind] at unpacked
  | element e =>
      simp only [unpack, codec] at unpacked
      cases read : e.read config d.order d.count c <;>
        simp [read, bind, Except.bind] at unpacked

private theorem firstBatch_append {first : List Directive} (has : ∃ d ∈ first, d.hasValues = true)
    (second : List Directive) : ∀ c : Cursor,
      firstBatch config c (first ++ second) = firstBatch config c first ∧
        firstBatch config c first ≠ .ok none := by
  induction first with
  | nil =>
      obtain ⟨d, mem, -⟩ := has
      cases mem
  | cons d first ih =>
      intro c
      simp only [List.cons_append, firstBatch]
      cases unpacked : d.unpack config c with
      | error e => exact ⟨rfl, nofun⟩
      | ok result =>
          rcases result with ⟨_ | batch, c'⟩
          · obtain ⟨d', mem, values⟩ := has
            rcases List.mem_cons.mp mem with rfl | later
            · exact absurd unpacked (Directive.unpack_ne_none values c c')
            · exact ih ⟨d', later, values⟩ c'
          · exact ⟨rfl, nofun⟩

private theorem unpackFirst_append {s t : Text} (head : ∀ c ∈ t.head?, Mark.ofCodePoint? c = none)
    {ds : List Directive} (parsed : Template.parse config s = .ok ds)
    (has : ∃ d ∈ ds, d.hasValues = true) (data : Bytes) :
    unpackFirst config data (s ++ t) = unpackFirst config data s := by
  obtain ⟨whole, rfl⟩ := Template.parse_eq_ok_iff.mp parsed
  obtain ⟨d, mem, values⟩ := has
  obtain ⟨same, found⟩ := @firstBatch_append config _
    ⟨d, (List.mem_filter.mp mem).1, values⟩ (Template.read config t).directives ⟨data, 0⟩
  simp only [unpackFirst, Template.read_append_of_whole head whole, whole, same]
  -- The fault of the second template shows only where no batch is found.
  cases first : firstBatch config ⟨data, 0⟩ (Template.read config s).directives with
  | error e => rfl
  | ok batch =>
      cases batch with
      | some batch => rfl
      | none => exact absurd first found

/-- The first value is the first of what is unpacked in full, an error on the way to it is the
error of the whole, and nothing after the first directive that has values matters. -/
theorem unpackFirst_agrees (config : Config) (data : Bytes) (t : Text) :
    (∀ batches, unpackBatches config data t = .ok batches →
      unpackFirst config data t =
        .ok (match batches with
          | [] => .none
          | batch :: _ => batch.values.headD .none)) ∧
    (∀ e, unpackFirst config data t = .error e → unpackBatches config data t = .error e) ∧
    ∀ first second ds, t = first ++ second → Template.parse config first = .ok ds →
      (∃ d ∈ ds, d.hasValues = true) →
        (∀ c ∈ second.head?, Mark.ofCodePoint? c = none) →
          unpackFirst config data t = unpackFirst config data first := by
  refine ⟨?_, ?_, ?_⟩
  · intro batches unpacked
    rw [unpackBatches, Unpacking.result] at unpacked
    rw [unpackFirst_eq]
    cases last : (Unpacking.run config data t).last with
    | error e => simp [last, Except.map] at unpacked
    | ok c =>
        simp only [last, Except.map, Except.ok.injEq] at unpacked
        rw [unpacked]
        cases batches <;> rfl
  · intro e failed
    rw [unpackFirst_eq] at failed
    rw [unpackBatches, Unpacking.result]
    cases batches : (Unpacking.run config data t).batches with
    | cons batch batches => simp [batches] at failed
    | nil =>
        cases last : (Unpacking.run config data t).last with
        | ok c => simp [batches, last, Except.map] at failed
        | error cause =>
            simp only [batches, last, Except.map, Except.error.injEq] at failed
            rw [failed]
            rfl
  · rintro first second ds rfl parsed has head
    exact unpackFirst_append head parsed has data

theorem unpackFirst_agrees_fault :
    unpackFirst .default [0x61, 0x62] (Text.ofChars ['A', '2', ' ', 'C', '<']) =
        .ok (.ofBytes [0x61, 0x62]) ∧
      unpackBatches .default [0x61, 0x62] (Text.ofChars ['A', '2', ' ', 'C', '<']) =
        .error (.modifierNotAllowed '<') := by
  obtain ⟨-, -, early⟩ := unpackFirst_agrees .default [0x61, 0x62]
    (Text.ofChars ['A', '2', ' ', 'C', '<'])
  have parsed : Template.parse .default (Text.ofChars ['A', '2']) =
      .ok [⟨.scalar 'A', .block (.string .spaces), some 2, {}, .little⟩] := rfl
  have same := early (Text.ofChars ['A', '2']) (Text.ofChars [' ', 'C', '<']) _ rfl parsed
    ⟨_, List.mem_singleton_self _, rfl⟩ (by intro c mem; cases mem; rfl)
  exact ⟨same.trans rfl, rfl⟩

end ByteTemplate
