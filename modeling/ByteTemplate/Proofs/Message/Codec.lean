import ByteTemplate.Message.Codec
import ByteTemplate.Proofs.Message.Schema
import ByteTemplate.Proofs.Size

/-!
# Packing and unpacking messages

A packed message is the pieces of its fields in order, and unpacked data is read field by field.
-/

namespace ByteTemplate.Message

def CodecError.isOfField : CodecError → Bool
  | .truncated _ | .notUtf8 _ => true
  | _ => false

namespace Class

variable {c : Class} {config : Config} {m : Record} {s : Schema} {validator : Validator}

theorem readSchema_eq_ok_iff : c.readSchema = .ok s ↔ c.schema = .ok s := by
  unfold readSchema
  cases c.schema <;> simp [Except.mapError]

def fieldValues (m : Record) (s : Schema) : List Value :=
  s.map fun f => (m.lookup f.name).getD .none

theorem packedValues_eq_ok_iff {values : List Value} :
    packedValues m s = .ok values ↔
      values = fieldValues m s ∧ ∀ v ∈ values, v.isNone = false := by
  induction s generalizing values with
  | nil =>
      simp only [packedValues, fieldValues, List.map_nil, Except.ok.injEq]
      constructor
      · rintro rfl
        exact ⟨rfl, fun v mem => by cases mem⟩
      · rintro ⟨rfl, -⟩
        rfl
  | cons f s ih =>
      simp only [packedValues, fieldValues, List.map_cons]
      cases missing : ((m.lookup f.name).getD .none).isNone with
      | true =>
          simp only [if_true, reduceCtorEq, false_iff, not_and]
          rintro rfl present
          have first := present _ (List.mem_cons_self)
          rw [missing] at first
          cases first
      | false =>
          simp only [Bool.false_eq_true, if_false]
          cases more : packedValues m s with
          | error e =>
              simp only [bind, Except.bind, reduceCtorEq, false_iff, not_and]
              rintro rfl present
              have rest := ih.mpr ⟨rfl, fun v mem => present v (List.mem_cons_of_mem _ mem)⟩
              rw [more] at rest
              cases rest
          | ok rest =>
              obtain ⟨rfl, present⟩ := ih.mp more
              simp only [bind, Except.bind, Except.ok.injEq]
              constructor
              · rintro rfl
                refine ⟨rfl, fun v mem => ?_⟩
                rcases List.mem_cons.mp mem with rfl | mem
                · exact missing
                · exact present v mem
              · rintro ⟨rfl, -⟩
                rfl

theorem packText_of_encode {bs : Bytes} (schema : c.schema = .ok s)
    (packed : c.encode config m = .ok bs) :
    (∀ v ∈ fieldValues m s, v.isNone = false) ∧
      packText config (fieldValues m s) s.template = .ok bs := by
  have read := readSchema_eq_ok_iff.mpr schema
  simp only [encode, read, bind, Except.bind] at packed
  cases present : packedValues m s with
  | error e => simp [present] at packed
  | ok values =>
      obtain ⟨rfl, some_value⟩ := packedValues_eq_ok_iff.mp present
      simp only [present] at packed
      cases data : packText config (fieldValues m s) s.template with
      | error e => simp [data] at packed
      | ok all =>
          simp only [data] at packed
          refine ⟨some_value, ?_⟩
          split at packed
          · split at packed
            · cases packed
            · rw [Except.ok.inj packed]
          · rw [Except.ok.inj packed]

theorem packPieces_of_encode {bs : Bytes} {ds : List Directive} (schema : c.schema = .ok s)
    (parsed : Template.parse config s.template = .ok ds) (packed : c.encode config m = .ok bs) :
    ∃ rest, packPieces (fieldValues m s) ds = .ok (bs, rest) :=
  Template.packPieces_of_packText parsed (packText_of_encode schema packed).2

/-! ## Unpacking -/

section

variable {f : FieldSchema}

theorem isTruncated_of_whole {start size : Nat} {w : Value} (present : w.isNone = false)
    (sized : ∀ k, f.directive.byteSize = some k → size = k) :
    isTruncated f start ⟨[w], (start + size : Nat)⟩ = false := by
  simp only [isTruncated, List.headD_cons, present, Bool.false_or]
  cases known : f.directive.byteSize with
  | none => rfl
  | some k =>
      rw [sized k known]
      exact decide_eq_false (by omega)

theorem unpackedFields_of_truncated {start : Int} {batch : Batch} {batches : List Batch}
    (short : isTruncated f start batch = true) :
    unpackedFields start (f :: s) (batch :: batches) = .error (.truncated f.name) := by
  simp only [unpackedFields, short, if_true]

theorem unpackedFields_of_whole {start : Int} {batch : Batch} {batches : List Batch}
    (whole : isTruncated f start batch = false) :
    unpackedFields start (f :: s) (batch :: batches) =
      (unpackedValue f (batch.values.headD .none)).bind fun v =>
        (unpackedFields batch.stop s batches).map ((f.name, v) :: ·) := by
  simp only [unpackedFields, whole, Bool.false_eq_true, if_false]
  rfl

theorem unpackedFields_cons_eq_ok {start : Int} {batch : Batch} {batches : List Batch}
    {given : Record} (read : unpackedFields start (f :: s) (batch :: batches) = .ok given) :
    ∃ v rest, unpackedValue f (batch.values.headD .none) = .ok v ∧
      unpackedFields batch.stop s batches = .ok rest ∧ given = (f.name, v) :: rest := by
  cases test : isTruncated f start batch with
  | true =>
      rw [unpackedFields_of_truncated test] at read
      cases read
  | false =>
      rw [unpackedFields_of_whole test] at read
      cases value : unpackedValue f (batch.values.headD .none) with
      | error e =>
          rw [value] at read
          cases read
      | ok v =>
          rw [value] at read
          cases more : unpackedFields batch.stop s batches with
          | error e =>
              rw [more] at read
              cases read
          | ok rest =>
              rw [more] at read
              exact ⟨v, rest, rfl, rfl, (Except.ok.inj read).symm⟩

end

theorem decode_eq {data : Bytes} (schema : c.schema = .ok s) :
    c.decode config data validator =
      match unpackBatches config data s.template with
      | .error e => .error (if e.isLibrary then .notUnpacked c.name e else .passedOn e)
      | .ok batches =>
          match unpackedFields 0 s batches with
          | .error e => .error e
          | .ok given => (validator.construct c given).mapError fun _ => .rejected c.name := by
  have read := readSchema_eq_ok_iff.mpr schema
  simp only [decode, read, bind, Except.bind]
  cases unpackBatches config data s.template with
  | error e => rfl
  | ok batches =>
      simp only
      cases unpackedFields 0 s batches with
      | error e => rfl
      | ok given =>
          simp only
          cases validator.construct c given <;> rfl

theorem decode_eq_error_iff {data : Bytes} {e : CodecError} (schema : c.schema = .ok s)
    (field : e.isOfField = true) :
    c.decode config data validator = .error e ↔
      ∃ batches, unpackBatches config data s.template = .ok batches ∧
        unpackedFields 0 s batches = .error e := by
  rw [decode_eq schema]
  cases unpackBatches config data s.template with
  | error cause =>
      simp only [reduceCtorEq, false_and, exists_false, iff_false, Except.error.injEq]
      rintro rfl
      split at field <;> cases field
  | ok batches =>
      simp only [Except.ok.injEq, exists_eq_left']
      cases unpackedFields 0 s batches with
      | error e => rfl
      | ok given =>
          simp only [reduceCtorEq, iff_false]
          cases validator.construct c given with
          | ok m => nofun
          | error rejected =>
              intro same
              cases same
              cases field

end Class

end ByteTemplate.Message
