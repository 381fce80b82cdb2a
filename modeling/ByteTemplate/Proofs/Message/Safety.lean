import ByteTemplate.Proofs.Message.Truncation
import ByteTemplate.Proofs.Safety

/-!
# Safety of decoding messages

Decoding fails with an error of the schema or of decoding, whatever validates the message, except
where unpacking fails with an error that is not the library's own; that one is passed on.
-/

namespace ByteTemplate.Message

def CodecError.isOfDecoding : CodecError → Bool
  | .notUnpacked _ _ | .truncated _ | .notUtf8 _ | .rejected _ => true
  | _ => false

theorem CodecError.isOfDecoding_of_isOfField {e : CodecError} (h : e.isOfField = true) :
    e.isOfDecoding = true := by
  cases e <;> first | rfl | cases h

namespace Class

variable {c : Class} {config : Config} {data : Bytes} {s : Schema} {e : CodecError}
  {validator : Validator}

theorem isOfField_of_unpackedFields :
    ∀ {start : Int} {batches : List Batch}, unpackedFields start s batches = .error e →
      e.isOfField = true := by
  induction s with
  | nil =>
      intro start batches h
      cases h
  | cons f s ih =>
      intro start batches h
      cases batches with
      | nil => cases h
      | cons batch batches =>
          cases test : isTruncated f start batch with
          | true =>
              rw [unpackedFields_of_truncated test] at h
              cases h
              rfl
          | false =>
              rw [unpackedFields_of_whole test] at h
              rcases unpackedValue_cases f batch with ⟨v, value, -⟩ | ⟨value, -⟩
              · rw [value] at h
                cases rest : unpackedFields batch.stop s batches with
                | ok given =>
                    rw [rest] at h
                    cases h
                | error fault =>
                    rw [rest] at h
                    cases h
                    exact ih rest
              · rw [value] at h
                cases h
                rfl

private theorem isOfDecoding_of_decode (schema : c.schema = .ok s)
    (h : c.decode config data validator = .error e) :
    e.isOfDecoding = true ∨ ∃ cause, unpackBatches config data s.template = .error cause ∧
      cause.isLibrary = false ∧ e = .passedOn cause := by
  rw [decode_eq schema] at h
  cases unpacked : unpackBatches config data s.template with
  | error cause =>
      simp only [unpacked, Except.error.injEq] at h
      cases own : cause.isLibrary with
      | true =>
          rw [own] at h
          subst h
          exact .inl rfl
      | false =>
          rw [own] at h
          exact .inr ⟨cause, rfl, own, h.symm⟩
  | ok batches =>
      simp only [unpacked] at h
      cases fields : unpackedFields 0 s batches with
      | error fault =>
          simp only [fields, Except.error.injEq] at h
          rw [h] at fields
          exact .inl (CodecError.isOfDecoding_of_isOfField (isOfField_of_unpackedFields fields))
      | ok given =>
          simp only [fields] at h
          cases built : validator.construct c given with
          | ok m => simp [built, Except.mapError] at h
          | error rejected =>
              simp only [built, Except.mapError, Except.error.injEq] at h
              subst h
              exact .inl rfl

private theorem schema_of_readSchema {cause : CodecError} (h : c.readSchema = .error cause) :
    ∃ fault, cause = .schema fault := by
  unfold readSchema at h
  cases schema : c.schema with
  | ok s =>
      rw [schema] at h
      cases h
  | error fault =>
      rw [schema] at h
      cases h
      exact ⟨fault, rfl⟩

/-- Whether the data of a message is unpacked up to a field whose native integer has a size that is
too long to be shown. -/
def StopsUnshown (c : Class) (config : Config) (data : Bytes) : Prop :=
  ∃ s, c.schema = .ok s ∧ Unpacking.StopsUnshown config data s.template

/-- Where every long native integer can be shown, unpacking is safe for all data and templates, and
decoding a message fails with an error of its schema or one of decoding, except where the size of
the native integer of a field is too long to be shown. -/
theorem decoding_isSafe (shown : 256 ^ config.longSize ≤ 10 ^ Integer.maxDigits) :
    (∀ data t, Unpacking.IsSafe config data t) ∧
      ∀ (validator : Validator) (c : Class) data,
        (∀ e, c.decode config data validator = .error e →
          (∃ cause, e = .schema cause) ∨ e.isOfDecoding = true ∨
            e = .passedOn .tooManyDigits ∧ c.StopsUnshown config data) ∧
        (c.StopsUnshown config data →
          c.decode config data validator = .error (.passedOn .tooManyDigits)) := by
  refine ⟨fun data t => Unpacking.isSafe shown data t, fun validator c data => ⟨?_, ?_⟩⟩
  · intro e h
    cases read : c.readSchema with
    | error fault =>
        simp only [decode, read, bind, Except.bind, Except.error.injEq] at h
        rw [h] at read
        exact .inl (schema_of_readSchema read)
    | ok s =>
        have schema := readSchema_eq_ok_iff.mp read
        refine .inr ((isOfDecoding_of_decode schema h).imp_right ?_)
        rintro ⟨cause, unpacked, foreign, rfl⟩
        rcases (Unpacking.isSafe shown data s.template).batches cause unpacked with
          own | ⟨rfl, stops⟩
        · rw [own.isLibrary] at foreign
          cases foreign
        · exact ⟨rfl, s, schema, stops⟩
  · rintro ⟨s, schema, stops⟩
    rw [decode_eq schema, stops.unpackBatches_eq]
    rfl

def unshownInt : Config :=
  { Config.default with
    intSize := 10 ^ Integer.maxDigits
    intSize_pos := Nat.pow_pos (Nat.succ_pos 9) }

private theorem intSize_unshownInt : unshownInt.intSize = 10 ^ Integer.maxDigits := by
  simp only [unshownInt]

theorem decoding_isSafe_unshown :
    unpack unshownInt [1] (Text.ofChars ['I']) = .error .tooManyDigits ∧
      unpackFirst unshownInt [1] (Text.ofChars ['I']) = .error .tooManyDigits ∧
      decode ⟨"Count", [{ name := "n", type := .int, directive := some [.scalar 'I'] }], none⟩
        unshownInt [1] = .error (.passedOn .tooManyDigits) := by
  obtain ⟨safe, decoding⟩ := @decoding_isSafe unshownInt
    (Integer.pow_le_of_le_eight (Nat.le_refl 8))
  have long := Nat.le_of_eq intSize_unshownInt.symm
  have groups : (Text.ofChars ['I']).groups = [] ++ ⟨.scalar 'I', []⟩ :: [] := rfl
  have stops : Template.StopsUnshown unshownInt (Text.ofChars ['I']) :=
    ⟨[], _, [], groups, rfl, .inl rfl, long⟩
  have read : (Template.read unshownInt (Text.ofChars ['I'])).directives = [] := by
    simp only [Template.read, groups, List.nil_append, Reading.ofGroups, Group.directive,
      Group.entry_upper_int, Group.nativeEntry_of_long false long]
  have values : Unpacking.StopsUnshown unshownInt [1] (Text.ofChars ['I']) :=
    ⟨stops, by rw [read]; exact ⟨_, rfl⟩⟩
  have first : Unpacking.StopsUnshownFirst unshownInt [1] (Text.ofChars ['I']) :=
    ⟨stops, by rw [read]; rfl⟩
  exact ⟨((safe _ _).escapes values).2, (safe _ _).escapesFirst first,
    (decoding .standard _ _).2 ⟨_, rfl, values⟩⟩

end Class

end ByteTemplate.Message
