import ByteTemplate.Proofs.FixedSize
import ByteTemplate.Proofs.Message.Codec

/-!
# Sizes of packed messages

The size of a class is the sum of the sizes of its fields, the length of every message packed under
the default configuration, and the number of bytes that unpacking looks at.
-/

namespace ByteTemplate

theorem Directive.kind_of_size {d : Directive} {e : Error} (h : d.size = .error e) :
    d.byteSize = none ∧ e.kind = .argument := by
  unfold size at h
  split at h
  · cases h
  all_goals
    cases h
    exact ⟨by assumption, rfl⟩

namespace Message

namespace Class

variable {c : Class} {s : Schema} {n : Nat}

def IsFirstUnsized (s : Schema) (f : FieldSchema) : Prop :=
  ∃ front back, s = front ++ f :: back ∧ (∀ g ∈ front, g.directive.byteSize.isSome = true) ∧
    f.directive.byteSize = none

/-- Either every field has a size, and the template has the sum; or both fail at the first field
without one. -/
theorem sizesOf_cases (s : Schema) :
    (∃ sizes, sizesOf s = .ok sizes ∧
        totalSize (s.map FieldSchema.directive) = .ok (sizes.map Prod.snd).sum ∧
        List.Forall₂ (fun f row => row.1 = f.name ∧ f.directive.byteSize = some row.2) s sizes) ∨
      ∃ f e, IsFirstUnsized s f ∧ f.directive.size = .error e ∧ sizesOf s = .error e ∧
        totalSize (s.map FieldSchema.directive) = .error e := by
  -- Both computations go through the fields in the same order and stop at the same one.
  induction s with
  | nil => exact .inl ⟨[], rfl, rfl, .nil⟩
  | cons f s ih =>
      simp only [sizesOf, List.map_cons, totalSize]
      cases first : f.directive.size with
      | error e =>
          obtain ⟨unsized, -⟩ := Directive.kind_of_size first
          exact .inr ⟨f, e, ⟨[], s, rfl, by simp, unsized⟩, first, rfl, rfl⟩
      | ok k =>
          have sized := Directive.byteSize_of_size first
          rcases ih with ⟨sizes, fields, total, rows⟩ |
            ⟨g, e, ⟨front, back, rfl, known, unsized⟩, failed, fields, total⟩
          · refine .inl ⟨(f.name, k) :: sizes, ?_, ?_, .cons ⟨rfl, sized⟩ rows⟩
            · rw [fields]
              rfl
            · rw [total]
              rfl
          · refine .inr ⟨g, e, ⟨f :: front, back, rfl, ?_, unsized⟩, failed, ?_, ?_⟩
            · rw [List.forall_mem_cons]
              exact ⟨by rw [sized]; rfl, known⟩
            · rw [fields]
              rfl
            · rw [total]
              rfl

/-- What the size `n` of a class says about its messages, packed and unpacked under the default
configuration. -/
structure HasSize (c : Class) (s : Schema) (n : Nat) : Prop where
  length : ∀ m values bs, packedValues m s = .ok values →
    packText .default values s.template = .ok bs → bs.length = n
  tooLong : ∀ m values bs, packedValues m s = .ok values →
    packText .default values s.template = .ok bs → ∀ size limit,
      (c.encode .default m = .error (.tooLong size limit) ↔
        size = n ∧ c.maxBytes = some limit ∧ limit < n)
  window : ∀ validator data,
    c.decode .default data validator = c.decode .default (data.take n) validator
  records : ∀ records : List Bytes, (∀ r ∈ records, ∃ m, c.encode .default m = .ok r) →
    ∀ i r, records[i]? = some r →
      (records.flatten.drop (i * n)).take n = r ∧ ∀ validator,
        c.decode .default (records.flatten.drop (i * n)) validator =
          c.decode .default r validator

theorem length_of_packText (schema : c.schema = .ok s)
    (total : totalSize (s.map FieldSchema.directive) = .ok n) {m : Record} {values : List Value}
    {bs : Bytes} (present : packedValues m s = .ok values)
    (packed : packText .default values s.template = .ok bs) : bs.length = n := by
  have accepted := Schema.isAccepted_of_ofFields schema
  have parsed := Schema.parse_default accepted
  have fields := (Schema.parse_template_iff accepted).mp parsed
  obtain ⟨rfl, -⟩ := packedValues_eq_ok_iff.mp present
  obtain ⟨rest, pieces⟩ := Template.packPieces_of_packText parsed packed
  refine length_packPieces total (Nat.le_of_eq ?_) pieces
  rw [Schema.totalDemand_eq accepted fields, fieldValues, List.length_map]

theorem encode_eq_tooLong_iff (schema : c.schema = .ok s) {config : Config} {m : Record}
    {values : List Value} {bs : Bytes} (present : packedValues m s = .ok values)
    (packed : packText config values s.template = .ok bs) {size : Nat} {limit : Int} :
    c.encode config m = .error (.tooLong size limit) ↔
      size = bs.length ∧ c.maxBytes = some limit ∧ limit < bs.length := by
  have read := readSchema_eq_ok_iff.mpr schema
  simp only [encode, read, present, packed, bind, Except.bind]
  cases c.maxBytes with
  | none => simp
  | some most =>
      simp only [Option.some.injEq]
      split
      · next long =>
          simp only [Except.error.injEq, CodecError.tooLong.injEq]
          constructor
          · rintro ⟨rfl, rfl⟩
            exact ⟨rfl, rfl, long⟩
          · rintro ⟨rfl, rfl, -⟩
            exact ⟨rfl, rfl⟩
      · next fits =>
          simp only [reduceCtorEq, false_iff]
          rintro ⟨-, rfl, long⟩
          exact fits long

theorem decode_take (schema : c.schema = .ok s)
    (total : totalSize (s.map FieldSchema.directive) = .ok n) (validator : Validator)
    (data : Bytes) :
    c.decode .default (data.take n) validator = c.decode .default data validator := by
  have parsed := Schema.parse_default (Schema.isAccepted_of_ofFields schema)
  rw [decode_eq schema, decode_eq schema, Template.unpackBatches_of_parse parsed,
    Template.unpackBatches_of_parse parsed, readBatches_take 0 data total (Nat.le_refl n)]

private theorem take_drop_flatten {records : List Bytes} :
    ∀ {i : Nat} {r : Bytes}, (∀ r ∈ records, r.length = n) → records[i]? = some r →
      (records.flatten.drop (i * n)).take n = r := by
  induction records with
  | nil =>
      intro i r _ found
      simp at found
  | cons first records ih =>
      intro i r lengths found
      rw [List.forall_mem_cons] at lengths
      rw [List.flatten_cons]
      cases i with
      | zero =>
          obtain rfl : first = r := by simpa using found
          rw [Nat.zero_mul, List.drop_zero, List.take_left' lengths.1]
      | succ i =>
          have later : (i + 1) * n = first.length + i * n := by
            rw [lengths.1, Nat.succ_mul, Nat.add_comm]
          rw [later, ← List.drop_drop, List.drop_left]
          exact ih lengths.2 (by simpa using found)

private theorem hasSize (schema : c.schema = .ok s)
    (total : totalSize (s.map FieldSchema.directive) = .ok n) : HasSize c s n := by
  have length : ∀ m values bs, packedValues m s = .ok values →
      packText .default values s.template = .ok bs → bs.length = n :=
    fun _ _ _ present packed => length_of_packText schema total present packed
  refine ⟨length, ?_, fun validator data => (decode_take schema total validator data).symm, ?_⟩
  · intro m values bs present packed size limit
    rw [encode_eq_tooLong_iff schema present packed, length m values bs present packed]
  · intro records packed i r found
    have lengths : ∀ r ∈ records, r.length = n := by
      intro r mem
      obtain ⟨m, encoded⟩ := packed r mem
      obtain ⟨present, bytes⟩ := packText_of_encode schema encoded
      exact length m _ r (packedValues_eq_ok_iff.mpr ⟨rfl, present⟩) bytes
    have cut := take_drop_flatten lengths found
    exact ⟨cut, fun validator => by rw [← decode_take schema total, cut]⟩

/-- Either every field of a class has a size, and the class has their sum as its size; or the class
and its fields fail with the same error, that of the first field without a size. -/
theorem sizes_agree (schema : c.schema = .ok s) :
    (∃ sizes, c.fieldSizes = .ok sizes ∧
        List.Forall₂ (fun f row => row.1 = f.name ∧ f.directive.byteSize = some row.2) s sizes ∧
        c.encodedSize = .ok (sizes.map Prod.snd).sum ∧ HasSize c s (sizes.map Prod.snd).sum) ∨
      ∃ f e, IsFirstUnsized s f ∧ f.directive.size = .error e ∧ e.kind = .argument ∧
        c.fieldSizes = .error (.passedOn e) ∧ c.encodedSize = .error (.passedOn e) := by
  have read := readSchema_eq_ok_iff.mpr schema
  have parsed := Schema.parse_default (Schema.isAccepted_of_ofFields schema)
  simp only [fieldSizes, encodedSize, read, bind, Except.bind, Template.size_of_parse parsed]
  rcases sizesOf_cases s with ⟨sizes, fields, total, rows⟩ | ⟨f, e, first, failed, fields, total⟩
  · rw [fields, total]
    exact .inl ⟨sizes, rfl, rows, rfl, hasSize schema total⟩
  · rw [fields, total]
    exact .inr ⟨f, e, first, failed, (Directive.kind_of_size failed).2, rfl, rfl⟩

def header : Class where
  name := "Header"
  fields := [
    { name := "magic", type := .int, directive := some [.scalar 'N'] },
    { name := "title", type := .text, directive := some [.scalar 'A', .scalar '4'] }]
  maxBytes := some 7

theorem sizes_agree_header :
    header.encodedSize = .ok 8 ∧
      header.encode .default [("magic", .int 1), ("title", .ofChars ['h', 'i'])] =
        .error (.tooLong 8 7) ∧
      ∀ data, header.decode .default data = header.decode .default (data.take 8) := by
  rcases @sizes_agree header _ rfl with ⟨sizes, fields, -, total, known⟩ | ⟨_, _, -, -, -, failed, -⟩
  · obtain rfl : sizes = [("magic", 4), ("title", 4)] := Except.ok.inj (fields.symm.trans rfl)
    refine ⟨total, ?_, known.window .standard⟩
    exact (known.tooLong _ _ _ rfl rfl 8 7).mpr ⟨rfl, rfl, by decide⟩
  · cases failed

end Class

end Message

end ByteTemplate
