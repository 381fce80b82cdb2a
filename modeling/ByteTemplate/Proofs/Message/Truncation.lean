import ByteTemplate.Proofs.Message.Codec

/-!
# Truncated messages

Data of the full packed size is called truncated where a field was read with fewer bytes than its
directive has under the default configuration, which the test for truncation goes by.
-/

namespace ByteTemplate.Message

/-- Whether the integer of a field has fewer bytes than under the default configuration. -/
def FieldSchema.isNarrowed (config : Config) (f : FieldSchema) : Bool :=
  match f.directive.codec with
  | .element (.integer _ width) => f.directive.widthUnder config width < width
  | _ => false

namespace Class

variable {config : Config} {f : FieldSchema} {s : Schema}

private theorem isTruncated_eq (accepted : f.IsAccepted) {d : Directive} {k start : Nat} {v : Value}
    (parsed : Template.parse config f.directiveText = .ok [d]) (sized : d.byteSize = some k)
    (present : v.isNone = false) :
    isTruncated f start ⟨[v], (start + k : Nat)⟩ = f.isNarrowed config := by
  obtain ⟨count, codec, -⟩ := accepted.of_parse_single parsed
  have taken : ((start + k : Nat) : Int) - (start : Int) = k := by omega
  simp only [isTruncated, List.headD_cons, present, Bool.false_or, taken]
  have unchanged : d.codec = f.directive.codec → f.directive.byteSize = some k := by
    intro same
    rw [← sized]
    simp only [Directive.byteSize, same, count]
  cases own : f.directive.codec with
  | element e =>
      have one := accepted.single e own
      rw [own] at codec
      cases e with
      | integer signed width =>
          have given : k = f.directive.widthUnder config width := by
            simpa [Directive.byteSize, codec, Codec.resize, count, one] using sized.symm
          have declared : f.directive.byteSize = some width := by
            simp [Directive.byteSize, own, one]
          simp only [declared, FieldSchema.isNarrowed, own, given, Int.ofNat_lt]
      | _ =>
          rw [unchanged (codec.trans own.symm)]
          simp [FieldSchema.isNarrowed, own]
  | _ =>
      rw [own] at codec
      rw [unchanged (codec.trans own.symm)]
      simp [FieldSchema.isNarrowed, own]

def HasValidText (f : FieldSchema) (batch : Batch) : Prop :=
  ∀ form bs, f.isText = true → batch.values.headD .none = .bytes form bs →
    (Text.ofUtf8? bs).isSome = true

/-- Whether the field with this name is narrowed and all fields before it are read as they are
packed. -/
def StopsNarrowed (config : Config) (s : Schema) (batches : List Batch) (name : String) : Prop :=
  ∃ front f back, s = front ++ f :: back ∧ f.name = name ∧ f.isNarrowed config = true ∧
    ∀ p ∈ front.zip batches, p.1.isNarrowed config = false ∧ HasValidText p.1 p.2

theorem unpackedValue_cases (f : FieldSchema) (batch : Batch) :
    (∃ v, unpackedValue f (batch.values.headD .none) = .ok v ∧ HasValidText f batch) ∨
      unpackedValue f (batch.values.headD .none) = .error (.notUtf8 f.name) ∧
        ¬HasValidText f batch := by
  unfold HasValidText
  cases value : batch.values.headD .none with
  | bytes form bs =>
      simp only [unpackedValue]
      cases text : f.isText with
      | false => exact .inl ⟨_, rfl, fun _ _ h => by cases h⟩
      | true =>
          cases read : Text.ofUtf8? bs with
          | none =>
              refine .inr ⟨rfl, fun valid => ?_⟩
              have some_text := valid form bs rfl rfl
              rw [read] at some_text
              cases some_text
          | some t =>
              refine .inl ⟨_, rfl, ?_⟩
              rintro _ _ - ⟨rfl, rfl⟩
              rw [read]
              rfl
  | _ => exact .inl ⟨_, rfl, fun _ _ _ h => by cases h⟩

theorem unpackedFields_cons_truncated_iff {start : Int} {batch : Batch} {batches : List Batch}
    {name : String} (test : isTruncated f start batch = f.isNarrowed config)
    (rest : unpackedFields batch.stop s batches = .error (.truncated name) ↔
      StopsNarrowed config s batches name) :
    unpackedFields start (f :: s) (batch :: batches) = .error (.truncated name) ↔
      StopsNarrowed config (f :: s) (batch :: batches) name := by
  have split : StopsNarrowed config (f :: s) (batch :: batches) name ↔
      (f.name = name ∧ f.isNarrowed config = true) ∨
        (f.isNarrowed config = false ∧ HasValidText f batch ∧
          StopsNarrowed config s batches name) := by
    unfold StopsNarrowed
    constructor
    · rintro ⟨front, g, back, split, named, narrowed, before⟩
      cases front with
      | nil =>
          obtain ⟨rfl, rfl⟩ := List.cons.inj split
          exact .inl ⟨named, narrowed⟩
      | cons _ front =>
          obtain ⟨rfl, rfl⟩ := List.cons.inj split
          rw [List.zip_cons_cons, List.forall_mem_cons] at before
          exact .inr ⟨before.1.1, before.1.2, front, g, back, rfl, named, narrowed, before.2⟩
    · rintro (⟨named, narrowed⟩ | ⟨whole, valid, front, g, back, rfl, named, narrowed, before⟩)
      · exact ⟨[], f, s, rfl, named, narrowed, fun p mem => by cases mem⟩
      · refine ⟨f :: front, g, back, rfl, named, narrowed, ?_⟩
        rw [List.zip_cons_cons, List.forall_mem_cons]
        exact ⟨⟨whole, valid⟩, before⟩
  rw [split]
  cases narrowed : f.isNarrowed config with
  | true =>
      rw [narrowed] at test
      rw [unpackedFields_of_truncated test]
      simp
  | false =>
      rw [narrowed] at test
      rw [unpackedFields_of_whole test, ← rest]
      rcases unpackedValue_cases f batch with ⟨v, value, valid⟩ | ⟨value, invalid⟩
      · rw [value]
        cases unpackedFields batch.stop s batches <;> simp [Except.bind, Except.map, valid]
      · rw [value]
        simp [Except.bind, invalid]

/-- Reading fields of known size from enough data stops at the first narrowed field, unless an
earlier text is not valid. -/
theorem unpackedFields_truncated_iff {ds : List Directive}
    (fields : List.Forall₂ (fun f d => Template.parse config f.directiveText = .ok [d]) s ds)
    (accepted : ∀ f ∈ s, f.IsAccepted) :
    ∀ {n start stop : Nat} {data : Bytes} {batches : List Batch}, totalSize ds = .ok n →
      n ≤ data.length → readBatches config start data ds = .ok (batches, stop) → ∀ name,
        (unpackedFields start s batches = .error (.truncated name) ↔
          StopsNarrowed config s batches name) := by
  induction fields with
  | nil =>
      intro n start stop data batches _ _ _ name
      refine ⟨fun h => (by cases h), ?_⟩
      rintro ⟨front, f, back, split, -⟩
      cases front <;> cases split
  | @cons f d s ds parsed _ ih =>
      intro n start stop data batches total enough read name
      obtain ⟨k, m, sized, others, rfl⟩ := totalSize_cons total
      have own := accepted f (by simp)
      obtain ⟨-, -, has, single⟩ := own.of_parse_single parsed
      obtain ⟨out, size, rest, one, more, rfl⟩ := readBatches_cons_eq_ok_iff.mp read
      obtain ⟨rfl, v, rfl, present⟩ :=
        Directive.decode_of_byteSize has single sized (by omega) one
      have left := ih (fun f mem => accepted f (by simp [mem])) others
        (by rw [List.length_drop]; omega) more name
      exact unpackedFields_cons_truncated_iff (isTruncated_eq own parsed sized present) left

/-- Data that holds a whole message is called truncated in a field exactly where it can be
unpacked and the field is the first to be narrowed, with valid texts before it; a message that
packs has as many bytes as the template. -/
theorem decode_truncated_iff {c : Class} (schema : c.schema = .ok s) {n : Nat}
    (size : Template.size config s.template = .ok n) :
    (∀ validator data name, n ≤ data.length →
      (c.decode config data validator = .error (.truncated name) ↔
        ∃ batches, unpackBatches config data s.template = .ok batches ∧
          StopsNarrowed config s batches name)) ∧
      ∀ m bs, c.encode config m = .ok bs → bs.length = n := by
  have accepted := Schema.isAccepted_of_ofFields schema
  obtain ⟨ds, parsed, total⟩ := Template.size_eq_ok_iff.mp size
  have fields := (Schema.parse_template_iff accepted).mp parsed
  constructor
  · intro validator data name enough
    rw [decode_eq_error_iff schema rfl, Template.unpackBatches_of_parse parsed]
    refine exists_congr fun batches => and_congr_right fun unpacked => ?_
    cases read : readBatches config 0 data ds with
    | error e =>
        rw [read] at unpacked
        cases unpacked
    | ok result =>
        rw [read] at unpacked
        obtain rfl := Except.ok.inj unpacked
        exact unpackedFields_truncated_iff fields accepted total enough read name
  · intro m bs packed
    obtain ⟨rest, pieces⟩ := packPieces_of_encode schema parsed packed
    refine length_packPieces total (Nat.le_of_eq ?_) pieces
    rw [Schema.totalDemand_eq accepted fields, fieldValues, List.length_map]

theorem decode_truncated_short_int :
    decode ⟨"Reading", [{ name := "count", type := .int, directive := some [.scalar 'I'] }], none⟩
      { intSize := 2 } [7, 0] = .error (.truncated "count") := by
  have schema : schema
      ⟨"Reading", [{ name := "count", type := .int, directive := some [.scalar 'I'] }], none⟩ =
        .ok _ := rfl
  have stops := (@decode_truncated_iff { intSize := 2 } _ _ schema 2 rfl).1 .standard [7, 0] "count"
    (by decide)
  refine stops.mpr ⟨[⟨[.int 7], 2⟩], rfl, [], _, [], rfl, rfl, by decide, ?_⟩
  exact fun p mem => by cases mem

end Class

end ByteTemplate.Message
