import ByteTemplate.Proofs.Message.Codec

/-!
# Fields and directives

The template of a schema has one directive for each field, under every configuration that can read
them.  A packed message is its fields packed one by one, and each field is unpacked from a batch
of its own.
-/

namespace ByteTemplate

namespace Directive

variable {config : Config} {d : Directive}

private theorem pack_cons (has : d.hasValues = true)
    (single : ∀ e, d.codec = .element e → d.count = some 1) (v : Value) (values : List Value) :
    d.pack (v :: values) = (d.pack [v]).map fun (o, _) => (o, values) := by
  cases codec : d.codec with
  | ignored => simp [hasValues, codec] at has
  | null => simp [hasValues, codec] at has
  | block b =>
      simp only [pack, codec]
      cases v.toBytes <;> rfl
  | element e =>
      simp only [pack, codec, single e codec, Option.getD_some, List.take_succ_cons, List.take_zero,
        List.drop_succ_cons, List.drop_zero, List.length_cons, List.length_nil]
      rw [Nat.sub_eq_zero_of_le (Nat.le_add_left 1 values.length)]
      cases e.encodeAll d.order [v] <;> rfl

theorem length_decodeFixed_one {width size : Nat} {decode : Bytes → Except Error Value}
    {data : Bytes} {vs : List Value}
    (read : decodeFixed width decode (some 1) data = .ok (vs, size)) : vs.length = 1 := by
  obtain ⟨found, elements, rfl, -⟩ := decodeFixed_eq_ok read
  rcases readElements_succ_eq_ok elements with ⟨-, rfl⟩ | ⟨v, more, -, -, rest, rfl⟩
  · rfl
  · cases rest
    rfl

theorem length_decode_one (single : ∀ e, d.codec = .element e → d.count = some 1) {data : Bytes}
    {vs : List Value} {size : Nat} (read : d.decode config data = .ok (some vs, size)) :
    vs.length = 1 ∨ vs = [] ∧ d.codec = .element .codepoint ∧ data = [] := by
  cases codec : d.codec with
  | ignored => simp [decode, codec] at read
  | null =>
      simp only [decode, codec] at read
      split at read
      · simp at read
      · split at read <;> simp at read
  | block b =>
      simp only [decode, codec, Except.ok.injEq, Prod.mk.injEq, Option.some.injEq] at read
      rw [← read.1]
      exact .inl rfl
  | element e =>
      obtain ⟨_, same, elements⟩ := decode_element codec read
      obtain rfl := Option.some.inj same
      rw [single e codec] at elements
      cases e with
      | integer signed width => exact .inl (length_decodeFixed_one elements)
      | float precision => exact .inl (length_decodeFixed_one elements)
      | codepoint =>
          rcases readCodepoints_succ_eq_ok elements with
            ⟨empty, none_read, -⟩ | ⟨n, k, more, rest, -, others, value, -⟩
          · exact .inr ⟨none_read, rfl, empty⟩
          · cases others
            exact .inl (by rw [value]; rfl)

end Directive

namespace Message

variable {config : Config} {s : Schema} {ds : List Directive} {m : Record}

theorem Schema.exists_directives (accepted : ∀ f ∈ s, f.IsAccepted)
    (readable : ∀ f ∈ s, ∃ own, Template.parse config f.directiveText = .ok own) :
    ∃ ds, List.Forall₂ (fun f d => Template.parse config f.directiveText = .ok [d]) s ds := by
  induction s with
  | nil => exact ⟨[], .nil⟩
  | cons f s ih =>
      obtain ⟨own, parsed⟩ := readable f (by simp)
      obtain ⟨d, rfl, -⟩ := (accepted f (by simp)).of_parse parsed
      obtain ⟨ds, others⟩ := ih (fun f mem => accepted f (by simp [mem]))
        fun f mem => readable f (by simp [mem])
      exact ⟨d :: ds, .cons parsed others⟩

theorem FieldSchema.IsAccepted.packText_eq {f : FieldSchema} {d : Directive} (own : f.IsAccepted)
    (parsed : Template.parse config f.directiveText = .ok [d]) {v : Value}
    {values left : List Value} {o : Output} (packed : d.pack (v :: values) = .ok (o, left))
    (fits : o.piece.data.length ≤ maxSize) :
    left = values ∧ packText config [v] f.directiveText = .ok o.piece.data := by
  obtain ⟨-, -, has, single⟩ := own.of_parse_single parsed
  rw [Directive.pack_cons has single] at packed
  cases alone : d.pack [v] with
  | error e => simp [alone, Except.map] at packed
  | ok result =>
      simp only [alone, Except.map, Except.ok.injEq, Prod.mk.injEq] at packed
      obtain ⟨rfl, rfl⟩ := packed
      have pieces : packPieces [v] [d] = .ok (result.1.piece.data, result.2) := by
        simp only [packPieces, alone, List.append_nil]
      refine ⟨rfl, ?_⟩
      rw [Template.packText_of_packPieces parsed pieces, if_pos fits]

private theorem Class.pieces_of_packPieces
    (fields : List.Forall₂ (fun f d => Template.parse config f.directiveText = .ok [d]) s ds)
    (accepted : ∀ f ∈ s, f.IsAccepted) :
    ∀ {bs : Bytes} {rest : List Value}, packPieces (fieldValues m s) ds = .ok (bs, rest) →
      bs.length ≤ maxSize →
        ∃ pieces, List.Forall₂ (fun f piece =>
            packText config [(m.lookup f.name).getD .none] f.directiveText = .ok piece) s pieces ∧
          bs = pieces.flatten := by
  induction fields with
  | nil =>
      intro bs rest packed _
      cases packed
      exact ⟨[], .nil, rfl⟩
  | @cons f d s ds parsed _ ih =>
      intro bs rest packed fits
      obtain ⟨o, left, tail, one, more, rfl⟩ := packPieces_cons packed
      rw [List.length_append] at fits
      obtain ⟨rfl, own⟩ := (accepted f (by simp)).packText_eq parsed one (by omega)
      obtain ⟨pieces, others, rfl⟩ :=
        ih (fun f mem => accepted f (by simp [mem])) more (by omega)
      exact ⟨o.piece.data :: pieces, .cons own others, rfl⟩

/-! ## Unpacking -/

/-- Each field has a batch of its own, which its directive read where the batch before it ended.
The batch holds one value, unless a code point was wanted at the end of the data. -/
inductive AreAligned (config : Config) (data : Bytes) : Int → Schema → List Batch → Prop
  | nil {start} : AreAligned config data start [] []
  | cons {start f d b s batches}
      (parsed : Template.parse config f.directiveText = .ok [d])
      (read : d.unpack config ⟨data, start⟩ = .ok (some b, ⟨data, b.stop⟩))
      (single : b.values.length = 1 ∨
        b.values = [] ∧ d.codec = .element .codepoint ∧ start = data.length)
      (rest : AreAligned config data b.stop s batches) :
      AreAligned config data start (f :: s) (b :: batches)

namespace AreAligned

variable {data : Bytes}

theorem length_eq {start : Int} {batches : List Batch}
    (aligned : AreAligned config data start s batches) : batches.length = s.length := by
  induction aligned with
  | nil => rfl
  | cons _ _ _ _ ih => rw [List.length_cons, List.length_cons, ih]

private theorem of_readBatches
    (fields : List.Forall₂ (fun f d => Template.parse config f.directiveText = .ok [d]) s ds)
    (accepted : ∀ f ∈ s, f.IsAccepted) :
    ∀ {start stop : Nat} {batches : List Batch}, start ≤ data.length →
      readBatches config start (data.drop start) ds = .ok (batches, stop) →
        AreAligned config data start s batches := by
  induction fields with
  | nil =>
      intro start stop batches _ read
      cases read
      exact .nil
  | @cons f d s ds parsed _ ih =>
      intro start stop batches inside read
      obtain ⟨-, -, has, single⟩ := (accepted f (by simp)).of_parse_single parsed
      obtain ⟨vs, size, rest, first, more, rfl⟩ := readBatches_cons_of_hasValues has read
      have bound := Directive.size_le_of_decode first
      rw [List.length_drop] at bound
      rw [List.drop_drop] at more
      refine .cons parsed ?_ ?_ (ih (fun f mem => accepted f (by simp [mem])) (by omega) more)
      · rw [Directive.unpack_eq inside, first]
        rfl
      · refine (Directive.length_decode_one single first).imp_right fun ⟨none_read, codec, empty⟩ =>
          ⟨none_read, codec, ?_⟩
        rw [List.drop_eq_nil_iff] at empty
        omega

end AreAligned

namespace Class

def IsReadFrom (source : FieldSchema × Batch) (row : String × Value) : Prop :=
  row.1 = source.1.name ∧ unpackedValue source.1 (source.2.values.headD .none) = .ok row.2

private theorem forall₂_of_unpackedFields {batches : List Batch} :
    ∀ {start : Int} {s : Schema} {given : Record}, batches.length = s.length →
      unpackedFields start s batches = .ok given →
        List.Forall₂ IsReadFrom (s.zip batches) given := by
  induction batches with
  | nil =>
      intro start s given length read
      obtain rfl := List.length_eq_zero_iff.mp length.symm
      cases read
      exact .nil
  | cons b batches ih =>
      intro start s given length read
      cases s with
      | nil => cases length
      | cons f s =>
          obtain ⟨v, rest, value, more, rfl⟩ := unpackedFields_cons_eq_ok read
          exact .cons ⟨rfl, value⟩ (ih (Nat.succ.inj length) more)

/-- Every field of an accepted class keeps its own directive, piece and batch. -/
theorem fields_aligned {c : Class} (schema : c.schema = .ok s) (config : Config) :
    Template.parse .default s.template = .ok (s.map FieldSchema.directive) ∧
      ((∀ f ∈ s, ∃ own, Template.parse config f.directiveText = .ok own) →
        ∃ ds, Template.parse config s.template = .ok ds ∧
          List.Forall₂ (fun f d => Template.parse config f.directiveText = .ok [d]) s ds) ∧
      (∀ m bs, c.encode config m = .ok bs →
        ∃ pieces, List.Forall₂ (fun f piece =>
            packText config [(m.lookup f.name).getD .none] f.directiveText = .ok piece) s pieces ∧
          bs = pieces.flatten) ∧
      ∀ data batches, unpackBatches config data s.template = .ok batches →
        batches.length = s.length ∧ AreAligned config data 0 s batches ∧
          ∀ given, unpackedFields 0 s batches = .ok given →
            List.Forall₂ IsReadFrom (s.zip batches) given := by
  have accepted := Schema.isAccepted_of_ofFields schema
  refine ⟨Schema.parse_default accepted, ?_, ?_, ?_⟩
  · intro readable
    obtain ⟨ds, fields⟩ := Schema.exists_directives accepted readable
    exact ⟨ds, (Schema.parse_template_iff accepted).mpr fields, fields⟩
  · intro m bs packed
    obtain ⟨-, packed⟩ := packText_of_encode schema packed
    obtain ⟨fits, ds, rest, parsed, pieces⟩ := Template.packText_eq_ok_iff.mp packed
    exact pieces_of_packPieces ((Schema.parse_template_iff accepted).mp parsed) accepted pieces fits
  · intro data batches unpacked
    obtain ⟨ds, stop, parsed, read⟩ := Template.readBatches_of_unpackBatches unpacked
    have aligned : AreAligned config data 0 s batches :=
      .of_readBatches ((Schema.parse_template_iff accepted).mp parsed) accepted (Nat.zero_le _) read
    exact ⟨aligned.length_eq, aligned, fun given => forall₂_of_unpackedFields aligned.length_eq⟩

theorem fields_aligned_end_of_data :
    ∃ s, schema ⟨"Pair", [{ name := "size", type := .int, directive := some [.scalar 'n'] },
        { name := "mark", type := .int, directive := some [.scalar 'U'] }], none⟩ = .ok s ∧
      AreAligned .default [0, 7] 0 s [⟨[.int 7], 2⟩, ⟨[], 2⟩] := by
  have schema : schema
      ⟨"Pair", [{ name := "size", type := .int, directive := some [.scalar 'n'] },
        { name := "mark", type := .int, directive := some [.scalar 'U'] }], none⟩ = .ok _ := rfl
  obtain ⟨-, -, -, read⟩ := fields_aligned schema .default
  exact ⟨_, schema, (read [0, 7] _ rfl).2.1⟩

end Class

end Message

end ByteTemplate
