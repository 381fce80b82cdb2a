import ByteTemplate.Proofs.Blocks
import ByteTemplate.Proofs.Elements

/-!
# Unpacking what was packed

Where every directive but the last is delimited, unpacking answers the packed values, each in
the canonical form that its directive leaves it in.
-/

namespace ByteTemplate

namespace Directive

def isDelimited (d : Directive) : Bool :=
  match d.codec with
  | .element _ | .null => d.count.isSome
  | .block b => b.isDelimited d.count
  | .ignored => true

def endsAtNull (d : Directive) : Bool :=
  d.codec == .block (.string .terminated) && d.count.isNone

def canonical (d : Directive) (v : Value) : Except Error Value :=
  match d.codec with
  | .element e => e.canonical v
  | .block b => v.toBytes.map (b.canonical d.count)
  | .null | .ignored => .ok v

end Directive

def NullFree (v : Value) : Prop :=
  ∀ bs, v.toBytes = .ok bs → 0 ∉ bs

section

variable {config : Config} {d : Directive} {values rest : List Value} {o : Output}

/-- The values that a directive takes are read back from its piece in their canonical forms.  Only
an open directive or a string cut at a NUL stops before the end of the piece. -/
def Directive.ReadsValues (config : Config) (d : Directive) (values : List Value) (piece : Piece)
    (tail : Bytes) : Prop :=
  ∃ out size, (values.take (d.demand values.length)).mapM d.canonical = .ok (out.getD []) ∧
    d.decode config (piece.data ++ tail) = .ok (out, size) ∧
    size ≤ piece.data.length ∧
    (d.isDelimited = true → (d.endsAtNull = true → ∀ v ∈ values.head?, NullFree v) →
      size = piece.data.length)

private theorem Directive.readsValues_block {b : Block} {v : Value} {source : Bytes}
    (codec : d.codec = .block b) (bytes : v.toBytes = .ok source) (tail : Bytes)
    (last : d.isDelimited = true ∨ tail = []) :
    d.ReadsValues config (v :: rest) (.bytes (b.encode d.count source)) tail := by
  have delimited : d.isDelimited = b.isDelimited d.count := by
    simp only [Directive.isDelimited, codec]
  have ends : b = .string .terminated → d.count = none → d.endsAtNull = true := by
    rintro rfl all
    simp [Directive.endsAtNull, codec, all]
  have form : [v].mapM d.canonical = .ok [b.canonical d.count source] := by
    refine mapM_cons_ok ?_ rfl
    simp only [Directive.canonical, codec, bytes, Except.map]
  rw [delimited] at last
  obtain ⟨size, read, bound, whole⟩ :=
    @Directive.readsBack_block config d b source tail codec last
  simp only [ReadsValues, Directive.demand, codec, Piece.data, delimited]
  refine ⟨some [b.canonical d.count source], size, form, read, bound,
    fun shows noNull => whole shows ?_⟩
  intro terminated all
  exact noNull (ends terminated all) v rfl source bytes

private theorem Directive.readsValues_element (unlimited : config.maxBits = none) {e : Element}
    (codec : d.codec = .element e) (width : d.codec.HasWidth)
    (enough : d.demand values.length ≤ values.length) {bs : Bytes}
    (written : e.encodeAll d.order (values.take (d.demand values.length)) = .ok bs) (tail : Bytes)
    (last : d.isDelimited = true ∨ tail = []) :
    d.ReadsValues config values (.bytes bs) tail := by
  have counted : ∀ n ∈ d.count, n = (values.take (d.demand values.length)).length := by
    intro n count
    rw [List.length_take, Nat.min_eq_left enough]
    simp [Directive.demand, codec, Option.mem_def.mp count]
  have open_last : d.count = none → tail = [] := by
    intro all
    simp only [Directive.isDelimited, codec, all, Option.isSome_none] at last
    exact last.resolve_left (by decide)
  rw [codec] at width
  obtain ⟨kept, forms, read⟩ :=
    Element.decode_encodeAll unlimited width written counted tail open_last
  have same : d.canonical = e.canonical := by
    funext v
    simp only [Directive.canonical, codec]
  refine ⟨some kept, bs.length, ?_, ?_, Nat.le_refl _, fun _ _ => rfl⟩
  · rw [same]
    exact forms
  · simp only [Directive.decode, codec, Piece.data, read, Except.map]

theorem Directive.decode_pack (unlimited : config.maxBits = none) (width : d.codec.HasWidth)
    (enough : d.demand values.length ≤ values.length) (packed : d.pack values = .ok (o, rest))
    (tail : Bytes) (last : d.isDelimited = true ∨ d.hasValues = true ∧ tail = []) :
    rest = values.drop (d.demand values.length) ∧ d.ReadsValues config values o.piece tail := by
  cases codec : d.codec with
  | ignored =>
      simp only [Directive.pack, codec, Except.ok.injEq, Prod.mk.injEq] at packed
      obtain ⟨rfl, rfl⟩ := packed
      simp only [ReadsValues, Directive.demand, codec]
      refine ⟨rfl, none, 0, rfl, ?_, Nat.zero_le _, fun _ _ => rfl⟩
      simp only [Directive.decode, codec]
  | null =>
      simp only [Directive.isDelimited, Directive.hasValues, codec, Bool.false_eq_true, false_and,
        or_false] at last
      obtain ⟨n, count⟩ := Option.isSome_iff_exists.mp last
      simp only [Directive.pack, codec, count, Except.ok.injEq, Prod.mk.injEq] at packed
      obtain ⟨rfl, rfl⟩ := packed
      have length : (Piece.zeros n).data.length = n := by simp [Piece.data]
      simp only [ReadsValues, Directive.demand, codec, Option.getD_some, length]
      refine ⟨rfl, none, n, rfl, ?_, Nat.le_refl _, fun _ _ => rfl⟩
      simp only [Directive.decode, codec, count]
      exact if_neg (by simp [Piece.data])
  | block b =>
      obtain ⟨v, source, rfl, bytes, piece⟩ := Directive.pack_block codec enough packed
      rw [piece]
      refine ⟨?_, readsValues_block codec bytes tail (last.imp_right And.right)⟩
      simp only [Directive.demand, codec]
      rfl
  | element e =>
      obtain ⟨bs, written, piece, rfl⟩ := Directive.pack_element codec packed
      rw [piece]
      exact ⟨rfl, readsValues_element unlimited codec width enough written tail
        (last.imp_right And.right)⟩

theorem Directive.decode_pack_one (unlimited : config.maxBits = none) (width : d.codec.HasWidth)
    (has : d.hasValues = true) (single : ∀ e, d.codec = .element e → d.count = some 1) {v : Value}
    (packed : d.pack (v :: values) = .ok (o, rest)) (tail : Bytes)
    (last : d.isDelimited = true ∨ tail = []) :
    rest = values ∧ ∃ w size, d.canonical v = .ok w ∧
      d.decode config (o.piece.data ++ tail) = .ok (some [w], size) ∧
      (d.isDelimited = true → (d.endsAtNull = true → NullFree v) →
        size = o.piece.data.length) := by
  have one : d.demand (v :: values).length = 1 := Directive.demand_eq_one has single _
  have enough : d.demand (v :: values).length ≤ (v :: values).length := by
    rw [one]
    simp
  obtain ⟨rfl, out, size, forms, read, -, whole⟩ := Directive.decode_pack unlimited width enough
    packed tail (last.imp_right fun nothing => ⟨has, nothing⟩)
  rw [one, List.take_succ_cons, List.take_zero] at forms
  rw [one]
  cases form : d.canonical v with
  | error e =>
      simp only [List.mapM_cons, form, bind, Except.bind] at forms
      cases forms
  | ok w =>
      have single_form : [v].mapM d.canonical = .ok [w] := mapM_cons_ok form rfl
      rw [single_form] at forms
      have out_eq : out = some [w] := by
        cases out with
        | none => cases forms
        | some vs => exact congrArg some (Except.ok.inj forms).symm
      refine ⟨rfl, w, size, rfl, by rw [read, out_eq], fun shows noNull => whole shows ?_⟩
      intro ends x mem
      cases mem
      exact noNull ends

end

theorem Directive.isDelimited_of_byteSize {d : Directive} {n : Nat} (sized : d.byteSize = some n) :
    d.isDelimited = true ∧ d.endsAtNull = false := by
  cases count : d.count with
  | some k =>
      refine ⟨?_, by simp [endsAtNull, count]⟩
      cases codec : d.codec with
      | block b =>
          cases b with
          | string padding => cases padding <;> simp [isDelimited, Block.isDelimited, codec, count]
          | hex order => simp [isDelimited, Block.isDelimited, codec, count]
          | base64 => simp [byteSize, codec] at sized
      | _ => simp [isDelimited, codec, count]
  | none =>
      cases codec : d.codec with
      | ignored => simp [isDelimited, endsAtNull, codec]
      | null => simp [byteSize, codec, count] at sized
      | element e => cases e <;> simp [byteSize, codec, count] at sized
      | block b => cases b <;> simp [byteSize, codec, count] at sized

/-! ## Templates -/

def areSupplied : List Directive → Nat → Bool
  | [], available => available == 0
  | d :: ds, available =>
      d.demand available ≤ available && areSupplied ds (available - d.demand available)

/-- Whether every directive but the last is delimited, and the last is or has values. -/
def areReadable : List Directive → Bool
  | [] => true
  | [d] => d.isDelimited || d.hasValues
  | d :: ds => d.isDelimited && areReadable ds

/-- A string that ends at a NUL holds none, unless no values come after it. -/
def EndsKept : List Directive → List Value → Prop
  | [], _ => True
  | d :: ds, values =>
      (d.endsAtNull = true → ds.any Directive.hasValues = true →
        ∀ v ∈ values.head?, NullFree v) ∧
      EndsKept ds (values.drop (d.demand values.length))

def canonicalValues : List Directive → List Value → Except Error (List Value)
  | [], _ => .ok []
  | d :: ds, values => do
      let first ← (values.take (d.demand values.length)).mapM d.canonical
      let rest ← canonicalValues ds (values.drop (d.demand values.length))
      .ok (first ++ rest)

theorem areReadable_cons {d : Directive} {ds : List Directive}
    (h : areReadable (d :: ds) = true) :
    (d.isDelimited = true ∨ d.hasValues = true ∧ ds = []) ∧ areReadable ds = true := by
  cases ds with
  | nil =>
      simp only [areReadable, Bool.or_eq_true] at h
      exact ⟨h.imp_right fun last => ⟨last, rfl⟩, rfl⟩
  | cons next ds =>
      simp only [areReadable, Bool.and_eq_true] at h
      exact ⟨.inl h.1, h.2⟩

private theorem readBatches_of_no_values {config : Config} {ds : List Directive}
    (valueless : ds.any Directive.hasValues = false) (readable : areReadable ds = true) :
    ∀ {values rest : List Value} {bs : Bytes}, packPieces values ds = .ok (bs, rest) →
      ∀ (start : Nat) {data : Bytes}, bs.length ≤ data.length →
        canonicalValues ds values = .ok [] ∧
          ∃ stop, readBatches config start data ds = .ok ([], stop) := by
  induction ds with
  | nil => exact fun _ start _ _ => ⟨rfl, start, rfl⟩
  | cons d ds ih =>
      intro values rest bs packed start data enough
      simp only [List.any_cons, Bool.or_eq_false_iff] at valueless
      obtain ⟨last, others⟩ := areReadable_cons readable
      obtain ⟨o, left, tail, one, more, rfl⟩ := packPieces_cons packed
      rw [List.length_append] at enough
      cases codec : d.codec with
      | element e => simp [Directive.hasValues, codec] at valueless
      | block b => simp [Directive.hasValues, codec] at valueless
      | ignored =>
          simp only [Directive.pack, codec, Except.ok.injEq, Prod.mk.injEq] at one
          obtain ⟨rfl, rfl⟩ := one
          obtain ⟨forms, stop, read⟩ := ih valueless.2 others more (start + 0)
            (show tail.length ≤ (data.drop 0).length by rw [List.drop_zero]; omega)
          refine ⟨?_, stop, readBatches_cons_eq_ok_iff.mpr ⟨none, 0, [], ?_, read, rfl⟩⟩
          · simp only [canonicalValues, Directive.demand, codec, List.drop_zero, forms]
            rfl
          · simp only [Directive.decode, codec]
      | null =>
          simp only [Directive.isDelimited, Directive.hasValues, codec, Bool.false_eq_true,
            false_and, or_false] at last
          obtain ⟨n, count⟩ := Option.isSome_iff_exists.mp last
          simp only [Directive.pack, codec, count, Except.ok.injEq, Prod.mk.injEq] at one
          obtain ⟨rfl, rfl⟩ := one
          simp only [Piece.data, Option.getD_some, List.length_replicate] at enough
          obtain ⟨forms, stop, read⟩ := ih valueless.2 others more (start + n)
            (show tail.length ≤ (data.drop n).length by rw [List.length_drop]; omega)
          have fits : ¬data.length < n := by omega
          refine ⟨?_, stop, readBatches_cons_eq_ok_iff.mpr ⟨none, n, [], ?_, read, rfl⟩⟩
          · simp only [canonicalValues, Directive.demand, codec, List.drop_zero, forms]
            rfl
          · simp only [Directive.decode, codec, count, if_neg fits]

private theorem readBatches_packPieces {config : Config} (unlimited : config.maxBits = none)
    {ds : List Directive} (widths : ∀ d ∈ ds, d.codec.HasWidth)
    (readable : areReadable ds = true) :
    ∀ {values rest : List Value} {bs : Bytes}, areSupplied ds values.length = true →
      EndsKept ds values → packPieces values ds = .ok (bs, rest) → ∀ start : Nat,
        ∃ batches stop, readBatches config start bs ds = .ok (batches, stop) ∧
          canonicalValues ds values = .ok (batches.flatMap Batch.values) := by
  induction ds with
  | nil => exact fun _ _ _ start => ⟨[], start, rfl, rfl⟩
  | cons d ds ih =>
      intro values rest bs supplied kept packed start
      obtain ⟨last, others⟩ := areReadable_cons readable
      obtain ⟨o, left, tail, one, more, rfl⟩ := packPieces_cons packed
      simp only [areSupplied, Bool.and_eq_true, decide_eq_true_eq] at supplied
      have open_last : d.isDelimited = true ∨ d.hasValues = true ∧ tail = [] := by
        refine last.imp_right fun ⟨has, nothing⟩ => ⟨has, ?_⟩
        subst nothing
        cases more
        rfl
      obtain ⟨rfl, out, size, forms, read, bound, whole⟩ := Directive.decode_pack unlimited
        (widths d (by simp)) supplied.1 one tail open_last
      have left : ∃ batches stop,
          readBatches config (start + size) ((o.piece.data ++ tail).drop size) ds =
              .ok (batches, stop) ∧
            canonicalValues ds (values.drop (d.demand values.length)) =
              .ok (batches.flatMap Batch.values) := by
        by_cases all : size = o.piece.data.length
        · rw [List.drop_left' all.symm]
          refine ih (fun d mem => widths d (by simp [mem])) others ?_ kept.2 more (start + size)
          rw [List.length_drop]
          exact supplied.2
        · -- Only an open directive or a string cut at a NUL stops early: no values come after it.
          have valueless : ds.any Directive.hasValues = false := by
            cases has : ds.any Directive.hasValues with
            | false => rfl
            | true =>
                have shows : d.isDelimited = true := by
                  refine last.resolve_right fun ⟨_, nothing⟩ => ?_
                  rw [nothing] at has
                  cases has
                exact absurd (whole shows fun ends => kept.1 ends has) all
          obtain ⟨forms, stop, rest⟩ := @readBatches_of_no_values config ds valueless others _ _ _
            more (start + size) ((o.piece.data ++ tail).drop size) (by
              rw [List.length_drop, List.length_append]
              omega)
          exact ⟨[], stop, rest, forms⟩
      obtain ⟨batches, stop, after, more_forms⟩ := left
      refine ⟨_, stop, readBatches_cons_eq_ok_iff.mpr ⟨out, size, batches, read, after, rfl⟩, ?_⟩
      simp only [canonicalValues, forms, more_forms]
      cases out with
      | none => rfl
      | some vs => rfl

/-- Unpacking answers the packed values in their canonical forms. -/
theorem unpack_packText {config : Config} (unlimited : config.maxBits = none) {t : Text}
    {ds : List Directive} (parsed : Template.parse config t = .ok ds)
    (readable : areReadable ds = true) {values : List Value}
    (supplied : areSupplied ds values.length = true) (ends : EndsKept ds values) {bs : Bytes}
    (packed : packText config values t = .ok bs) :
    ∃ kept, canonicalValues ds values = .ok kept ∧ unpack config bs t = .ok kept := by
  obtain ⟨rest, pieces⟩ := Template.packPieces_of_packText parsed packed
  obtain ⟨batches, stop, read, forms⟩ := readBatches_packPieces unlimited
    (Template.hasWidth_of_parse parsed) readable supplied ends pieces 0
  refine ⟨_, forms, ?_⟩
  rw [unpack, Template.unpackBatches_of_parse parsed, read]
  rfl

theorem unpack_packText_mixed :
    ∃ ds kept,
      Template.parse .default (Text.ofChars ['s', 'A', '3', 'x', 'Z', '*', 'C', '*']) = .ok ds ∧
        canonicalValues ds [.int 40000, .ofChars ['a'], .ofBytes [104, 105], .int 7, .int (-1)] =
          .ok kept ∧
        unpack .default [0x40, 0x9C, 97, 32, 32, 0, 104, 105, 0, 7, 255]
          (Text.ofChars ['s', 'A', '3', 'x', 'Z', '*', 'C', '*']) = .ok kept := by
  have ends : NullFree (.ofBytes [104, 105]) := by
    intro bs h
    cases h
    decide
  have round := @unpack_packText .default rfl (Text.ofChars ['s', 'A', '3', 'x', 'Z', '*', 'C', '*']) _
    rfl rfl [.int 40000, .ofChars ['a'], .ofBytes [104, 105], .int 7, .int (-1)] rfl
    ⟨nofun, nofun, nofun, fun _ _ v mem => by cases mem; exact ends, nofun, trivial⟩
    [0x40, 0x9C, 97, 32, 32, 0, 104, 105, 0, 7, 255] rfl
  obtain ⟨kept, forms, read⟩ := round
  exact ⟨_, kept, rfl, forms, read⟩

end ByteTemplate
