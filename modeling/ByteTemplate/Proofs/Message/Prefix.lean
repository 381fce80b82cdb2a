import ByteTemplate.Proofs.Message.Alignment
import ByteTemplate.Proofs.Message.Safety
import ByteTemplate.Proofs.RoundTrip

/-!
# Messages cut short

A packed message that is cut short is refused, wherever the cut falls.  The fields before the cut
are read as they are in the whole message, and of the field that is cut too little is left.
-/

namespace ByteTemplate

theorem decodeFixed_one (width : Nat) (decode : Bytes → Except Error Value) (data : Bytes) :
    decodeFixed width decode (some 1) data =
      if data.length < width then .ok ([.none], 0)
      else (decode (data.take width)).map fun v => ([v], width) := by
  simp only [decodeFixed, Option.getD_some, readElements, List.length_take]
  by_cases short : data.length < width
  · rw [if_pos short, if_pos (by omega)]
    rfl
  · rw [if_neg short, if_neg (by omega)]
    cases decode (data.take width) with
    | error e => rfl
    | ok v => simp [bind, Except.bind, Except.map]

namespace Directive

variable {config : Config} {d : Directive}

private theorem decode_of_not_integer
    (other : ∀ signed width, d.codec ≠ .element (.integer signed width))
    (config config' : Config) (data : Bytes) : d.decode config data = d.decode config' data := by
  cases codec : d.codec with
  | element e =>
      cases e with
      | integer signed width => exact absurd codec (other signed width)
      | float precision => simp only [decode, codec, Element.decode]
      | codepoint => simp only [decode, codec, Element.decode]
  | _ => simp only [decode, codec]

theorem decode_integer_one {signed : Bool} {width : Nat}
    (codec : d.codec = .element (.integer signed width)) (one : d.count = some 1) (data : Bytes) :
    d.decode config data =
      if data.length < width then .ok (some [.none], 0)
      else (Integer.decodeWithin config.maxBits signed d.order (data.take width)).map
        fun n => (some [.int n], width) := by
  simp only [decode, codec, one, Element.decode, decodeFixed_one]
  split
  · rfl
  · cases Integer.decodeWithin config.maxBits signed d.order (data.take width) <;> rfl

private theorem decode_of_short {e : Element} (codec : d.codec = .element e)
    (fixed : e ≠ .codepoint)
    (one : d.count = some 1) {data : Bytes} (short : data.length < d.codec.width) :
    d.decode config data = .ok (some [.none], 0) := by
  rw [codec] at short
  cases e with
  | codepoint => exact absurd rfl fixed
  | integer signed width =>
      have few : data.length < width := short
      rw [decode_integer_one codec one, if_pos few]
  | float precision =>
      have few : data.length < precision.width := short
      simp only [decode, codec, one, Element.decode, decodeFixed_one, if_pos few]
      rfl

theorem encode_of_pack_one {e : Element} (codec : d.codec = .element e) (one : d.count = some 1)
    {v : Value} {values left : List Value} {o : Output}
    (packed : d.pack (v :: values) = .ok (o, left)) :
    ∃ bs, e.encode d.order v = .ok bs ∧ o.piece = .bytes bs := by
  have demand : d.demand (v :: values).length = 1 := by
    simp only [Directive.demand, codec, one, Option.getD_some]
  obtain ⟨bs, written, piece, -⟩ := pack_element codec packed
  rw [demand] at written
  obtain ⟨first, rest, own, nothing, rfl⟩ := Element.encodeAll_cons written
  cases nothing
  rw [List.append_nil] at piece
  exact ⟨first, own, piece⟩

def limitError? (config : Config) (d : Directive) (v : Value) : Option Error :=
  match d.codec, v.toInt with
  | .element (.integer signed width), .ok n =>
      match Integer.limit config.maxBits (Integer.wrap signed width n) with
      | .ok _ => none
      | .error e => some e
  | _, _ => none

private theorem decode_piece (width : d.codec.HasWidth) (has : d.hasValues = true)
    (single : ∀ e, d.codec = .element e → d.count = some 1)
    (bounded : d.byteSize.isSome = true ∨ d.codec = .element .codepoint) {v : Value}
    {values left : List Value} {o : Output} (packed : d.pack (v :: values) = .ok (o, left))
    (tail : Bytes) :
    match d.limitError? config v with
    | some e => d.decode config (o.piece.data ++ tail) = .error e
    | none => ∃ w, d.decode config (o.piece.data ++ tail) = .ok (some [w], o.piece.data.length) := by
  by_cases integer : ∃ signed size, d.codec = .element (.integer signed size)
  · obtain ⟨signed, size, codec⟩ := integer
    have one := single _ codec
    obtain ⟨bs, written, piece⟩ := encode_of_pack_one codec one packed
    obtain ⟨n, value, rfl⟩ := Element.encode_integer written
    have length : (Integer.encode size d.order n).length = size := Integer.length_encode _ _ _
    rw [piece]
    simp only [Piece.data, limitError?, codec, value]
    rw [decode_integer_one codec one, if_neg (by rw [List.length_append, length]; omega),
      List.take_left' length, Integer.decodeWithin, Integer.decode_encode, length]
    cases Integer.limit config.maxBits (Integer.wrap signed size n) with
    | error e => rfl
    | ok k => exact ⟨_, rfl⟩
  · have other : ∀ signed size, d.codec ≠ .element (.integer signed size) :=
      fun signed size codec => integer ⟨signed, size, codec⟩
    have unlimited : d.limitError? config v = none := by
      unfold limitError?
      split
      · next codec _ => exact absurd codec (other _ _)
      · rfl
    have shows : d.isDelimited = true ∧ d.endsAtNull = false := by
      rcases bounded with sized | codec
      · obtain ⟨n, sized⟩ := Option.isSome_iff_exists.mp sized
        exact isDelimited_of_byteSize sized
      · simp [isDelimited, endsAtNull, codec, single _ codec]
    obtain ⟨-, w, size, -, read, whole⟩ := @decode_pack_one .default d _ _ o rfl width has single v
      packed tail (.inl shows.1)
    obtain rfl := whole shows.1 fun ends => by
      rw [shows.2] at ends
      cases ends
    rw [unlimited]
    exact ⟨w, by rw [decode_of_not_integer other config .default, read]⟩

end Directive

private theorem Codec.IsNarrow.not_isUnshown {config : Config} {codec : Codec}
    (narrow : codec.IsNarrow config) {data : Bytes} (short : data.length < codec.width) (e : Error) :
    ¬e.IsUnshown config data := by
  rintro ⟨-, whole, digits⟩
  have shown : 256 ^ config.longSize ≤ 10 ^ Integer.maxDigits := by
    refine Integer.pow_le_of_le_eight ?_
    cases codec with
    | element element =>
        cases element with
        | integer signed width =>
            change data.length < width at short
            rcases narrow with small | native
            · omega
            · omega
        | float precision =>
            have small : precision.width ≤ 8 := by cases precision <;> decide
            change data.length < precision.width at short
            omega
        | codepoint => exact absurd short (Nat.not_lt_zero _)
    | _ => exact absurd short (Nat.not_lt_zero _)
  exact Nat.lt_irrefl _ (Nat.lt_of_lt_of_le digits shown)

theorem Error.not_isUnshown_nil (config : Config) (e : Error) : ¬e.IsUnshown config [] := by
  rintro ⟨-, whole, -⟩
  exact absurd config.longSize_pos (Nat.not_lt_of_le whole)

theorem Template.isNarrow_of_parse {config : Config} {t : Text} {ds : List Directive}
    (parsed : Template.parse config t = .ok ds) : ∀ d ∈ ds, d.codec.IsNarrow config := by
  obtain ⟨-, rfl⟩ := parse_eq_ok_iff.mp parsed
  exact fun d mem => isNarrow_of_mem (List.mem_filter.mp mem).1

namespace Message

variable {config : Config} {m : Record} {s : Schema} {ds : List Directive} {f : FieldSchema}
  {d : Directive}

/-! ## Fields -/

namespace FieldSchema.IsAccepted

theorem bounded_of_parse (own : f.IsAccepted)
    (parsed : Template.parse config f.directiveText = .ok [d])
    (bounded : f.directive.byteSize.isSome = true ∨ f.directive.codec = .element .codepoint) :
    d.byteSize.isSome = true ∨ d.codec = .element .codepoint := by
  obtain ⟨count, codec, -, -⟩ := own.of_parse_single parsed
  refine bounded.imp (fun sized => ?_) fun codepoint => ?_
  · cases declared : f.directive.codec with
    | element e =>
        have one := own.single e declared
        rw [declared] at codec
        cases e with
        | integer signed width => simp [Directive.byteSize, codec, Codec.resize, count, one]
        | float precision => simp [Directive.byteSize, codec, Codec.resize, count, one]
        | codepoint => simp [Directive.byteSize, declared] at sized
    | _ =>
        rw [declared] at codec
        rw [← sized]
        simp only [Directive.byteSize, codec, Codec.resize, count, declared]
  · rw [codec, codepoint]
    rfl

private theorem byteSize_of_block (own : f.IsAccepted)
    (parsed : Template.parse config f.directiveText = .ok [d]) {b : Block}
    (block : d.codec = .block b) : f.directive.byteSize = d.byteSize := by
  obtain ⟨count, codec, -, -⟩ := own.of_parse_single parsed
  have same : f.directive.codec = .block b := by
    rw [block] at codec
    cases declared : f.directive.codec with
    | element e => cases e <;> simp [declared, Codec.resize] at codec
    | _ => rw [codec, declared]; rfl
  simp only [Directive.byteSize, block, same, count]

end FieldSchema.IsAccepted

/-- Whether reading the rest of the data tells that a field is not whole: its value is missing, or
it has fewer bytes than its directive. -/
def IsCutShort (config : Config) (f : FieldSchema) (d : Directive) (start : Nat) (data : Bytes) :
    Prop :=
  (∃ e, d.decode config data = .error e ∧ e.isLibrary = true) ∨
    ∃ vs size, d.decode config data = .ok (some vs, size) ∧
      Class.isTruncated f start ⟨vs, (start + size : Nat)⟩ = true ∧
      ∀ e : Error, ¬e.IsUnshown config (data.drop size)

theorem Codepoint.isCutShort {d : Directive} (codec : d.codec = .element .codepoint)
    (one : d.count = some 1) {n k : Nat} (small : n < Codepoint.bound)
    (cut : k < (Codepoint.bytes n).length) (start : Nat) :
    IsCutShort config f d start ((Codepoint.bytes n).take k) := by
  cases k with
  | zero =>
      refine .inr ⟨[], 0, ?_, rfl, Error.not_isUnshown_nil config⟩
      simp only [List.take_zero, Directive.decode, codec, one, Element.decode, readCodepoints_nil]
      rfl
  | succ k =>
      obtain ⟨e, broken⟩ := Codepoint.decode_take_bytes small (Nat.succ_pos k) cut
      have few : ((Codepoint.bytes n).take (k + 1)).take 4 = (Codepoint.bytes n).take (k + 1) := by
        refine List.take_of_length_le ?_
        have short := Codepoint.length_bytes_le n
        rw [List.length_take]
        omega
      refine .inl ⟨e, ?_, ?_⟩
      · simp only [Directive.decode, codec, one, Element.decode, Option.getD_some, readCodepoints,
          few, broken]
        rfl
      · unfold Error.isLibrary
        rw [Codepoint.kind_of_decode broken]

theorem FieldSchema.IsAccepted.isCutShort (own : f.IsAccepted)
    (parsed : Template.parse config f.directiveText = .ok [d])
    (bounded : f.directive.byteSize.isSome = true ∨ f.directive.codec = .element .codepoint)
    {v : Value} {values left : List Value} {o : Output}
    (packed : d.pack (v :: values) = .ok (o, left)) {k : Nat} (cut : k < o.piece.data.length)
    (start : Nat) : IsCutShort config f d start (o.piece.data.take k) := by
  obtain ⟨-, -, has, single⟩ := own.of_parse_single parsed
  have narrow := Template.isNarrow_of_parse parsed d (by simp)
  have length : (o.piece.data.take k).length = k := by
    rw [List.length_take]
    omega
  cases codec : d.codec with
  | ignored => simp [Directive.hasValues, codec] at has
  | null => simp [Directive.hasValues, codec] at has
  | block b =>
      obtain ⟨n, sized⟩ : ∃ n, d.byteSize = some n := Option.isSome_iff_exists.mp
        ((own.bounded_of_parse parsed bounded).resolve_right (by simp [codec]))
      have whole := Directive.length_pack_one has single sized packed
      refine .inr ⟨_, _, Directive.decode_of_block codec sized _, ?_, ?_⟩
      · have known : f.directive.byteSize = some n := by
          rw [own.byteSize_of_block parsed codec, sized]
        simp only [Class.isTruncated, known, length, Bool.or_eq_true, decide_eq_true_eq]
        exact .inr (by omega)
      · rw [length, List.drop_eq_nil_of_le (by omega)]
        exact Error.not_isUnshown_nil config
  | element e =>
      have one := single e codec
      by_cases codepoint : e = .codepoint
      · subst codepoint
        obtain ⟨bs, written, piece⟩ := Directive.encode_of_pack_one codec one packed
        obtain ⟨n, small, -, rfl⟩ := Element.encode_codepoint written
        rw [piece] at cut ⊢
        exact Codepoint.isCutShort codec one small cut start
      · obtain ⟨n, sized⟩ : ∃ n, d.byteSize = some n := Option.isSome_iff_exists.mp
          ((own.bounded_of_parse parsed bounded).resolve_right (by simp [codec, codepoint]))
        have whole := Directive.length_pack_one has single sized packed
        obtain ⟨-, j, count, rfl⟩ := Directive.element_of_byteSize codec sized
        obtain rfl : j = 1 := Option.some.inj (count.symm.trans one)
        have short : (o.piece.data.take k).length < d.codec.width := by
          rw [length, codec]
          omega
        refine .inr ⟨_, _, Directive.decode_of_short codec codepoint one short, rfl, ?_⟩
        exact narrow.not_isUnshown short

/-! ## Messages -/

namespace Class

/-- The first error of the limit on integers among the fields that lie within the first `k` bytes
of a packed message. -/
def limitErrorWithin (config : Config) (m : Record) : Schema → Nat → Option Error
  | [], _ => none
  | f :: s, k =>
      let v := (m.lookup f.name).getD .none
      match Template.parse config f.directiveText, packText config [v] f.directiveText with
      | .ok [d], .ok piece =>
          if k < piece.length then none
          else (d.limitError? config v).or (limitErrorWithin config m s (k - piece.length))
      | _, _ => none

/-- Whether data is refused: reading it fails with an error of the library, or a field of it. -/
def IsRefused (config : Config) (start : Nat) (data : Bytes) (s : Schema) (ds : List Directive) :
    Prop :=
  (∃ e, readBatches config start data ds = .error e ∧ e.isLibrary = true) ∨
    ∃ batches stop e, readBatches config start data ds = .ok (batches, stop) ∧
      unpackedFields start s batches = .error e

private theorem isRefused_of_isCutShort {start : Nat} {data : Bytes}
    (narrow : ∀ d ∈ ds, d.codec.IsNarrow config) (short : IsCutShort config f d start data) :
    IsRefused config start data (f :: s) (d :: ds) := by
  rcases short with ⟨e, failed, own⟩ | ⟨vs, size, read, test, shown⟩
  · refine .inl ⟨e, ?_, own⟩
    simp only [readBatches, failed]
  · cases more : readBatches config (start + size) (data.drop size) ds with
    | error e =>
        refine .inl ⟨e, ?_, ?_⟩
        · simp only [readBatches, read, more]
        · exact ((isOfUnpacking_of_readBatches narrow more).resolve_right (shown e)).isLibrary
    | ok result =>
        refine .inr ⟨⟨vs, (start + size : Nat)⟩ :: result.1, result.2, .truncated f.name,
          readBatches_cons_eq_ok_iff.mpr ⟨some vs, size, result.1, read, more, rfl⟩, ?_⟩
        exact unpackedFields_of_truncated test

private theorem isRefused_cons {start size : Nat} {data : Bytes} {vs : List Value}
    (read : d.decode config data = .ok (some vs, size))
    (rest : IsRefused config (start + size) (data.drop size) s ds) :
    IsRefused config start data (f :: s) (d :: ds) := by
  rcases rest with ⟨e, failed, own⟩ | ⟨batches, stop, e, more, failed⟩
  · refine .inl ⟨e, ?_, own⟩
    simp only [readBatches, read, failed]
  · refine .inr ⟨⟨vs, (start + size : Nat)⟩ :: batches, stop, ?_⟩
    have unpacked := readBatches_cons_eq_ok_iff.mpr ⟨some vs, size, batches, read, more, rfl⟩
    cases test : isTruncated f start ⟨vs, (start + size : Nat)⟩ with
    | true => exact ⟨_, unpacked, unpackedFields_of_truncated test⟩
    | false =>
        cases value : unpackedValue f (vs.headD .none) with
        | error fault =>
            refine ⟨fault, unpacked, ?_⟩
            rw [unpackedFields_of_whole test, value]
            rfl
        | ok v =>
            refine ⟨e, unpacked, ?_⟩
            rw [unpackedFields_of_whole test, value, failed]
            rfl

/-- Reading the first bytes of packed fields fails with the limit on an integer among the fields
that are whole, or is refused. -/
theorem readBatches_take
    (fields : List.Forall₂ (fun f d => Template.parse config f.directiveText = .ok [d]) s ds)
    (accepted : ∀ f ∈ s, f.IsAccepted)
    (bounded : ∀ f ∈ s, f.directive.byteSize.isSome = true ∨
      f.directive.codec = .element .codepoint) :
    ∀ {bs : Bytes} {rest : List Value}, packPieces (fieldValues m s) ds = .ok (bs, rest) →
      bs.length ≤ maxSize → ∀ {k : Nat}, k < bs.length → ∀ start : Nat,
        match limitErrorWithin config m s k with
        | some e => readBatches config start (bs.take k) ds = .error e
        | none => IsRefused config start (bs.take k) s ds := by
  induction fields with
  | nil =>
      intro bs rest packed _ k cut
      cases packed
      cases cut
  | @cons f d s ds parsed others ih =>
      intro bs rest packed fits k cut start
      have own := accepted f (by simp)
      obtain ⟨-, -, has, single⟩ := own.of_parse_single parsed
      obtain ⟨o, left, tail, one, more, rfl⟩ := packPieces_cons packed
      rw [List.length_append] at fits cut
      obtain ⟨rfl, alone⟩ := own.packText_eq parsed one (by omega)
      simp only [limitErrorWithin, parsed, alone]
      by_cases within : k < o.piece.data.length
      · rw [if_pos within, List.take_append_of_le_length (Nat.le_of_lt within)]
        refine isRefused_of_isCutShort ?_
          (own.isCutShort parsed (bounded f (by simp)) one within start)
        intro d mem
        obtain ⟨g, -, parsed⟩ := exists_of_mem_of_forall₂ others d mem
        exact Template.isNarrow_of_parse parsed d (by simp)
      · have taken : (o.piece.data ++ tail).take k =
            o.piece.data ++ tail.take (k - o.piece.data.length) := by
          rw [List.take_append, List.take_of_length_le (by omega)]
        rw [if_neg within, taken]
        have first := @Directive.decode_piece config d
          (Template.hasWidth_of_parse parsed d (by simp)) has single
          (own.bounded_of_parse parsed (bounded f (by simp))) _ _ _ _ one
          (tail.take (k - o.piece.data.length))
        have later := ih (fun f mem => accepted f (by simp [mem]))
          (fun f mem => bounded f (by simp [mem])) more (by omega)
          (show k - o.piece.data.length < tail.length by omega) (start + o.piece.data.length)
        cases limit : d.limitError? config ((m.lookup f.name).getD .none) with
        | some e =>
            rw [limit] at first
            simp only [Option.some_or, readBatches, first]
        | none =>
            rw [limit] at first
            obtain ⟨w, read⟩ := first
            rw [Option.none_or]
            cases within_rest : limitErrorWithin config m s (k - o.piece.data.length) with
            | some e =>
                rw [within_rest] at later
                simp only [readBatches, read, List.drop_left, later]
            | none =>
                rw [within_rest] at later
                refine isRefused_cons read ?_
                rw [List.drop_left]
                exact later

/-- A packed message that is cut short is refused with an error of decoding, except where the first
integer over the limit among the whole fields is too long to be shown: that error is passed on. -/
theorem decode_take_of_encode {c : Class} (schema : c.schema = .ok s)
    (bounded : ∀ f ∈ s, f.directive.byteSize.isSome = true ∨
      f.directive.codec = .element .codepoint) {bs : Bytes}
    (packed : c.encode config m = .ok bs) {k : Nat} (cut : k < bs.length)
    (validator : Validator) :
    ∃ e, c.decode config (bs.take k) validator = .error e ∧
      if limitErrorWithin config m s k = some .tooManyDigits then e = .passedOn .tooManyDigits
      else e.isOfDecoding = true := by
  have accepted := Schema.isAccepted_of_ofFields schema
  obtain ⟨fits, ds, rest, parsed, pieces⟩ :=
    Template.packText_eq_ok_iff.mp (packText_of_encode schema packed).2
  have fields := (Schema.parse_template_iff accepted).mp parsed
  have outcome := readBatches_take fields accepted bounded pieces fits cut 0
  rw [decode_eq schema, Template.unpackBatches_of_parse parsed]
  cases limit : limitErrorWithin config m s k with
  | some fault =>
      rw [limit] at outcome
      rw [outcome]
      refine ⟨_, rfl, ?_⟩
      rcases isOfUnpacking_of_readBatches (Template.isNarrow_of_parse parsed) outcome with
        own | ⟨rfl, -⟩
      · have library := own.isLibrary
        rw [if_neg, library]
        · rfl
        · intro same
          cases same
          cases library
      · rw [if_pos rfl]
        rfl
  | none =>
      rw [limit] at outcome
      simp only [reduceCtorEq, if_false]
      rcases outcome with ⟨fault, failed, library⟩ | ⟨batches, stop, e, read, failed⟩
      · rw [failed]
        refine ⟨_, rfl, ?_⟩
        rw [library]
        rfl
      · rw [read]
        change unpackedFields ((0 : Nat) : Int) s batches = .error e at failed
        refine ⟨e, ?_, CodecError.isOfDecoding_of_isOfField (isOfField_of_unpackedFields failed)⟩
        simp only [Except.map, failed, ← Int.natCast_zero]

def wide : Class where
  name := "Wide"
  fields := [{ name := "number", type := .int, directive := some [.scalar 'L', .scalar '!'] },
    { name := "mark", type := .int, directive := some [.scalar 'C'] }]

theorem decode_take_of_encode_wide :
    ∃ bs, wide.encode { longSize := 1786, maxBits := some 64 }
        [("number", .int (-1)), ("mark", .int 7)] = .ok bs ∧ 1786 < bs.length ∧
      wide.decode { longSize := 1786, maxBits := some 64 } (bs.take 1786) =
        .error (.passedOn .tooManyDigits) := by
  obtain ⟨s, schema, bounded, unshown⟩ : ∃ s, wide.schema = .ok s ∧
      (∀ f ∈ s, f.directive.byteSize.isSome = true ∨
        f.directive.codec = .element .codepoint) ∧
      limitErrorWithin { longSize := 1786, maxBits := some 64 }
        [("number", .int (-1)), ("mark", .int 7)] s 1786 = some .tooManyDigits :=
    ⟨_, rfl, by decide, by decide +kernel⟩
  have packed : wide.encode { longSize := 1786, maxBits := some 64 }
      [("number", .int (-1)), ("mark", .int 7)] = .ok (List.replicate 1786 0xFF ++ [7]) := by
    decide +kernel
  have cut : 1786 < (List.replicate 1786 (0xFF : UInt8) ++ [7]).length := by
    rw [List.length_append, List.length_replicate]
    decide
  obtain ⟨e, failed, own⟩ := decode_take_of_encode schema bounded packed cut .standard
  rw [unshown, if_pos rfl] at own
  exact ⟨_, packed, cut, own ▸ failed⟩

end Class

end Message

end ByteTemplate
