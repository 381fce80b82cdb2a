import Mathlib.Data.List.DropRight
import Mathlib.Data.List.TakeWhile
import ByteTemplate.Proofs.FixedSize
import ByteTemplate.Proofs.Lossless
import ByteTemplate.Proofs.Number.Conversion

/-!
# Packing what was unpacked, and unpacking it again

A value that was unpacked is in the canonical form of its directive.  Where every directive is
delimited, packing such values and unpacking the result answers the same values, also where the
directives leave out a part of the bytes that they read and other bytes are packed.
-/

namespace ByteTemplate

private theorem Integer.wrap_decode (signed : Bool) (order : ByteOrder) (bs : Bytes) :
    wrap signed bs.length (decode signed order bs) = decode signed order bs := by
  rw [← decode_encode signed bs.length order, encode_decode]

theorem Real.rounded_decode (precision : Precision) (order : ByteOrder) (bs : Bytes) :
    rounded precision (decode precision order bs) = decode precision order bs := by
  cases precision with
  | single => exact BinaryFloat.convert_convert_convert _
  | double => rfl

namespace Padded

def field (count : Option Nat) (data : Bytes) : Bytes :=
  match count with
  | none => data
  | some n => data.take n

theorem decode_fst (padding : Padding) (count : Option Nat) (data : Bytes) :
    (decode padding (count.map Int.ofNat) data).1 = strip padding (field count data) := by
  cases count with
  | some n => simp only [Option.map_some, Int.ofNat_eq_natCast, decode_some, field]
  | none =>
      have all : cut data.length data = data := List.take_length
      cases padding with
      | terminated =>
          simp only [Option.map_none, decode, all, field, strip]
          split <;> rfl
      | _ => simp only [Option.map_none, decode, all, field, strip]

theorem strip_strip (padding : Padding) (bs : Bytes) :
    strip padding (strip padding bs) = strip padding bs := by
  cases padding with
  | nulls => rfl
  | terminated => exact List.takeWhile_idem
  | spaces =>
      simp only [strip, trimEnd, List.reverse_reverse]
      rw [List.dropWhile_idempotent]

theorem length_strip_le (padding : Padding) (bs : Bytes) :
    (strip padding bs).length ≤ bs.length := by
  cases padding with
  | nulls => exact Nat.le_refl _
  | terminated => exact (List.takeWhile_sublist _).length_le
  | spaces =>
      have shorter := (List.dropWhile_sublist (l := bs.reverse) isTrimmed).length_le
      rw [List.length_reverse] at shorter
      rw [strip, trimEnd, List.length_reverse]
      exact shorter

private theorem kept_strip {padding : Padding} {count : Option Nat} {data : Bytes}
    (full : padding = .nulls → ∀ n ∈ count, (strip padding (field count data)).length = n) :
    kept padding count (strip padding (field count data)) = strip padding (field count data) := by
  have inside : field count (strip padding (field count data)) =
      strip padding (field count data) := by
    cases count with
    | none => rfl
    | some n =>
        have shorter := length_strip_le padding (data.take n)
        rw [List.length_take] at shorter
        exact List.take_of_length_le (Nat.le_trans shorter (Nat.min_le_left _ _))
  cases padding with
  | nulls =>
      cases count with
      | none => simp [kept]
      | some n =>
          have length := full rfl n rfl
          have whole : (strip .nulls (field (some n) data)).take n =
              strip .nulls (field (some n) data) := inside
          simp only [kept, whole, Option.getD_some, length, Nat.sub_self, List.replicate_zero,
            List.append_nil]
  | spaces =>
      have same := congrArg (strip .spaces) inside
      rw [strip_strip] at same
      exact same
  | terminated =>
      have same := congrArg (strip .terminated) inside
      rw [strip_strip] at same
      exact same

end Padded

/-! ## Elements -/

/-- Whether an element writes a value, reads it back as it is and is within the limit with it. -/
structure Element.Keeps (config : Config) (e : Element) (v : Value) : Prop where
  written : ∀ order, ∃ bs, e.encode order v = .ok bs
  form : e.canonical v = .ok v
  within : ∀ signed width n, e = .integer signed width → v = .int n →
    Integer.limit config.maxBits n = .ok n

private theorem exists_of_mem_readCodepoints :
    ∀ {limit : Nat} {data : Bytes} {vs : List Value} {size : Nat},
      readCodepoints limit data = .ok (vs, size) →
        ∀ v ∈ vs, ∃ n : Nat, n < Codepoint.bound ∧ v = .int n := by
  intro limit
  induction limit with
  | zero =>
      intro data vs size h
      cases h
      exact nofun
  | succ limit ih =>
      intro data vs size h
      rcases readCodepoints_succ_eq_ok h with ⟨-, rfl, -⟩ | ⟨n, k, more, rest, first, others, rfl, -⟩
      · exact nofun
      · rw [List.forall_mem_cons]
        exact ⟨⟨n, (Codepoint.bytes_of_decode first).1, rfl⟩, ih others⟩

theorem decodeFixed_of_present {width size : Nat} {decode : Bytes → Except Error Value}
    {count : Option Nat} {data : Bytes} {vs : List Value}
    (read : decodeFixed width decode count data = .ok (vs, size))
    (present : ∀ v ∈ vs, v.isNone = false) :
    (∀ n ∈ count, vs.length = n) ∧ ∀ v ∈ vs, ∃ bs, bs.length = width ∧ decode bs = .ok v := by
  obtain ⟨elements, -, enough⟩ := decodeFixed_eq_ok_of_present read present
  obtain ⟨most, sources⟩ := exists_of_mem_readElements elements
  refine ⟨fun n counted => ?_, sources⟩
  rw [Option.mem_def.mp counted, Option.getD_some] at most enough
  exact Nat.le_antisymm most enough

namespace Element

variable {config : Config} {order : ByteOrder} {count : Option Nat} {data : Bytes} {e : Element}
  {vs : List Value} {size : Nat}

theorem length_of_decode (fixed : e ≠ .codepoint)
    (read : e.decode config order count data = .ok (vs, size))
    (present : ∀ v ∈ vs, v.isNone = false) : ∀ n ∈ count, vs.length = n := by
  cases e with
  | integer signed width => exact (decodeFixed_of_present read present).1
  | float precision => exact (decodeFixed_of_present read present).1
  | codepoint => exact absurd rfl fixed

private theorem keeps_of_decode (read : e.decode config order count data = .ok (vs, size))
    (present : ∀ v ∈ vs, v.isNone = false) : ∀ v ∈ vs, e.Keeps config v := by
  intro v mem
  cases e with
  | integer signed width =>
      obtain ⟨bs, rfl, value⟩ := (decodeFixed_of_present read present).2 v mem
      obtain ⟨rfl, limit⟩ := Integer.of_map_decodeWithin value
      refine ⟨fun order => ⟨_, rfl⟩, ?_, ?_⟩
      · simp only [canonical, Value.toInt, Value.number?, Number.toInt, Number.truncate?,
          Except.map]
        rw [Integer.wrap_decode]
      · rintro _ _ _ - ⟨⟩
        exact limit
  | float precision =>
      obtain ⟨bs, -, value⟩ := (decodeFixed_of_present read present).2 v mem
      obtain rfl := Except.ok.inj value
      refine ⟨fun order => ⟨_, rfl⟩, ?_, ?_⟩
      · simp only [canonical, Value.toDouble, Value.number?, Number.toDouble, Except.map,
          Real.rounded_decode]
      · rintro _ _ _ ⟨⟩
  | codepoint =>
      obtain ⟨n, small, rfl⟩ := exists_of_mem_readCodepoints read v mem
      refine ⟨fun order => ⟨_, encode_codepoint_of_lt small⟩, rfl, ?_⟩
      rintro _ _ _ ⟨⟩

private theorem exists_encodeAll (order : ByteOrder) (keeps : ∀ v ∈ vs, e.Keeps config v) :
    ∃ bs, e.encodeAll order vs = .ok bs := by
  induction vs with
  | nil => exact ⟨[], rfl⟩
  | cons v vs ih =>
      rw [List.forall_mem_cons] at keeps
      obtain ⟨first, one⟩ := keeps.1.written order
      obtain ⟨rest, others⟩ := ih keeps.2
      exact ⟨first ++ rest, encodeAll_cons_of_ok one others⟩

private theorem mapM_canonical (keeps : ∀ v ∈ vs, e.Keeps config v) :
    vs.mapM e.canonical = .ok vs := by
  induction vs with
  | nil => rfl
  | cons v vs ih =>
      rw [List.forall_mem_cons] at keeps
      exact mapM_cons_ok keeps.1.form (ih keeps.2)

end Element

private theorem readElements_of_agree {width : Nat} {decode decode' : Bytes → Except Error Value} :
    ∀ {limit : Nat} {data : Bytes} {vs : List Value},
      (∀ v ∈ vs, ∀ bs, decode bs = .ok v → decode' bs = .ok v) →
        readElements width decode limit data = .ok vs →
          readElements width decode' limit data = .ok vs := by
  intro limit
  induction limit with
  | zero => exact fun _ h => h
  | succ limit ih =>
      intro data vs agree h
      rcases readElements_succ_eq_ok h with ⟨short, rfl⟩ | ⟨v, more, enough, first, rest, rfl⟩
      · simp only [readElements]
        rw [if_pos (by rw [List.length_take]; omega)]
      · rw [List.forall_mem_cons] at agree
        simp only [readElements]
        rw [if_neg (by rw [List.length_take]; omega), agree.1 _ first, ih agree.2 rest]
        rfl

theorem Config.two_le_of_mem_none : ∀ b ∈ (none : Option Nat), 2 ≤ b := nofun

def Config.unlimited (config : Config) : Config :=
  config.withMaxBits none two_le_of_mem_none

private theorem Element.decode_of_unlimited {config : Config} {order : ByteOrder}
    {count : Option Nat}
    {data : Bytes} {e : Element} {vs : List Value} {size : Nat}
    (keeps : ∀ v ∈ vs, e.Keeps config v)
    (read : e.decode config.unlimited order count data = .ok (vs, size)) :
    e.decode config order count data = .ok (vs, size) := by
  cases e with
  | float precision => exact read
  | codepoint => exact read
  | integer signed width =>
      obtain ⟨found, elements, rfl, rfl⟩ := decodeFixed_eq_ok read
      have within : readElements width
          (fun bs => (Integer.decodeWithin config.maxBits signed order bs).map .int)
          (count.getD data.length) data = .ok found := by
        refine readElements_of_agree (fun v mem bs value => ?_) elements
        change Except.ok (Value.int (Integer.decode signed order bs)) = .ok v at value
        obtain rfl := Except.ok.inj value
        have limit := (keeps _ (List.mem_append_left _ mem)).within signed width _ rfl rfl
        rw [Integer.decodeWithin, limit]
        rfl
      simp only [Element.decode, decodeFixed]
      rw [within]
      rfl

/-! ## Directives -/

namespace Directive

variable {config : Config} {d : Directive} {data : Bytes}

/-- Whether a directive that reads a string in full, digits or code points was answered with as
many as it counts. -/
def isFilled (d : Directive) (vs : List Value) : Bool :=
  match d.codec with
  | .element .codepoint | .block (.string .nulls) | .block (.hex _) => d.isFull vs
  | _ => true

/-- Whether packing some values, with others after them, writes a piece that is read back as
these values. -/
def Restores (config : Config) (d : Directive) (out : Option (List Value)) (rest : List Value) :
    Prop :=
  ∃ o, d.pack (out.getD [] ++ rest) = .ok (o, rest) ∧
    ∀ tail, d.decode config (o.piece.data ++ tail) = .ok (out, o.piece.data.length)

private theorem restores_of_decode_element {e : Element} (codec : d.codec = .element e)
    (width : d.codec.HasWidth) (delimited : d.isDelimited = true) {vs : List Value} {size : Nat}
    (read : e.decode config d.order d.count data = .ok (vs, size))
    (present : ∀ v ∈ vs, v.isNone = false) (filled : d.isFilled vs = true) (rest : List Value) :
    d.Restores config (some vs) rest := by
  have counts : d.count.isSome = true := by simpa only [isDelimited, codec] using delimited
  obtain ⟨n, count⟩ := Option.isSome_iff_exists.mp counts
  have length : vs.length = n := by
    by_cases codepoint : e = .codepoint
    · subst codepoint
      simpa [isFilled, isFull, codec, count] using filled
    · exact Element.length_of_decode codepoint read present n count
  have keeps := Element.keeps_of_decode read present
  obtain ⟨bs, written⟩ := Element.exists_encodeAll d.order keeps
  have packed : d.pack (vs ++ rest) = .ok (⟨d, .bytes bs, n - (vs ++ rest).length⟩, rest) := by
    simp only [pack, codec, count, Option.getD_some, ← length]
    rw [List.take_left' rfl, List.drop_left' rfl, written]
    rfl
  refine ⟨_, packed, fun tail => ?_⟩
  rw [codec] at width
  obtain ⟨kept, forms, back⟩ := @Element.decode_encodeAll config.unlimited rfl d.order d.count e
    width vs bs written (by simp [count, length]) tail (by simp [count])
  rw [Element.mapM_canonical keeps] at forms
  obtain rfl := Except.ok.inj forms
  simp only [decode, codec, Piece.data, Element.decode_of_unlimited keeps back, Except.map]

private theorem canonical_of_decode_block {b : Block} (delimited : b.isDelimited d.count = true)
    (codec : d.codec = .block b) (filled : d.isFilled [(b.decode d.count data).1] = true) :
    ∃ source, (b.decode d.count data).1.toBytes = .ok source ∧
      b.canonical d.count source = (b.decode d.count data).1 ∧
      (b = .string .terminated → 0 ∉ source) := by
  cases b with
  | base64 => cases delimited
  | string padding =>
      have value : ((Block.string padding).decode d.count data).1 =
          .ofBytes (Padded.strip padding (Padded.field d.count data)) := by
        rw [← Padded.decode_fst]
        rfl
      rw [value] at filled ⊢
      refine ⟨_, rfl, congrArg Value.ofBytes (Padded.kept_strip fun nulls n count => ?_), ?_⟩
      · subst nulls
        simpa [isFilled, isFull, codec, Option.mem_def.mp count, Value.length, Value.ofBytes]
          using filled
      · rintro ⟨⟩ null
        have other := List.mem_takeWhile_imp null
        simp at other
  | hex order =>
      obtain ⟨n, count⟩ := Option.isSome_iff_exists.mp delimited
      obtain ⟨digits, small, value⟩ : ∃ digits : List Nat, (∀ h ∈ digits, h < 16) ∧
          ((Block.hex order).decode d.count data).1 =
            .ofChars (digits.map Hexadecimal.digit) := by
        rw [count]
        exact ⟨_, fun h mem => Nibbles.lt_of_mem_halves (List.mem_of_mem_take mem), rfl⟩
      rw [value] at filled ⊢
      have length : digits.length = n := by
        simpa [isFilled, isFull, codec, count, Value.length, Value.ofChars, Text.ofChars]
          using filled
      refine ⟨_, Value.toBytes_ofChars _, ?_, ?_⟩
      · rw [count, ← length]
        exact congrArg Value.ofChars (Nibbles.kept_digits small)
      · rintro ⟨⟩

private theorem restores_of_decode_block {b : Block} (codec : d.codec = .block b)
    (delimited : d.isDelimited = true)
    (filled : d.isFilled [(b.decode d.count (d.look data)).1] = true) (rest : List Value) :
    d.Restores config (some [(b.decode d.count (d.look data)).1]) rest := by
  simp only [isDelimited, codec] at delimited
  obtain ⟨source, bytes, form, no_null⟩ := canonical_of_decode_block delimited codec filled
  have packed : d.pack ([(b.decode d.count (d.look data)).1] ++ rest) =
      .ok (⟨d, .bytes (b.encode d.count source), 0⟩, rest) := by
    simp only [pack, codec, List.singleton_append, bytes]
    rfl
  refine ⟨_, packed, fun tail => ?_⟩
  obtain ⟨size, read, -, whole⟩ :=
    @readsBack_block config d b source tail codec (.inl delimited)
  rw [form, whole delimited fun terminated _ => no_null terminated] at read
  exact read

/-- What a delimited directive answered is packed, and unpacked again. -/
theorem restores_of_decode (width : d.codec.HasWidth) (delimited : d.isDelimited = true)
    {out : Option (List Value)} {size : Nat} (read : d.decode config data = .ok (out, size))
    (present : ∀ vs ∈ out, ∀ v ∈ vs, v.isNone = false)
    (filled : ∀ vs ∈ out, d.isFilled vs = true) (rest : List Value) :
    d.Restores config out rest := by
  cases codec : d.codec with
  | ignored =>
      simp only [decode, codec, Except.ok.injEq, Prod.mk.injEq] at read
      rw [← read.1]
      refine ⟨⟨d, .bytes [], 0⟩, ?_, fun tail => ?_⟩
      · simp only [pack, codec]
        rfl
      · simp only [decode, codec]
        rfl
  | null =>
      have counts : d.count.isSome = true := by simpa only [isDelimited, codec] using delimited
      obtain ⟨n, count⟩ := Option.isSome_iff_exists.mp counts
      have nothing : out = none := by
        simp only [decode, codec, count] at read
        split at read
        · cases read
        · cases read
          rfl
      rw [nothing]
      refine ⟨⟨d, .zeros n, 0⟩, ?_, fun tail => ?_⟩
      · simp only [pack, codec, count]
        rfl
      · simp only [decode, codec, count, Piece.data, List.length_append, List.length_replicate]
        rw [if_neg (Nat.not_lt_of_le (Nat.le_add_right _ _))]
  | block b =>
      simp only [decode, codec, Except.ok.injEq, Prod.mk.injEq] at read
      rw [← read.1] at filled ⊢
      exact restores_of_decode_block codec delimited (filled _ rfl) rest
  | element e =>
      obtain ⟨vs, rfl, elements⟩ := decode_element codec read
      exact restores_of_decode_element codec width delimited elements (present vs rfl)
        (filled vs rfl) rest

end Directive

/-! ## Templates -/

variable {config : Config} {ds : List Directive}

-- A directive has a batch exactly where it has values.
private theorem isFilled_cons {d : Directive} {data : Bytes} {out : Option (List Value)}
    {size : Nat}
    {stop : Int} {more : List Batch} (first : d.decode config data = .ok (out, size))
    (filled : List.Forall₂ (fun d b => d.isFilled b.values = true)
      ((d :: ds).filter Directive.hasValues)
      ((out.map fun vs => (⟨vs, stop⟩ : Batch)).toList ++ more)) :
    (∀ vs ∈ out, d.isFilled vs = true) ∧
      List.Forall₂ (fun d b => d.isFilled b.values = true) (ds.filter Directive.hasValues) more := by
  cases has : d.hasValues with
  | true =>
      rw [List.filter_cons_of_pos has] at filled
      cases out with
      | none => exact absurd first (Directive.decode_ne_none has)
      | some vs =>
          obtain ⟨own, others⟩ := List.forall₂_cons.mp filled
          refine ⟨fun _ same => ?_, others⟩
          cases same
          exact own
  | false =>
      rw [List.filter_cons_of_neg (by simp [has])] at filled
      cases out with
      | none => exact ⟨nofun, filled⟩
      | some vs => exact absurd first (Directive.decode_ne_some has)

private theorem packPieces_of_readBatches (widths : ∀ d ∈ ds, d.codec.HasWidth)
    (delimited : ∀ d ∈ ds, d.isDelimited = true) :
    ∀ {start stop : Nat} {data : Bytes} {batches : List Batch},
      readBatches config start data ds = .ok (batches, stop) →
      (∀ b ∈ batches, ∀ v ∈ b.values, v.isNone = false) →
      List.Forall₂ (fun d b => d.isFilled b.values = true) (ds.filter Directive.hasValues)
        batches →
        ∃ bs, packPieces (batches.flatMap Batch.values) ds = .ok (bs, []) ∧
          ∀ again : Nat, ∃ batches' stop', readBatches config again bs ds = .ok (batches', stop') ∧
            batches'.map Batch.values = batches.map Batch.values := by
  induction ds with
  | nil =>
      intro start stop data batches read _ _
      cases read
      exact ⟨[], rfl, fun again => ⟨[], again, rfl, rfl⟩⟩
  | cons d ds ih =>
      intro start stop data batches read present filled
      obtain ⟨out, size, more, first, later, rfl⟩ := readBatches_cons_eq_ok_iff.mp read
      have values : ((out.map fun vs => (⟨vs, (start + size : Nat)⟩ : Batch)).toList ++
          more).flatMap Batch.values = out.getD [] ++ more.flatMap Batch.values := by
        cases out <;> rfl
      obtain ⟨own, others⟩ := isFilled_cons first filled
      have present_own : ∀ vs ∈ out, ∀ v ∈ vs, v.isNone = false := by
        rintro vs rfl
        exact present ⟨vs, (start + size : Nat)⟩ (by simp)
      obtain ⟨o, packed, back⟩ := Directive.restores_of_decode (widths d (by simp))
        (delimited d (by simp)) first present_own own (more.flatMap Batch.values)
      obtain ⟨bs, pieces, again⟩ := ih (fun d mem => widths d (by simp [mem]))
        (fun d mem => delimited d (by simp [mem])) later
        (fun b mem => present b (List.mem_append_right _ mem)) others
      refine ⟨o.piece.data ++ bs, ?_, fun position => ?_⟩
      · rw [values]
        simp only [packPieces, packed, pieces]
      · obtain ⟨batches', stop', reread, same⟩ := again (position + o.piece.data.length)
        refine ⟨_, stop', readBatches_cons_eq_ok_iff.mpr
          ⟨out, _, batches', back bs, by rw [List.drop_left, reread], rfl⟩, ?_⟩
        rw [List.map_append, List.map_append, same]
        cases out <;> rfl

/-- Values that a template of delimited directives was answered with, none of them missing and all
in full, are packed and unpacked as they are, as far as packed data may be long. -/
theorem unpack_packText_unpack {t : Text} (parsed : Template.parse config t = .ok ds)
    (delimited : ∀ d ∈ ds, d.isDelimited = true) {data : Bytes} {batches : List Batch}
    (unpacked : unpackBatches config data t = .ok batches)
    (present : ∀ b ∈ batches, ∀ v ∈ b.values, v.isNone = false)
    (filled : List.Forall₂ (fun d b => d.isFilled b.values = true)
      (ds.filter Directive.hasValues) batches) :
    ∃ values bs, unpack config data t = .ok values ∧
      (packText config values t = if bs.length ≤ maxSize then .ok bs else .error .lengthOutOfRange) ∧
        unpack config bs t = .ok values := by
  obtain ⟨ds', stop, parsed', read⟩ := Template.readBatches_of_unpackBatches unpacked
  obtain rfl : ds = ds' := Except.ok.inj (parsed.symm.trans parsed')
  obtain ⟨bs, pieces, again⟩ :=
    packPieces_of_readBatches (Template.hasWidth_of_parse parsed) delimited read present filled
  obtain ⟨batches', stop', reread, same⟩ := again 0
  refine ⟨batches.flatMap Batch.values, bs, ?_, ?_, ?_⟩
  · rw [unpack, unpacked]
    rfl
  · exact Template.packText_of_packPieces parsed pieces
  · rw [unpack, Template.unpackBatches_of_parse parsed, reread]
    refine congrArg Except.ok ?_
    change batches'.flatMap Batch.values = batches.flatMap Batch.values
    rw [List.flatMap_def, List.flatMap_def, same]

theorem unpack_packText_unpack_lossy :
    ∃ values, unpack .default [0x41, 0x20, 0x09, 0x01, 0x00, 0xA0, 0xFF, 0x1F, 0x07, 0x68]
        (Text.ofChars ['A', '3', 'f', 'h', '1', 'x', 'Z', '*']) = .ok values ∧
      packText .default values (Text.ofChars ['A', '3', 'f', 'h', '1', 'x', 'Z', '*']) =
        .ok [0x41, 0x20, 0x20, 0x01, 0x00, 0xE0, 0xFF, 0x0F, 0x00, 0x68, 0x00] ∧
      unpack .default [0x41, 0x20, 0x20, 0x01, 0x00, 0xE0, 0xFF, 0x0F, 0x00, 0x68, 0x00]
        (Text.ofChars ['A', '3', 'f', 'h', '1', 'x', 'Z', '*']) = .ok values := by
  obtain ⟨values, bs, read, packed, reread⟩ := @unpack_packText_unpack .default _
    (Text.ofChars ['A', '3', 'f', 'h', '1', 'x', 'Z', '*']) rfl (by decide)
    [0x41, 0x20, 0x09, 0x01, 0x00, 0xA0, 0xFF, 0x1F, 0x07, 0x68] _ rfl (by decide) (by decide)
  have written : packText .default values
        (Text.ofChars ['A', '3', 'f', 'h', '1', 'x', 'Z', '*']) =
      .ok [0x41, 0x20, 0x20, 0x01, 0x00, 0xE0, 0xFF, 0x0F, 0x00, 0x68, 0x00] := by
    rw [← Except.ok.inj read]
    rfl
  rw [written] at packed
  split at packed
  · obtain rfl := Except.ok.inj packed
    exact ⟨values, read, written, reread⟩
  · cases packed

end ByteTemplate
