import Mathlib.Data.List.Forall2
import ByteTemplate.Proofs.RoundTrip

/-!
# Packing what was unpacked

A lossless directive reads values that still say which bytes they were read from.  Where a
template of such directives has been read in full, packing the values gives back the bytes up to
the end of the last batch.
-/

namespace ByteTemplate

namespace Element

private theorem encodeAll_readElements {order : ByteOrder} {e : Element} {width : Nat}
    {decode : Bytes → Except Error Value}
    (back : ∀ bs v, bs.length = width → decode bs = .ok v → e.encode order v = .ok bs) :
    ∀ {limit : Nat} {data : Bytes} {vs : List Value},
      readElements width decode limit data = .ok vs →
        e.encodeAll order vs = .ok (data.take (width * vs.length)) := by
  intro limit
  induction limit with
  | zero =>
      intro data vs h
      cases h
      rfl
  | succ limit ih =>
      intro data vs h
      rcases readElements_succ_eq_ok h with ⟨-, rfl⟩ | ⟨v, more, enough, first, rest, rfl⟩
      · rfl
      · have one := back _ v (List.length_take_of_le enough) first
        rw [encodeAll_cons_of_ok one (ih rest), ← List.take_add, List.length_cons, Nat.mul_succ,
          Nat.add_comm]

theorem encode_codepoint_of_lt {order : ByteOrder} {n : Nat} (h : n < Codepoint.bound) :
    codepoint.encode order (.int n) = .ok (Codepoint.bytes n) := by
  -- A bound of this size is not to be unfolded: the encoder of the number stays a variable.
  have number : ∀ f : Int → Except Error Bytes, (Value.int n).toInt.bind f = f n := fun _ => rfl
  exact (number Codepoint.encode).trans (Codepoint.encode_of_lt h)

private theorem encodeAll_readCodepoints {order : ByteOrder} :
    ∀ {limit : Nat} {data : Bytes} {vs : List Value} {size : Nat},
      readCodepoints limit data = .ok (vs, size) →
        codepoint.encodeAll order vs = .ok (data.take size) := by
  intro limit
  induction limit with
  | zero =>
      intro data vs size h
      cases h
      rfl
  | succ limit ih =>
      intro data vs size h
      rcases readCodepoints_succ_eq_ok h with
        ⟨rfl, rfl, rfl⟩ | ⟨n, k, more, rest, first, others, rfl, rfl⟩
      · rfl
      · obtain ⟨small, bytes⟩ := Codepoint.bytes_of_decode first
        have window := Codepoint.size_le_of_decode first
        rw [List.length_take] at window
        rw [List.take_take, Nat.min_eq_left (by omega)] at bytes
        have one := @encode_codepoint_of_lt order n small
        rw [bytes] at one
        rw [encodeAll_cons_of_ok one (ih others), List.take_add]

theorem encodeAll_decodeFixed {order : ByteOrder} {e : Element} {width : Nat}
    {decode : Bytes → Except Error Value} {count : Option Nat} {data : Bytes} {vs : List Value}
    {size : Nat}
    (back : ∀ bs v, bs.length = width → decode bs = .ok v → e.encode order v = .ok bs)
    (read : decodeFixed width decode count data = .ok (vs, size))
    (present : ∀ v ∈ vs, v.isNone = false) :
    e.encodeAll order vs = .ok (data.take size) := by
  obtain ⟨elements, rfl, -⟩ := decodeFixed_eq_ok_of_present read present
  exact encodeAll_readElements back elements

private theorem encodeAll_of_decode {config : Config} {order : ByteOrder} {count : Option Nat}
    {data : Bytes} {e : Element} {vs : List Value} {size : Nat} (keeps : e ≠ .float .single)
    (read : e.decode config order count data = .ok (vs, size))
    (present : ∀ v ∈ vs, v.isNone = false) :
    e.encodeAll order vs = .ok (data.take size) := by
  cases e with
  | integer signed width =>
      refine encodeAll_decodeFixed (fun bs v length value => ?_) read present
      rw [(Integer.of_map_decodeWithin value).1, ← length]
      exact congrArg Except.ok (Integer.encode_decode signed order bs)
  | float precision =>
      cases precision with
      | single => exact absurd rfl keeps
      | double =>
          refine encodeAll_decodeFixed (fun bs v length value => ?_) read present
          rw [← Except.ok.inj value]
          exact congrArg Except.ok (Real.encode_decode_double length)
  | codepoint => exact encodeAll_readCodepoints read

end Element

/-! ## Strings -/

def Value.length : Value → Nat
  | .bytes _ bs => bs.length
  | .text t => t.length
  | _ => 0

namespace Nibbles

theorem encode_decode {order : NibbleOrder} {count : Option Nat} {data : Bytes}
    {digits : List Char} {size : Nat}
    (read : decode order (count.map Int.ofNat) data = (digits, size))
    (even : ∀ n ∈ count, n % 2 = 0) (full : ∀ n ∈ count, digits.length = n) :
    encode order (count.map Int.ofNat) (Text.utf8OfChars digits) = data.take size := by
  have halves := decode_of_full read even full
  have source := map_digitValue_utf8OfChars fun _ => @lt_of_mem_halves order (data.take size) _
  rw [← halves] at source
  refine encode_of_digits source fun n count => ?_
  have same := congrArg List.length source
  rw [List.length_map] at same
  rw [same, ← full n count, halves, List.length_map]

end Nibbles

namespace Directive

/-- Whether the values of a directive say all that its bytes do. -/
def isLossless (d : Directive) : Bool :=
  match d.codec with
  | .element (.float .single) => false
  | .element _ | .block (.string .nulls) => true
  | .block (.hex _) => d.count.all fun n => n % 2 == 0
  | _ => false

/-- Whether a directive with a count was answered in full. -/
def isFull (d : Directive) (vs : List Value) : Bool :=
  match d.count, d.codec with
  | none, _ => true
  | some n, .block _ => vs.all fun v => v.length == n
  | some n, _ => vs.length == n

variable {config : Config} {d : Directive} {data : Bytes} {vs rest : List Value} {size : Nat}

theorem hasValues_of_isLossless (h : d.isLossless = true) : d.hasValues = true := by
  unfold isLossless at h
  unfold hasValues
  cases codec : d.codec <;> simp_all

private theorem eq_nil_of_count_none {ds : List Directive} (h : d.isLossless = true)
    (all : d.count = none)
    (last : d.isDelimited = true ∨ d.hasValues = true ∧ ds = []) : ds = [] := by
  refine (last.resolve_left fun shows => ?_).2
  unfold isLossless at h
  unfold isDelimited at shows
  split at h
  · cases h
  · simp_all
  · simp_all [Block.isDelimited]
  · simp_all [Block.isDelimited]
  · cases h

private theorem count_of_isFull {v : Value} {b : Block} (codec : d.codec = .block b)
    (full : d.isFull [v] = true) : ∀ n ∈ d.count, v.length = n := by
  intro n count
  simpa [isFull, codec, Option.mem_def.mp count] using full

private theorem take_look {k : Nat} (h : k ≤ (d.look data).length) :
    (d.look data).take k = data.take (min k data.length) := by
  cases sized : d.byteSize with
  | none =>
      simp only [look, sized] at h ⊢
      rw [Nat.min_eq_left h]
  | some n =>
      simp only [look, sized, List.length_take] at h ⊢
      rw [List.take_take, Nat.min_eq_left (by omega), Nat.min_eq_left (by omega)]

private theorem encode_of_decode_block {b : Block} {v : Value} (codec : d.codec = .block b)
    (lossless : d.isLossless = true) (read : d.decode config data = .ok (some [v], size))
    (full : d.isFull [v] = true) :
    ∃ source, v.toBytes = .ok source ∧ b.encode d.count source = data.take size := by
  have length := count_of_isFull codec full
  simp only [decode, codec, Except.ok.injEq, Prod.mk.injEq, Option.some.injEq, List.cons.injEq,
    and_true] at read
  obtain ⟨rfl, rfl⟩ := read
  have bound := Block.size_decode_le d.count (d.look data) b
  have within : (b.decode d.count (d.look data)).2.toNat ≤ (d.look data).length := by omega
  rw [← take_look within]
  cases b with
  | base64 => simp [isLossless, codec] at lossless
  | string padding =>
      obtain rfl : padding = .nulls := by cases padding <;> simp [isLossless, codec] at lossless ⊢
      cases field : Padded.decode .nulls (d.count.map Int.ofNat) (d.look data) with
      | mk bs size =>
          simp only [Block.decode, field] at length ⊢
          exact ⟨bs, rfl, Padded.encode_decode_nulls field length⟩
  | hex order =>
      have even : ∀ n ∈ d.count, n % 2 = 0 := by
        intro n count
        simpa [isLossless, codec, Option.mem_def.mp count] using lossless
      cases field : Nibbles.decode order (d.count.map Int.ofNat) (d.look data) with
      | mk digits size =>
          have filled : ∀ n ∈ d.count, digits.length = n := by
            simpa [Block.decode, field, Value.length, Value.ofChars, Text.ofChars] using length
          simp only [Block.decode, field]
          refine ⟨Text.utf8OfChars digits, Value.toBytes_ofChars digits, ?_⟩
          rw [Int.toNat_natCast]
          exact Nibbles.encode_decode field even filled

private theorem pack_of_decode (lossless : d.isLossless = true)
    (read : d.decode config data = .ok (some vs, size)) (present : ∀ v ∈ vs, v.isNone = false)
    (full : d.isFull vs = true) (last : d.count = none → rest = []) :
    ∃ o, d.pack (vs ++ rest) = .ok (o, rest) ∧ o.piece.data = data.take size := by
  cases codec : d.codec with
  | ignored => simp [isLossless, codec] at lossless
  | null => simp [isLossless, codec] at lossless
  | block b =>
      obtain ⟨v, rfl⟩ : ∃ v, vs = [v] := by
        simp only [decode, codec, Except.ok.injEq, Prod.mk.injEq, Option.some.injEq] at read
        exact ⟨_, read.1.symm⟩
      obtain ⟨source, bytes, back⟩ := encode_of_decode_block codec lossless read full
      refine ⟨⟨d, .bytes (b.encode d.count source), 0⟩, ?_, back⟩
      simp only [pack, codec, List.singleton_append, bytes]
      rfl
  | element e =>
      have keeps : e ≠ .float .single := by
        rintro rfl
        simp [isLossless, codec] at lossless
      obtain ⟨_, same, elements⟩ := decode_element codec read
      obtain rfl := Option.some.inj same
      have written := Element.encodeAll_of_decode keeps elements present
      have wanted : d.count.getD (vs ++ rest).length = vs.length := by
        cases count : d.count with
        | none => simp [last count]
        | some n =>
            have length : vs.length = n := by simpa [isFull, codec, count] using full
            rw [Option.getD_some, length]
      refine ⟨⟨d, .bytes (data.take size), vs.length - (vs ++ rest).length⟩, ?_, rfl⟩
      simp only [pack, codec, wanted]
      rw [List.take_left' rfl, List.drop_left' rfl, written]
      rfl

end Directive

/-! ## Templates -/

variable {config : Config} {ds : List Directive}

def lastStop (start : Int) (batches : List Batch) : Int :=
  (batches.getLast?.map Batch.stop).getD start

private theorem lastStop_cons (start : Int) (b : Batch) (batches : List Batch) :
    lastStop start (b :: batches) = lastStop b.stop batches := by
  cases batches <;> simp [lastStop, List.getLast?_cons]

private theorem lastStop_of_readBatches (values : ∀ d ∈ ds, d.hasValues = true) :
    ∀ {start stop : Nat} {data : Bytes} {batches : List Batch},
      readBatches config start data ds = .ok (batches, stop) → lastStop start batches = stop := by
  induction ds with
  | nil =>
      intro start stop data batches read
      cases read
      rfl
  | cons d ds ih =>
      intro start stop data batches read
      obtain ⟨vs, size, rest, -, more, rfl⟩ := readBatches_cons_of_hasValues (values d (by simp)) read
      rw [lastStop_cons]
      exact ih (fun d mem => values d (by simp [mem])) more

private theorem packPieces_readBatches (lossless : ∀ d ∈ ds, d.isLossless = true)
    (readable : areReadable ds = true) :
    ∀ {start stop : Nat} {data : Bytes} {batches : List Batch},
      readBatches config start data ds = .ok (batches, stop) →
      (∀ b ∈ batches, ∀ v ∈ b.values, v.isNone = false) →
      List.Forall₂ (fun d b => d.isFull b.values = true) ds batches →
        packPieces (batches.flatMap Batch.values) ds = .ok (data.take (stop - start), []) := by
  induction ds with
  | nil =>
      intro start stop data batches read _ _
      cases read
      simp [packPieces]
  | cons d ds ih =>
      intro start stop data batches read present full
      have keeps := lossless d (by simp)
      obtain ⟨last, others⟩ := areReadable_cons readable
      obtain ⟨vs, size, rest, first, more, rfl⟩ :=
        readBatches_cons_of_hasValues (Directive.hasValues_of_isLossless keeps) read
      obtain ⟨full, fulls⟩ := List.forall₂_cons.mp full
      -- A directive without a count takes the values of all others too: there are none.
      have nothing_left : d.count = none → rest.flatMap Batch.values = [] := by
        intro all
        obtain rfl := Directive.eq_nil_of_count_none keeps all last
        cases more
        rfl
      obtain ⟨o, packed, data_eq⟩ := Directive.pack_of_decode keeps first
        (present _ List.mem_cons_self) full nothing_left
      have tail := ih (fun d mem => lossless d (by simp [mem])) others more
        (fun b mem => present b (by simp [mem])) fulls
      have bounds := readBatches_bounds more
      have length : stop - start = size + (stop - (start + size)) := by omega
      rw [List.flatMap_cons, packPieces]
      simp only [packed, tail, data_eq]
      rw [length, List.take_add]

/-- Packing the values that a template of lossless directives was answered with gives the data up to
the end of the last batch, as far as packed data may be long. -/
theorem packText_unpack {t : Text} (parsed : Template.parse config t = .ok ds)
    (lossless : ∀ d ∈ ds, d.isLossless = true) (readable : areReadable ds = true) {data : Bytes}
    {batches : List Batch} (unpacked : unpackBatches config data t = .ok batches)
    (present : ∀ b ∈ batches, ∀ v ∈ b.values, v.isNone = false)
    (full : List.Forall₂ (fun d b => d.isFull b.values = true) ds batches) :
    ∃ values, unpack config data t = .ok values ∧
      packText config values t =
        if (lastStop 0 batches).toNat ≤ maxSize then .ok (data.take (lastStop 0 batches).toNat)
        else .error .lengthOutOfRange := by
  obtain ⟨ds', stop, parsed', read⟩ := Template.readBatches_of_unpackBatches unpacked
  obtain rfl : ds = ds' := Except.ok.inj (parsed.symm.trans parsed')
  have values : ∀ d ∈ ds, d.hasValues = true := fun d mem =>
    Directive.hasValues_of_isLossless (lossless d mem)
  have ends : (lastStop 0 batches).toNat = stop := by
    rw [show lastStop 0 batches = stop from lastStop_of_readBatches values read, Int.toNat_natCast]
  have bounds := readBatches_bounds read
  have length : (data.take stop).length = stop := List.length_take_of_le (by omega)
  have packed := packPieces_readBatches lossless readable read present full
  rw [Nat.sub_zero] at packed
  refine ⟨batches.flatMap Batch.values, by rw [unpack, unpacked]; rfl, ?_⟩
  rw [Template.packText_of_packPieces parsed packed, length, ends]

theorem packText_unpack_mixed :
    ∃ values,
      unpack .default [0xFF, 0xC3, 0xA9, 0x41, 0x61, 0x00, 0x5A, 1, 2, 3, 4, 5]
          (Text.ofChars ['c', ' ', 'U', '2', 'a', '2', 'h', '2', 'n', '*']) = .ok values ∧
        packText .default values
          (Text.ofChars ['c', ' ', 'U', '2', 'a', '2', 'h', '2', 'n', '*']) =
            .ok [0xFF, 0xC3, 0xA9, 0x41, 0x61, 0x00, 0x5A, 1, 2, 3, 4] :=
  @packText_unpack .default _ (Text.ofChars ['c', ' ', 'U', '2', 'a', '2', 'h', '2', 'n', '*'])
    rfl (by decide) rfl [0xFF, 0xC3, 0xA9, 0x41, 0x61, 0x00, 0x5A, 1, 2, 3, 4, 5] _ rfl
    (by decide) (by decide)

end ByteTemplate
