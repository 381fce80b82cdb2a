import ByteTemplate.Proofs.Codec.Padded
import ByteTemplate.Proofs.Elements

/-!
# Sizes of packed data

A directive of known size writes as many bytes where there are values for it, and reads as many
where there is data for it.
-/

namespace ByteTemplate

namespace Directive

variable {d : Directive} {n : Nat}

theorem byteSize_of_size (h : d.size = .ok n) : d.byteSize = some n := by
  unfold size at h
  split at h
  · next k _ sized =>
      cases h
      exact sized
  all_goals cases h

theorem element_of_byteSize {e : Element} (codec : d.codec = .element e)
    (sized : d.byteSize = some n) :
    e ≠ .codepoint ∧ ∃ k, d.count = some k ∧ n = (Codec.element e).width * k := by
  cases count : d.count with
  | none => cases e <;> simp [byteSize, codec, count] at sized
  | some k =>
      cases e with
      | codepoint => simp [byteSize, codec] at sized
      | _ =>
          simp only [byteSize, codec, count, Option.some.injEq] at sized
          exact ⟨by simp, k, rfl, sized.symm⟩

def takesAll (d : Directive) : Bool :=
  match d.codec with
  | .element _ => d.count.isNone
  | _ => false

private theorem takesAll_of_byteSize (sized : d.byteSize = some n) : d.takesAll = false := by
  cases codec : d.codec with
  | element e =>
      obtain ⟨-, k, count, -⟩ := element_of_byteSize codec sized
      simp only [takesAll, codec, count, Option.isNone_some]
  | _ => simp only [takesAll, codec]

theorem demand_of_takesAll (h : d.takesAll = true) (available : Nat) :
    d.demand available = available := by
  cases codec : d.codec with
  | element e =>
      cases count : d.count with
      | none => simp only [demand, codec, count, Option.getD_none]
      | some n => simp [takesAll, codec, count] at h
  | _ => simp [takesAll, codec] at h

theorem demand_of_not_takesAll (h : d.takesAll = false) (available : Nat) :
    d.demand available = d.demand 0 := by
  cases codec : d.codec with
  | element e =>
      cases count : d.count with
      | none => simp [takesAll, codec, count] at h
      | some n => simp only [demand, codec, count, Option.getD_some]
  | _ => simp only [demand, codec]

theorem eq_drop_of_pack {values rest : List Value} {o : Output}
    (packed : d.pack values = .ok (o, rest)) : rest = values.drop (d.demand values.length) := by
  cases codec : d.codec with
  | element e =>
      obtain ⟨-, -, -, rfl⟩ := pack_element codec packed
      rfl
  | block b =>
      cases values with
      | nil =>
          simp only [pack, codec, Except.ok.injEq, Prod.mk.injEq] at packed
          simp [packed.2.symm]
      | cons v vs =>
          have one : d.demand (v :: vs).length = 1 := by simp only [demand, codec]
          obtain ⟨v, source, taken, -⟩ := pack_block codec (by rw [one]; simp) packed
          rw [one]
          exact (List.cons.inj taken).2.symm
  | _ =>
      simp only [pack, codec, Except.ok.injEq, Prod.mk.injEq] at packed
      simp only [demand, codec, List.drop_zero, packed.2]

theorem eq_drop_of_not_takesAll {values rest : List Value} {o : Output}
    (counts : d.takesAll = false) (packed : d.pack values = .ok (o, rest)) :
    rest = values.drop (d.demand 0) := by
  rw [eq_drop_of_pack packed, demand_of_not_takesAll counts]

end Directive

theorem packPieces_suffix {ds : List Directive} :
    ∀ {values rest : List Value} {bs : Bytes},
      packPieces values ds = .ok (bs, rest) → rest <:+ values := by
  induction ds with
  | nil =>
      intro values rest bs packed
      cases packed
      exact List.suffix_rfl
  | cons d ds ih =>
      intro values rest bs packed
      obtain ⟨o, left, tail, one, more, -⟩ := packPieces_cons packed
      rw [Directive.eq_drop_of_pack one] at more
      exact (ih more).trans (List.drop_suffix _ _)

/-! ## Written -/

theorem Element.length_encodeAll {order : ByteOrder} {e : Element} (fixed : e ≠ .codepoint)
    {vs : List Value} : ∀ {bs : Bytes}, e.encodeAll order vs = .ok bs →
      bs.length = (Codec.element e).width * vs.length := by
  induction vs with
  | nil =>
      intro bs h
      cases h
      rfl
  | cons v vs ih =>
      intro bs h
      obtain ⟨first, rest, one, more, rfl⟩ := Element.encodeAll_cons h
      have size : first.length = (Codec.element e).width := by
        cases e with
        | integer signed width =>
            obtain ⟨n, -, rfl⟩ := Element.encode_integer one
            exact Integer.length_encode _ _ _
        | float precision =>
            obtain ⟨x, -, rfl⟩ := Element.encode_float one
            exact Real.length_encode _ _ _
        | codepoint => exact absurd rfl fixed
      rw [List.length_append, size, ih more, List.length_cons, Nat.mul_succ, Nat.add_comm]

private theorem Directive.length_encode_block {d : Directive} {b : Block} {n : Nat}
    (codec : d.codec = .block b) (sized : d.byteSize = some n) (source : Bytes) :
    (b.encode d.count source).length = n := by
  cases count : d.count with
  | none => cases b <;> simp [byteSize, codec, count] at sized
  | some k =>
      cases b with
      | string padding =>
          simp only [byteSize, codec, count, Option.some.injEq] at sized
          rw [← sized]
          exact Padded.length_encode _ _ _
      | hex order =>
          simp only [byteSize, codec, count, Option.some.injEq] at sized
          rw [← sized]
          exact Nibbles.length_encode _ _ _
      | base64 => simp [byteSize, codec] at sized

theorem Directive.length_pack {d : Directive} {n : Nat} {values rest : List Value} {o : Output}
    (sized : d.byteSize = some n) (enough : d.demand values.length ≤ values.length)
    (packed : d.pack values = .ok (o, rest)) : o.piece.data.length = n := by
  cases codec : d.codec with
  | ignored =>
      simp only [byteSize, codec, Option.some.injEq] at sized
      simp only [pack, codec, Except.ok.injEq, Prod.mk.injEq] at packed
      rw [← packed.1, ← sized]
      rfl
  | null =>
      cases count : d.count with
      | none => simp [byteSize, codec, count] at sized
      | some k =>
          simp only [byteSize, codec, count, Option.some.injEq] at sized
          simp only [pack, codec, count, Except.ok.injEq, Prod.mk.injEq] at packed
          rw [← packed.1, ← sized]
          simp [Piece.data]
  | block b =>
      obtain ⟨v, source, -, -, piece⟩ := pack_block codec enough packed
      rw [piece]
      exact length_encode_block codec sized source
  | element e =>
      obtain ⟨bs, written, piece, -⟩ := pack_element codec packed
      obtain ⟨fixed, k, count, rfl⟩ := element_of_byteSize codec sized
      have wanted : d.demand values.length = k := by
        simp only [demand, codec, count, Option.getD_some]
      have taken : (values.take (d.demand values.length)).length = k := by
        rw [List.length_take, Nat.min_eq_left enough, wanted]
      rw [piece]
      exact (Element.length_encodeAll fixed written).trans (by rw [taken])

theorem Directive.length_pack_one {d : Directive} {n : Nat} {v : Value} {values rest : List Value}
    {o : Output} (has : d.hasValues = true)
    (single : ∀ e, d.codec = .element e → d.count = some 1) (sized : d.byteSize = some n)
    (packed : d.pack (v :: values) = .ok (o, rest)) : o.piece.data.length = n := by
  refine Directive.length_pack sized ?_ packed
  rw [Directive.demand_eq_one has single]
  simp

theorem totalSize_cons {d : Directive} {ds : List Directive} {n : Nat}
    (h : totalSize (d :: ds) = .ok n) :
    ∃ k m, d.byteSize = some k ∧ totalSize ds = .ok m ∧ n = k + m := by
  simp only [totalSize] at h
  cases first : d.size with
  | error e => simp [first, bind, Except.bind] at h
  | ok k =>
      cases rest : totalSize ds with
      | error e => simp [first, rest, bind, Except.bind] at h
      | ok m =>
          simp only [first, rest, bind, Except.bind, Except.ok.injEq] at h
          exact ⟨k, m, Directive.byteSize_of_size first, rfl, h.symm⟩

theorem length_packPieces {ds : List Directive} :
    ∀ {n : Nat} {values rest : List Value} {bs : Bytes}, totalSize ds = .ok n →
      totalDemand ds ≤ values.length →
        packPieces values ds = .ok (bs, rest) → bs.length = n := by
  induction ds with
  | nil =>
      intro n values rest bs total _ packed
      cases total
      cases packed
      rfl
  | cons d ds ih =>
      intro n values rest bs total enough packed
      obtain ⟨k, m, sized, others, rfl⟩ := totalSize_cons total
      obtain ⟨o, left, tail, one, more, rfl⟩ := packPieces_cons packed
      rw [totalDemand] at enough
      have counts := Directive.takesAll_of_byteSize sized
      have wanted := Directive.demand_of_not_takesAll counts values.length
      have size := Directive.length_pack sized (by rw [wanted]; omega) one
      have remaining : left.length = values.length - d.demand 0 := by
        rw [Directive.eq_drop_of_not_takesAll counts one, List.length_drop]
      rw [List.length_append, size, ih others (by rw [remaining]; omega) more]

/-! ## Read -/

section

variable {width k size : Nat} {decode : Bytes → Except Error Value} {data : Bytes}
  {vs : List Value}

private theorem readElements_take (width : Nat) (decode : Bytes → Except Error Value)
    (limit : Nat) :
    ∀ {k : Nat} (data : Bytes), width * limit ≤ k →
      readElements width decode limit (data.take k) = readElements width decode limit data := by
  induction limit with
  | zero => exact fun _ _ => rfl
  | succ limit ih =>
      intro k data within
      rw [Nat.mul_succ] at within
      have first : (data.take k).take width = data.take width := by
        rw [List.take_take, Nat.min_eq_left (by omega)]
      have rest : (data.take k).drop width = (data.drop width).take (k - width) := List.drop_take
      simp only [readElements, first, rest, ih (data.drop width) (show _ ≤ k - width by omega)]

theorem length_readElements : ∀ {limit : Nat} {data : Bytes} {vs : List Value},
    width * limit ≤ data.length → readElements width decode limit data = .ok vs →
      vs.length = limit := by
  intro limit
  induction limit with
  | zero =>
      intro data vs _ read
      cases read
      rfl
  | succ limit ih =>
      intro data vs enough read
      rw [Nat.mul_succ] at enough
      rcases readElements_succ_eq_ok read with ⟨short, -⟩ | ⟨v, more, -, -, rest, rfl⟩
      · omega
      · rw [List.length_cons, ih (by rw [List.length_drop]; omega) rest]

theorem decodeFixed_of_enough (enough : width * k ≤ data.length)
    (read : decodeFixed width decode (some k) data = .ok (vs, size)) :
    size = width * k ∧ vs.length = k ∧ ∀ v ∈ vs, ∃ bs, bs.length = width ∧ decode bs = .ok v := by
  obtain ⟨found, elements, rfl, rfl⟩ := decodeFixed_eq_ok read
  have length : found.length = k := length_readElements enough elements
  have none_missing : k - found.length = 0 := by rw [length, Nat.sub_self]
  rw [Option.getD_some, none_missing, List.replicate_zero, List.append_nil, length]
  exact ⟨rfl, rfl, (exists_of_mem_readElements elements).2⟩

end

namespace Element

variable {config : Config} {order : ByteOrder} {e : Element} {k : Nat} {data : Bytes}

theorem decode_of_enough (fixed : e ≠ .codepoint)
    (enough : (Codec.element e).width * k ≤ data.length) {vs : List Value} {size : Nat}
    (read : e.decode config order (some k) data = .ok (vs, size)) :
    size = (Codec.element e).width * k ∧ vs.length = k ∧ ∀ v ∈ vs, v.isNone = false := by
  cases e with
  | integer signed width =>
      obtain ⟨taken, length, sources⟩ := decodeFixed_of_enough enough read
      refine ⟨taken, length, fun v mem => ?_⟩
      obtain ⟨bs, -, value⟩ := sources v mem
      rw [(Integer.of_map_decodeWithin value).1]
      rfl
  | float precision =>
      obtain ⟨taken, length, sources⟩ := decodeFixed_of_enough enough read
      refine ⟨taken, length, fun v mem => ?_⟩
      obtain ⟨bs, -, value⟩ := sources v mem
      rw [← Except.ok.inj value]
      rfl
  | codepoint => exact absurd rfl fixed

theorem decode_take (fixed : e ≠ .codepoint) {j : Nat}
    (within : (Codec.element e).width * k ≤ j) (data : Bytes) :
    e.decode config order (some k) (data.take j) = e.decode config order (some k) data := by
  cases e with
  | codepoint => exact absurd rfl fixed
  | _ =>
      simp only [Codec.width] at within
      simp only [decode, decodeFixed, Option.getD_some, readElements_take _ _ _ _ within]

end Element

private theorem Block.isNone_decode (count : Option Nat) (data : Bytes) (b : Block) :
    (b.decode count data).1.isNone = false := by
  cases b <;> rfl

namespace Directive

variable {config : Config} {d : Directive} {n : Nat} {data : Bytes}

private theorem size_decode_block {b : Block} (codec : d.codec = .block b)
    (sized : d.byteSize = some n)
    (data : Bytes) : (b.decode d.count (data.take n)).2 = (min n data.length : Nat) := by
  cases count : d.count with
  | none => cases b <;> simp [byteSize, codec, count] at sized
  | some k =>
      cases b with
      | string padding =>
          simp only [byteSize, codec, count, Option.some.injEq] at sized
          simp only [Block.decode, Option.map, Int.ofNat_eq_natCast, Padded.decode_some,
            List.length_take]
          omega
      | hex order =>
          simp only [byteSize, codec, count, Option.some.injEq] at sized
          simp only [Block.decode, Option.map, Nibbles.decode, Int.ofNat_eq_natCast,
            Int.toNat_natCast, List.length_take]
          omega
      | base64 => simp [byteSize, codec] at sized

theorem decode_of_block {b : Block} (codec : d.codec = .block b) (sized : d.byteSize = some n)
    (data : Bytes) :
    d.decode config data =
      .ok (some [(b.decode d.count (data.take n)).1], min n data.length) := by
  have look : d.look data = data.take n := by simp only [look, sized]
  simp only [decode, codec, look, size_decode_block codec sized, Int.toNat_natCast]
  rw [Nat.min_eq_left (Nat.min_le_right _ _)]

theorem decode_take (sized : d.byteSize = some n) {k : Nat} (within : n ≤ k) (data : Bytes) :
    d.decode config (data.take k) = d.decode config data := by
  cases codec : d.codec with
  | ignored => simp only [decode, codec]
  | null =>
      cases count : d.count with
      | none => simp [byteSize, codec, count] at sized
      | some j =>
          simp only [byteSize, codec, count, Option.some.injEq] at sized
          have same : (data.take k).length < j ↔ data.length < j := by
            rw [List.length_take]
            omega
          simp only [decode, codec, count, same]
  | block b =>
      rw [decode_of_block codec sized, decode_of_block codec sized, List.take_take,
        Nat.min_eq_left within, List.length_take]
      rw [show min n (min k data.length) = min n data.length by omega]
  | element e =>
      obtain ⟨fixed, j, count, rfl⟩ := element_of_byteSize codec sized
      simp only [decode, codec, count, Element.decode_take fixed within]

theorem size_decode_le (sized : d.byteSize = some n) {out : Option (List Value)} {size : Nat}
    (read : d.decode config data = .ok (out, size)) : size ≤ n := by
  rw [← decode_take sized (Nat.le_refl n)] at read
  have bound := size_le_of_decode read
  rw [List.length_take] at bound
  omega

theorem decode_of_enough (sized : d.byteSize = some n) (enough : n ≤ data.length)
    {out : Option (List Value)} {size : Nat} (read : d.decode config data = .ok (out, size)) :
    size = n ∧ (out.getD []).length = d.demand 0 ∧ ∀ v ∈ out.getD [], v.isNone = false := by
  cases codec : d.codec with
  | ignored =>
      simp only [byteSize, codec, Option.some.injEq] at sized
      simp only [decode, codec, Except.ok.injEq, Prod.mk.injEq] at read
      obtain ⟨rfl, rfl⟩ := read
      exact ⟨sized, by simp only [demand, codec]; rfl, by simp⟩
  | null =>
      cases count : d.count with
      | none => simp [byteSize, codec, count] at sized
      | some k =>
          simp only [byteSize, codec, count, Option.some.injEq] at sized
          simp only [decode, codec, count, if_neg (show ¬data.length < k by omega), Except.ok.injEq,
            Prod.mk.injEq] at read
          obtain ⟨rfl, rfl⟩ := read
          exact ⟨sized, by simp only [demand, codec]; rfl, by simp⟩
  | block b =>
      rw [decode_of_block codec sized] at read
      simp only [Except.ok.injEq, Prod.mk.injEq] at read
      obtain ⟨rfl, rfl⟩ := read
      refine ⟨Nat.min_eq_left enough, by simp only [demand, codec]; rfl, fun v mem => ?_⟩
      rw [List.mem_singleton.mp mem]
      exact Block.isNone_decode _ _ b
  | element e =>
      obtain ⟨fixed, k, count, rfl⟩ := element_of_byteSize codec sized
      obtain ⟨vs, rfl, elements⟩ := decode_element codec read
      rw [count] at elements
      obtain ⟨taken, length, present⟩ := Element.decode_of_enough fixed enough elements
      exact ⟨taken, by simpa only [demand, codec, count, Option.getD_some] using length, present⟩

theorem decode_of_byteSize {out : Option (List Value)} {size : Nat} (has : d.hasValues = true)
    (single : ∀ e, d.codec = .element e → d.count = some 1) (sized : d.byteSize = some n)
    (enough : n ≤ data.length) (read : d.decode config data = .ok (out, size)) :
    size = n ∧ ∃ v, out = some [v] ∧ v.isNone = false := by
  obtain ⟨taken, length, present⟩ := decode_of_enough sized enough read
  rw [demand_eq_one has single] at length
  cases out with
  | none => exact absurd read (decode_ne_none has)
  | some vs =>
      obtain ⟨v, rfl⟩ := List.length_eq_one_iff.mp length
      exact ⟨taken, v, rfl, present v (by simp)⟩

end Directive

end ByteTemplate
