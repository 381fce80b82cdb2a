import ByteTemplate.Pack

/-!
# Packing as concatenation

Packed data is the data of the directives, one piece after another, and packing fails exactly
where a directive does, where the template has a fault or where the data grows too long.
-/

namespace ByteTemplate

def Piece.data : Piece → Bytes
  | .bytes bs => bs
  | .zeros count => List.replicate count 0

def packPieces (values : List Value) : List Directive → Except Error (Bytes × List Value)
  | [] => .ok ([], values)
  | d :: ds =>
      match d.pack values with
      | .error e => .error e
      | .ok (o, rest) =>
          match packPieces rest ds with
          | .error e => .error e
          | .ok (bs, last) => .ok (o.piece.data ++ bs, last)

namespace Directive

def demand (available : Nat) (d : Directive) : Nat :=
  match d.codec with
  | .element _ => d.count.getD available
  | .block _ => 1
  | .null | .ignored => 0

variable {d : Directive} {values rest : List Value} {o : Output}

theorem pack_element {e : Element} (codec : d.codec = .element e)
    (packed : d.pack values = .ok (o, rest)) :
    ∃ bs, e.encodeAll d.order (values.take (d.demand values.length)) = .ok bs ∧
      o.piece = .bytes bs ∧ rest = values.drop (d.demand values.length) := by
  have demand : d.demand values.length = d.count.getD values.length := by
    simp only [demand, codec]
  rw [demand]
  simp only [pack, codec] at packed
  cases written : e.encodeAll d.order (values.take (d.count.getD values.length)) with
  | error fault => simp [written, bind, Except.bind] at packed
  | ok bs =>
      simp only [written, bind, Except.bind, Except.ok.injEq, Prod.mk.injEq] at packed
      obtain ⟨rfl, rfl⟩ := packed
      exact ⟨bs, rfl, rfl, rfl⟩

theorem pack_block {b : Block} (codec : d.codec = .block b)
    (enough : d.demand values.length ≤ values.length)
    (packed : d.pack values = .ok (o, rest)) :
    ∃ v source, values = v :: rest ∧ v.toBytes = .ok source ∧
      o.piece = .bytes (b.encode d.count source) := by
  simp only [demand, codec] at enough
  cases values with
  | nil => simp at enough
  | cons v vs =>
      simp only [pack, codec] at packed
      cases bytes : v.toBytes with
      | error fault => simp [bytes, bind, Except.bind] at packed
      | ok source =>
          simp only [bytes, bind, Except.bind, Except.ok.injEq, Prod.mk.injEq] at packed
          obtain ⟨rfl, rfl⟩ := packed
          exact ⟨v, source, rfl, bytes, rfl⟩

end Directive

/-- The number of values that directives take together, those that take all there are aside. -/
def totalDemand : List Directive → Nat
  | [] => 0
  | d :: ds => d.demand 0 + totalDemand ds

theorem packPieces_cons {d : Directive} {ds : List Directive} {values rest : List Value}
    {bs : Bytes} (h : packPieces values (d :: ds) = .ok (bs, rest)) :
    ∃ o left tail, d.pack values = .ok (o, left) ∧ packPieces left ds = .ok (tail, rest) ∧
      bs = o.piece.data ++ tail := by
  simp only [packPieces] at h
  cases first : d.pack values with
  | error e => simp [first] at h
  | ok result =>
      rcases result with ⟨o, left⟩
      cases more : packPieces left ds with
      | error e => simp [first, more] at h
      | ok result =>
          simp only [first, more, Except.ok.injEq, Prod.mk.injEq] at h
          obtain ⟨rfl, rfl⟩ := h
          exact ⟨o, left, result.1, rfl, more, rfl⟩

/-! ## The buffer -/

namespace Buffer

variable {b : Buffer}

theorem reserve_of_fits {size : Nat} (h : size ≤ maxSize) :
    b.reserve size = (.ok (b.grow size).storage, b.grow size) := by
  rw [reserve_of_accepted (by omega), Int.toNat_natCast]

theorem reserve_of_long {size : Nat} (h : maxSize < size) :
    b.reserve size = (.error .lengthOutOfRange, b) :=
  reserve_of_refused (by omega)

end Buffer

private theorem Output.join_of_fits {b : Buffer} {o : Output}
    (h : b.length + o.piece.data.length ≤ maxSize) :
    ∃ b', o.join b = .ok (o, b') ∧ b'.bytes = b.bytes ++ o.piece.data := by
  cases piece : o.piece with
  | bytes bs =>
      rw [piece] at h
      have grown := @Buffer.reserve_of_fits b _ h
      simp only [Piece.data] at grown
      push_cast at grown
      refine ⟨(b.grow (b.length + bs.length)).put bs [], ?_, by simp [Piece.data]⟩
      simp only [Output.join, piece, Piece.write, Buffer.write, Buffer.Source.length,
        Buffer.Source.bytes, BytesLike.length_ofBytes, BytesLike.bytes_ofBytes, grown,
        List.take_length, List.drop_length]
  | zeros count =>
      rw [piece] at h
      simp only [Piece.data, List.length_replicate] at h
      cases count with
      | zero =>
          refine ⟨b, ?_, by simp [Piece.data]⟩
          simp [Output.join, piece, Piece.write, Buffer.fill]
      | succ count =>
          have grown := @Buffer.reserve_of_fits b _ h
          rw [Int.natCast_add b.length] at grown
          refine ⟨(b.grow (b.length + (count + 1))).put (List.replicate (count + 1) 0) [], ?_,
            by simp [Piece.data]⟩
          have some_zeros : ¬((count + 1 : Nat) : Int) ≤ 0 := by omega
          simp only [Output.join, piece, Piece.write, Buffer.fill, some_zeros, if_false, grown]
          rfl

private theorem Output.join_of_long {b : Buffer} {o : Output} (within : b.length ≤ maxSize)
    (h : maxSize < b.length + o.piece.data.length) :
    o.join b = .error .lengthOutOfRange := by
  cases piece : o.piece with
  | bytes bs =>
      rw [piece] at h
      have refused := @Buffer.reserve_of_long b _ h
      rw [Int.natCast_add b.length] at refused
      simp only [Output.join, piece, Piece.write, Buffer.write, Buffer.Source.length,
        BytesLike.length_ofBytes]
      simp only [Piece.data] at refused
      rw [refused]
  | zeros count =>
      rw [piece] at h
      have some_zeros : ¬(count : Int) ≤ 0 := by
        intro none
        have zero : count = 0 := by omega
        simp only [zero, Piece.data, List.replicate_zero, List.length_nil] at h
        omega
      have refused := @Buffer.reserve_of_long b _ h
      rw [Int.natCast_add b.length] at refused
      simp only [Piece.data, List.length_replicate] at refused
      simp only [Output.join, piece, Piece.write, Buffer.fill, some_zeros, if_false]
      rw [refused]

private theorem walk_join (outputs : List Output) : ∀ {b : Buffer}, b.length ≤ maxSize →
    if b.length + (outputs.flatMap fun o => o.piece.data).length ≤ maxSize then
      ∃ b', (walk Output.join b outputs).2 = .ok b' ∧
        b'.bytes = b.bytes ++ outputs.flatMap fun o => o.piece.data
    else (walk Output.join b outputs).2 = .error .lengthOutOfRange := by
  induction outputs with
  | nil =>
      intro b within
      rw [if_pos (by simpa using within)]
      exact ⟨b, rfl, by simp⟩
  | cons o outputs ih =>
      intro b within
      rw [List.flatMap_cons, List.length_append, ← Nat.add_assoc]
      by_cases fits : b.length + o.piece.data.length ≤ maxSize
      · obtain ⟨b', joined, bytes⟩ := Output.join_of_fits fits
        have grown : b'.length = b.length + o.piece.data.length := by
          rw [← Buffer.length_bytes, bytes, List.length_append, Buffer.length_bytes]
        have rest := @ih b' (by omega)
        rw [grown] at rest
        simp only [walk, joined]
        split
        · next all =>
            rw [if_pos all] at rest
            obtain ⟨last, result, whole⟩ := rest
            exact ⟨last, result, by rw [whole, bytes, List.append_assoc]⟩
        · next long =>
            rw [if_neg long] at rest
            exact rest
      · have refused := Output.join_of_long within (Nat.lt_of_not_le fits)
        rw [if_neg (by omega)]
        simp only [walk, refused]

/-! ## Templates -/

theorem walk_pack (ds : List Directive) : ∀ values,
    match packPieces values ds with
    | .error e => (walk Directive.pack values ds).2 = .error e
    | .ok (bs, rest) =>
        (walk Directive.pack values ds).2 = .ok rest ∧
          (walk Directive.pack values ds).1.flatMap (fun o => o.piece.data) = bs := by
  induction ds with
  | nil => exact fun _ => ⟨rfl, rfl⟩
  | cons d ds ih =>
      intro values
      simp only [walk, packPieces]
      cases first : d.pack values with
      | error e => rfl
      | ok result =>
          rcases result with ⟨o, rest⟩
          have others := ih rest
          simp only
          cases more : packPieces rest ds with
          | error e =>
              rw [more] at others
              exact others
          | ok result =>
              rw [more] at others
              exact ⟨others.1, by rw [List.flatMap_cons, others.2]⟩

/-- The data of the directives of a template up to the first that fails. -/
def written (config : Config) (values : List Value) (t : Text) : Bytes :=
  (walk Directive.pack values (Template.read config t).directives).1.flatMap fun o => o.piece.data

theorem Packing.rest_eq_ok_iff {config : Config} {values left : List Value} {t : Text} :
    (run config values t).rest = .ok left ↔
      (Template.read config t).fault = none ∧
        packPieces values (Template.read config t).directives =
          .ok (written config values t, left) := by
  have walked := walk_pack (Template.read config t).directives values
  simp only [run, written]
  cases packed : packPieces values (Template.read config t).directives with
  | error e =>
      rw [packed] at walked
      simp only [walked]
      simp
  | ok result =>
      rw [packed] at walked
      obtain ⟨last, data⟩ := walked
      simp only [last, data]
      cases (Template.read config t).fault with
      | some e => simp
      | none =>
          rcases result with ⟨bs, rest⟩
          simp

/-- Packing answers the data written to the end, or the first failure; data that is too long comes
before every other failure. -/
theorem packText_eq (config : Config) (values : List Value) (t : Text) :
    packText config values t =
      if (written config values t).length ≤ maxSize then
        (Packing.run config values t).rest.map fun _ => written config values t
      else .error .lengthOutOfRange := by
  have joined := @walk_join (walk Directive.pack values (Template.read config t).directives).1
    Buffer.empty (Nat.zero_le _)
  have empty : Buffer.empty.length = 0 := rfl
  rw [empty, Nat.zero_add, ← written] at joined
  simp only [packText, Packing.result]
  by_cases fits : (written config values t).length ≤ maxSize
  · rw [if_pos fits] at joined ⊢
    obtain ⟨b, result, bytes⟩ := joined
    have data : (Packing.run config values t).data = .ok b := result
    have same : b.bytes = written config values t := bytes
    rw [data]
    cases (Packing.run config values t).rest with
    | error e => rfl
    | ok rest => exact congrArg Except.ok same
  · rw [if_neg fits] at joined ⊢
    have data : (Packing.run config values t).data = .error .lengthOutOfRange := joined
    rw [data]

theorem packText_congr {config config' : Config} {values : List Value} {t t' : Text}
    (fault : (Template.read config' t').fault = (Template.read config t).fault)
    (data : written config' values t' = written config values t)
    (last : (walk Directive.pack values (Template.read config' t').directives).2 =
      (walk Directive.pack values (Template.read config t).directives).2) :
    packText config' values t' = packText config values t := by
  have rest : (Packing.run config' values t').rest = (Packing.run config values t).rest := by
    simp only [Packing.run, last, fault]
  rw [packText_eq, packText_eq, data, rest]

theorem packText_of_packPieces {config : Config} {values rest : List Value} {t : Text} {bs : Bytes}
    (whole : (Template.read config t).fault = none)
    (packed : packPieces values (Template.read config t).directives = .ok (bs, rest)) :
    packText config values t =
      if bs.length ≤ maxSize then .ok bs else .error .lengthOutOfRange := by
  have walked := walk_pack (Template.read config t).directives values
  rw [packed] at walked
  have data : written config values t = bs := walked.2
  have left := Packing.rest_eq_ok_iff.mpr ⟨whole, packed.trans (by rw [data])⟩
  rw [packText_eq, left, data]
  rfl

theorem packText_eq_ok_iff {config : Config} {values : List Value} {t : Text} {bs : Bytes} :
    packText config values t = .ok bs ↔
      (Template.read config t).fault = none ∧ bs.length ≤ maxSize ∧
        ∃ rest, packPieces values (Template.read config t).directives = .ok (bs, rest) := by
  constructor
  · intro h
    rw [packText_eq] at h
    split at h
    · next fits =>
        cases rest : (Packing.run config values t).rest with
        | error e => simp [rest, Except.map] at h
        | ok left =>
            simp only [rest, Except.map, Except.ok.injEq] at h
            rw [h] at fits
            obtain ⟨whole, packed⟩ := Packing.rest_eq_ok_iff.mp rest
            exact ⟨whole, fits, left, by rw [packed, h]⟩
    · cases h
  · rintro ⟨whole, fits, rest, packed⟩
    rw [packText_of_packPieces whole packed, if_pos fits]

end ByteTemplate
