import ByteTemplate.Proofs.Codec.Codepoint
import ByteTemplate.Unpack

/-!
# Unpacking seen from the unread data

A cursor only ever stands somewhere in its data, and what a directive does depends on the data
after it alone.  `Directive.decode` is that dependence and `readBatches` the walk along a
template with the data shrinking and an offset growing.
-/

namespace ByteTemplate

namespace Cursor

variable {data : Bytes} {n : Nat}

theorem unread_eq (h : n ≤ data.length) : unread ⟨data, n⟩ = data.drop n := by
  have notNegative : ¬(n : Int) < 0 := by omega
  have inside : min (n : Int).toNat data.length = n := by omega
  simp only [unread, index, notNegative, if_false, inside]

theorem remaining_eq (h : n ≤ data.length) :
    remaining ⟨data, n⟩ = ((data.length - n : Nat) : Int) := by
  simp only [remaining]
  omega

theorem advance_eq {k : Nat} (h : n + k ≤ data.length) :
    advance ⟨data, n⟩ k = .ok ⟨data, (n + k : Nat)⟩ := by
  rw [advance, if_neg (by simp only [remaining]; omega)]
  simp

private theorem peek_all (h : n ≤ data.length) : peek ⟨data, n⟩ (-1) = data.drop n := by
  rw [peek, if_pos (by decide), unread_eq h]

theorem peek_eq (h : n ≤ data.length) (k : Nat) : peek ⟨data, n⟩ k = (data.drop n).take k := by
  have notNegative : ¬(k : Int) < 0 := by omega
  have start : index ⟨data, n⟩ n = n := by
    simp only [index]
    rw [if_neg (by omega)]
    omega
  have stop : index ⟨data, n⟩ (n + k) = min (n + k) data.length := by
    simp only [index]
    rw [if_neg (by omega)]
    omega
  simp only [peek, notNegative, if_false, slice, start, stop]
  rw [List.take_drop, ← List.take_take, List.take_length]

end Cursor

def decodeFixed (width : Nat) (decode : Bytes → Except Error Value) (count : Option Nat)
    (data : Bytes) : Except Error (List Value × Nat) :=
  (readElements width decode (count.getD data.length) data).map fun vs =>
    (vs ++ List.replicate (count.getD 0 - vs.length) .none, width * vs.length)

theorem decodeFixed_eq_ok {width size : Nat} {decode : Bytes → Except Error Value}
    {count : Option Nat} {data : Bytes} {vs : List Value}
    (h : decodeFixed width decode count data = .ok (vs, size)) :
    ∃ found, readElements width decode (count.getD data.length) data = .ok found ∧
      vs = found ++ List.replicate (count.getD 0 - found.length) .none ∧
      size = width * found.length := by
  rw [decodeFixed] at h
  cases read : readElements width decode (count.getD data.length) data with
  | error e =>
      rw [read] at h
      cases h
  | ok found =>
      rw [read] at h
      cases h
      exact ⟨found, rfl, rfl, rfl⟩

def Element.decode (config : Config) (order : ByteOrder) (count : Option Nat) (data : Bytes) :
    Element → Except Error (List Value × Nat)
  | .integer signed width =>
      decodeFixed width
        (fun bs => (Integer.decodeWithin config.maxBits signed order bs).map .int) count data
  | .float precision =>
      decodeFixed precision.width (fun bs => .ok (.float (Real.decode precision order bs)))
        count data
  | .codepoint => readCodepoints (count.getD data.length) data

theorem readElements_succ_eq_ok {width limit : Nat} {decode : Bytes → Except Error Value}
    {data : Bytes} {vs : List Value} (h : readElements width decode (limit + 1) data = .ok vs) :
    (data.length < width ∧ vs = []) ∨
      ∃ v more, width ≤ data.length ∧ decode (data.take width) = .ok v ∧
        readElements width decode limit (data.drop width) = .ok more ∧ vs = v :: more := by
  simp only [readElements, List.length_take] at h
  split at h
  · cases h
    exact .inl ⟨by omega, rfl⟩
  · next enough =>
      cases first : decode (data.take width) with
      | error e => simp [first, bind, Except.bind] at h
      | ok v =>
          cases rest : readElements width decode limit (data.drop width) with
          | error e => simp [first, rest, bind, Except.bind] at h
          | ok more =>
              simp only [first, rest, bind, Except.bind, Except.ok.injEq] at h
              exact .inr ⟨v, more, by omega, rfl, rfl, h.symm⟩

theorem length_readElements_le {width : Nat} {decode : Bytes → Except Error Value} :
    ∀ {limit : Nat} {data : Bytes} {vs : List Value},
      readElements width decode limit data = .ok vs → width * vs.length ≤ data.length := by
  intro limit
  induction limit with
  | zero =>
      intro data vs h
      cases h
      simp
  | succ limit ih =>
      intro data vs h
      rcases readElements_succ_eq_ok h with ⟨-, rfl⟩ | ⟨v, more, enough, -, rest, rfl⟩
      · simp
      · have bound := ih rest
        rw [List.length_drop] at bound
        rw [List.length_cons, Nat.mul_succ]
        omega

theorem readCodepoints_succ_eq_ok {limit size : Nat} {data : Bytes} {vs : List Value}
    (h : readCodepoints (limit + 1) data = .ok (vs, size)) :
    (data = [] ∧ vs = [] ∧ size = 0) ∨
      ∃ n k more rest, Codepoint.decode (data.take 4) = .ok (some n, k) ∧
        readCodepoints limit (data.drop k) = .ok (more, rest) ∧ vs = .int n :: more ∧
        size = k + rest := by
  simp only [readCodepoints] at h
  cases first : Codepoint.decode (data.take 4) with
  | error e => simp [first, bind, Except.bind] at h
  | ok result =>
      rcases result with ⟨_ | n, k⟩
      · simp only [first, bind, Except.bind, Except.ok.injEq, Prod.mk.injEq] at h
        refine .inl ⟨?_, h.1.symm, h.2.symm⟩
        cases data with
        | nil => rfl
        | cons lead rest => exact absurd first (Codepoint.decode_ne_none (List.cons_ne_nil lead _) k)
      · cases rest : readCodepoints limit (data.drop k) with
        | error e => simp [first, rest, bind, Except.bind] at h
        | ok result =>
            simp only [first, rest, bind, Except.bind, Except.ok.injEq, Prod.mk.injEq] at h
            exact .inr ⟨n, k, _, _, rfl, rest, h.1.symm, h.2.symm⟩

theorem size_readCodepoints_le :
    ∀ {limit : Nat} {data : Bytes} {vs : List Value} {size : Nat},
      readCodepoints limit data = .ok (vs, size) → size ≤ data.length := by
  intro limit
  induction limit with
  | zero =>
      intro data vs size h
      cases h
      simp
  | succ limit ih =>
      intro data vs size h
      rcases readCodepoints_succ_eq_ok h with ⟨-, -, rfl⟩ | ⟨n, k, more, rest, first, others, -, rfl⟩
      · simp
      · have window := Codepoint.size_le_of_decode first
        have bound := ih others
        rw [List.length_take] at window
        rw [List.length_drop] at bound
        omega

theorem Element.size_le_of_decode {config : Config} {order : ByteOrder} {count : Option Nat}
    {data : Bytes} {e : Element} {vs : List Value} {size : Nat}
    (h : e.decode config order count data = .ok (vs, size)) : size ≤ data.length := by
  have fixed : ∀ {width decode}, decodeFixed width decode count data = .ok (vs, size) →
      size ≤ data.length := by
    intro width decode h
    obtain ⟨found, read, -, rfl⟩ := decodeFixed_eq_ok h
    exact length_readElements_le read
  cases e with
  | integer signed width => exact fixed h
  | float precision => exact fixed h
  | codepoint => exact size_readCodepoints_le h

private theorem Element.read_eq {config : Config} {order : ByteOrder} {count : Option Nat}
    {data : Bytes} {n : Nat} (h : n ≤ data.length) (e : Element) :
    e.read config order count ⟨data, n⟩ =
      (e.decode config order count (data.drop n)).map fun (vs, size) =>
        (vs, ⟨data, (n + size : Nat)⟩) := by
  have fixed : ∀ width decode, readFixed width decode count ⟨data, n⟩ =
      (decodeFixed width decode count (data.drop n)).map fun (vs, size) =>
        (vs, ⟨data, (n + size : Nat)⟩) := by
    intro width decode
    simp only [readFixed, decodeFixed, Cursor.unread_eq h]
    cases read : readElements width decode (count.getD (data.drop n).length) (data.drop n) with
    | error e => rfl
    | ok vs =>
        have bound := length_readElements_le read
        rw [List.length_drop] at bound
        have step := Cursor.advance_eq (show n + width * vs.length ≤ data.length by omega)
        push_cast at step
        simp only [bind, Except.bind, Except.map, step]
        rfl
  cases e with
  | integer signed width => exact fixed _ _
  | float precision => exact fixed _ _
  | codepoint =>
      simp only [Element.read, Element.decode, Cursor.unread_eq h]
      cases read : readCodepoints (count.getD (data.drop n).length) (data.drop n) with
      | error e => rfl
      | ok result =>
          have bound := size_readCodepoints_le read
          rw [List.length_drop] at bound
          have step := Cursor.advance_eq (show n + result.2 ≤ data.length by omega)
          simp only [bind, Except.bind, Except.map, step]

/-! ## Directives -/

def Directive.look (d : Directive) (data : Bytes) : Bytes :=
  match d.byteSize with
  | some size => data.take size
  | none => data

def Directive.decode (config : Config) (data : Bytes) (d : Directive) :
    Except Error (Option (List Value) × Nat) :=
  match d.codec with
  | .ignored => .ok (none, 0)
  | .null =>
      match d.count with
      | none => .ok (none, data.length)
      | some n => if data.length < n then .error .skipOutsideData else .ok (none, n)
  | .block b =>
      let (v, size) := b.decode d.count (d.look data)
      .ok (some [v], min size.toNat data.length)
  | .element e =>
      (e.decode config d.order d.count data).map fun (vs, size) => (some vs, size)

theorem Directive.decode_element {config : Config} {data : Bytes} {d : Directive} {e : Element}
    (codec : d.codec = .element e) {out : Option (List Value)} {size : Nat}
    (h : d.decode config data = .ok (out, size)) :
    ∃ vs, out = some vs ∧ e.decode config d.order d.count data = .ok (vs, size) := by
  simp only [Directive.decode, codec] at h
  cases read : e.decode config d.order d.count data with
  | error fault =>
      rw [read] at h
      cases h
  | ok result =>
      rw [read] at h
      cases h
      exact ⟨_, rfl, rfl⟩

theorem Block.size_decode_nonneg (count : Option Nat) (data : Bytes) (b : Block) :
    0 ≤ (b.decode count data).2 := by
  cases b with
  | hex order => exact Int.natCast_nonneg _
  | base64 => exact Int.natCast_nonneg _
  | string padding =>
      cases count <;> cases padding <;>
        simp only [Block.decode, Padded.decode, Option.map, Int.ofNat_eq_natCast]
      all_goals first | omega | split <;> omega

theorem Directive.size_le_of_decode {config : Config} {data : Bytes} {d : Directive}
    {out : Option (List Value)} {size : Nat} (h : d.decode config data = .ok (out, size)) :
    size ≤ data.length := by
  cases codec : d.codec with
  | ignored =>
      simp only [Directive.decode, codec, Except.ok.injEq, Prod.mk.injEq] at h
      omega
  | null =>
      cases count : d.count with
      | none =>
          simp only [Directive.decode, codec, count, Except.ok.injEq, Prod.mk.injEq] at h
          omega
      | some n =>
          simp only [Directive.decode, codec, count] at h
          split at h
          · cases h
          · cases h
            omega
  | block b =>
      simp only [Directive.decode, codec, Except.ok.injEq, Prod.mk.injEq] at h
      omega
  | element e =>
      obtain ⟨vs, -, read⟩ := Directive.decode_element codec h
      exact Element.size_le_of_decode read

theorem Directive.peek_window {data : Bytes} {n : Nat} (h : n ≤ data.length) (d : Directive) :
    Cursor.peek ⟨data, n⟩ d.window = d.look (data.drop n) := by
  unfold Directive.window Directive.look
  cases d.byteSize with
  | none => exact Cursor.peek_all h
  | some size => exact Cursor.peek_eq h size

theorem Directive.unpack_eq {config : Config} {data : Bytes} {n : Nat} (h : n ≤ data.length)
    (d : Directive) :
    d.unpack config ⟨data, n⟩ =
      (d.decode config (data.drop n)).map fun (vs, size) =>
        (vs.map fun vs => ⟨vs, (n + size : Nat)⟩, ⟨data, (n + size : Nat)⟩) := by
  have left : (data.drop n).length = data.length - n := List.length_drop
  cases codec : d.codec with
  | ignored =>
      simp only [Directive.unpack, Directive.decode, codec]
      rfl
  | null =>
      simp only [Directive.unpack, Directive.decode, codec, Cursor.skip, Cursor.remaining_eq h,
        left]
      cases d.count with
      | none =>
          rw [Cursor.advance_eq (show n + (data.length - n) ≤ data.length by omega)]
          rfl
      | some k =>
          simp only [Int.ofNat_lt]
          split
          · rfl
          · rw [Cursor.advance_eq (show n + k ≤ data.length by omega)]
            rfl
  | block b =>
      have nonneg := Block.size_decode_nonneg d.count (d.look (data.drop n)) b
      have moved : min (b.decode d.count (d.look (data.drop n))).2 ((data.length - n : Nat) : Int) =
          ((min (b.decode d.count (d.look (data.drop n))).2.toNat (data.length - n) : Nat) :
            Int) := by
        omega
      simp only [Directive.unpack, Directive.decode, codec, Directive.peek_window h,
        Cursor.remaining_eq h, moved, left]
      rw [Cursor.advance_eq (show n + min _ (data.length - n) ≤ data.length by omega)]
      rfl
  | element e =>
      simp only [Directive.unpack, Directive.decode, codec, Element.read_eq h]
      cases e.decode config d.order d.count (data.drop n) with
      | error fault => rfl
      | ok result => rfl

/-! ## Templates -/

/-- The batches of some directives that read on at `start`, where `data` is all that is left,
and the position after them. -/
def readBatches (config : Config) (start : Nat) (data : Bytes) :
    List Directive → Except Error (List Batch × Nat)
  | [] => .ok ([], start)
  | d :: ds =>
      match d.decode config data with
      | .error e => .error e
      | .ok (vs, size) =>
          match readBatches config (start + size) (data.drop size) ds with
          | .error e => .error e
          | .ok (batches, stop) =>
              .ok ((vs.map fun vs => ⟨vs, (start + size : Nat)⟩).toList ++ batches, stop)

theorem readBatches_cons_eq_ok_iff {config : Config} {start stop : Nat} {data : Bytes}
    {d : Directive} {ds : List Directive} {batches : List Batch} :
    readBatches config start data (d :: ds) = .ok (batches, stop) ↔
      ∃ out size rest, d.decode config data = .ok (out, size) ∧
        readBatches config (start + size) (data.drop size) ds = .ok (rest, stop) ∧
        batches = (out.map fun vs => ⟨vs, (start + size : Nat)⟩).toList ++ rest := by
  simp only [readBatches]
  cases first : d.decode config data with
  | error e => simp
  | ok result =>
      rcases result with ⟨out, size⟩
      simp only
      cases more : readBatches config (start + size) (data.drop size) ds with
      | error e =>
          simp only [reduceCtorEq, false_iff]
          rintro ⟨_, _, rest, same, read, -⟩
          cases same
          rw [more] at read
          cases read
      | ok result =>
          rcases result with ⟨rest, last⟩
          constructor
          · intro h
            cases h
            exact ⟨out, size, rest, rfl, more, rfl⟩
          · rintro ⟨_, _, rest', same, read, rfl⟩
            cases same
            rw [more] at read
            cases read
            rfl

theorem readBatches_bounds {config : Config} {ds : List Directive} :
    ∀ {start stop : Nat} {data : Bytes} {batches : List Batch},
      readBatches config start data ds = .ok (batches, stop) →
        start ≤ stop ∧ stop ≤ start + data.length := by
  induction ds with
  | nil =>
      intro start stop data batches h
      cases h
      omega
  | cons d ds ih =>
      intro start stop data batches h
      obtain ⟨out, size, rest, first, more, -⟩ := readBatches_cons_eq_ok_iff.mp h
      have bound := Directive.size_le_of_decode first
      have rest_bound := ih more
      rw [List.length_drop] at rest_bound
      omega

theorem readBatches_append {config : Config} (first second : List Directive) :
    ∀ (start : Nat) (data : Bytes), readBatches config start data (first ++ second) =
      match readBatches config start data first with
      | .error e => .error e
      | .ok (batches, stop) =>
          match readBatches config stop (data.drop (stop - start)) second with
          | .error e => .error e
          | .ok (more, last) => .ok (batches ++ more, last) := by
  induction first with
  | nil =>
      intro start data
      simp only [List.nil_append, readBatches, Nat.sub_self, List.drop_zero]
      cases readBatches config start data second <;> rfl
  | cons d first ih =>
      intro start data
      simp only [List.cons_append, readBatches]
      cases d.decode config data with
      | error e => rfl
      | ok result =>
          rcases result with ⟨out, size⟩
          simp only [ih]
          cases more : readBatches config (start + size) (data.drop size) first with
          | error e => rfl
          | ok result =>
              rcases result with ⟨batches, stop⟩
              have bounds := readBatches_bounds more
              have left : size + (stop - (start + size)) = stop - start := by omega
              simp only [List.drop_drop, left]
              cases readBatches config stop (data.drop (stop - start)) second with
              | error e => rfl
              | ok result => simp

def Batch.shift (k : Nat) (b : Batch) : Batch :=
  { b with stop := b.stop + k }

theorem readBatches_shift {config : Config} (k : Nat) (ds : List Directive) :
    ∀ (start : Nat) (data : Bytes), readBatches config (start + k) data ds =
      (readBatches config start data ds).map fun (batches, stop) =>
        (batches.map (Batch.shift k), stop + k) := by
  induction ds with
  | nil => exact fun _ _ => rfl
  | cons d ds ih =>
      intro start data
      simp only [readBatches]
      cases d.decode config data with
      | error e => rfl
      | ok result =>
          rcases result with ⟨out, size⟩
          have later : start + k + size = start + size + k := by omega
          simp only [later, ih]
          cases readBatches config (start + size) (data.drop size) ds with
          | error e => rfl
          | ok result => cases out <;> simp [Except.map, Batch.shift]

private theorem walk_unpack_eq {config : Config} {data : Bytes} (ds : List Directive) :
    ∀ {n : Nat}, n ≤ data.length →
      match readBatches config n (data.drop n) ds with
      | .error e => (walk (Directive.unpack config) ⟨data, n⟩ ds).2 = .error e
      | .ok (batches, stop) =>
          (walk (Directive.unpack config) ⟨data, n⟩ ds).1.filterMap id = batches ∧
            (walk (Directive.unpack config) ⟨data, n⟩ ds).2 = .ok ⟨data, stop⟩ := by
  induction ds with
  | nil => exact fun _ => ⟨rfl, rfl⟩
  | cons d ds ih =>
      intro n h
      simp only [walk, readBatches, Directive.unpack_eq h]
      cases read : d.decode config (data.drop n) with
      | error e => rfl
      | ok result =>
          rcases result with ⟨vs, size⟩
          have bound := Directive.size_le_of_decode read
          rw [List.length_drop] at bound
          have rest := ih (show n + size ≤ data.length by omega)
          simp only [Except.map, List.drop_drop]
          cases more : readBatches config (n + size) (data.drop (n + size)) ds with
          | error e =>
              rw [more] at rest
              exact rest
          | ok result =>
              rw [more] at rest
              refine ⟨?_, rest.2⟩
              cases vs with
              | none => simpa using rest.1
              | some vs => simpa using rest.1

/-- Unpacking ends with the first failure, or with all batches and the cursor after them. -/
theorem Unpacking.run_eq (config : Config) (data : Bytes) (t : Text) :
    match readBatches config 0 data (Template.read config t).directives,
      (Template.read config t).fault with
    | .error e, _ => (run config data t).last = .error e
    | .ok _, some e => (run config data t).last = .error e
    | .ok (batches, stop), none => run config data t = ⟨batches, .ok ⟨data, stop⟩⟩ := by
  have walked := @walk_unpack_eq config data (Template.read config t).directives 0 (Nat.zero_le _)
  rw [List.drop_zero] at walked
  simp only [run]
  cases read : readBatches config 0 data (Template.read config t).directives with
  | error e =>
      rw [read] at walked
      change (walk (Directive.unpack config) ⟨data, 0⟩ _).2 = .error e at walked
      simp only [walked]
  | ok result =>
      rw [read] at walked
      obtain ⟨outs, last⟩ := walked
      change (walk (Directive.unpack config) ⟨data, 0⟩ _).2 = .ok _ at last
      change (walk (Directive.unpack config) ⟨data, 0⟩ _).1.filterMap id = _ at outs
      simp only [last, outs]
      cases (Template.read config t).fault <;> rfl

theorem unpackBatches_eq (config : Config) (data : Bytes) (t : Text) :
    unpackBatches config data t =
      match readBatches config 0 data (Template.read config t).directives,
        (Template.read config t).fault with
      | .error e, _ => .error e
      | .ok _, some e => .error e
      | .ok (batches, _), none => .ok batches := by
  have ran := Unpacking.run_eq config data t
  rw [unpackBatches, Unpacking.result]
  cases read : readBatches config 0 data (Template.read config t).directives with
  | error e =>
      rw [read] at ran
      rw [ran]
      rfl
  | ok result =>
      rw [read] at ran
      cases fault : (Template.read config t).fault with
      | some e =>
          rw [fault] at ran
          rw [ran]
          rfl
      | none =>
          rw [fault] at ran
          rw [ran]
          rfl

end ByteTemplate
