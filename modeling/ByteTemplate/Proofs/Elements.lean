import ByteTemplate.Proofs.Codec.Codepoint
import ByteTemplate.Proofs.Codec.Integer
import ByteTemplate.Proofs.Template

/-!
# Elements

Elements that were written are read back one after another, whatever follows them, each in its
canonical form: an integer as the residue of its width and a float rounded to its precision.
-/

namespace ByteTemplate

namespace Real

def rounded (precision : Precision) (x : Double) : Double :=
  match precision with
  | .single => (x.convert : Single).convert
  | .double => x

private theorem bits_lt (precision : Precision) (x : Double) :
    bits precision x < 256 ^ precision.width := by
  cases precision with
  | single => exact BinaryFloat.toBits_lt (x.convert : Single)
  | double => exact BinaryFloat.toBits_lt x

private theorem ofBits_bits (precision : Precision) (x : Double) :
    ofBits precision (bits precision x) = rounded precision x := by
  cases precision with
  | single => simp only [ofBits, bits, rounded, BinaryFloat.ofBits_toBits]
  | double => exact BinaryFloat.ofBits_toBits x

theorem decode_encode (precision : Precision) (order : ByteOrder) (x : Double) :
    decode precision order (encode precision order x) = rounded precision x := by
  rw [decode, encode, ByteOrder.arrange_arrange, Integer.ofLittle_toLittle,
    Nat.mod_eq_of_lt (bits_lt precision x), ofBits_bits]

theorem encode_decode_double {order : ByteOrder} {bs : Bytes}
    (length : bs.length = Precision.double.width) :
    encode .double order (decode .double order bs) = bs := by
  have arranged : (order.arrange bs).length = Precision.double.width := by
    rw [ByteOrder.length_arrange, length]
  have small := Integer.ofLittle_lt (order.arrange bs)
  have back := Integer.toLittle_ofLittle (order.arrange bs)
  rw [arranged] at small back
  have same : bits .double (decode .double order bs) = Integer.ofLittle (order.arrange bs) :=
    BinaryFloat.toBits_ofBits small
  rw [encode, same, back, ByteOrder.arrange_arrange]

end Real

namespace Element

/-- The value that is read where `v` was written. -/
def canonical (e : Element) (v : Value) : Except Error Value :=
  match e with
  | .integer signed width => v.toInt.map fun n => .int (Integer.wrap signed width n)
  | .float precision => v.toDouble.map fun x => .float (Real.rounded precision x)
  | .codepoint => v.toInt.map .int

theorem encode_integer {order : ByteOrder} {signed : Bool} {width : Nat} {v : Value}
    {bs : Bytes} (h : (integer signed width).encode order v = .ok bs) :
    ∃ n, v.toInt = .ok n ∧ bs = Integer.encode width order n := by
  cases value : v.toInt with
  | error e => simp [Element.encode, value, Except.map] at h
  | ok n =>
      simp only [Element.encode, value, Except.map, Except.ok.injEq] at h
      exact ⟨n, rfl, h.symm⟩

theorem encode_float {order : ByteOrder} {precision : Precision} {v : Value} {bs : Bytes}
    (h : (float precision).encode order v = .ok bs) :
    ∃ x, v.toDouble = .ok x ∧ bs = Real.encode precision order x := by
  cases value : v.toDouble with
  | error e => simp [Element.encode, value, Except.map] at h
  | ok x =>
      simp only [Element.encode, value, Except.map, Except.ok.injEq] at h
      exact ⟨x, rfl, h.symm⟩

theorem encode_codepoint {order : ByteOrder} {v : Value} {bs : Bytes}
    (h : codepoint.encode order v = .ok bs) :
    ∃ n : Nat, n < Codepoint.bound ∧ v.toInt = .ok n ∧ bs = Codepoint.bytes n := by
  have read : v.toInt.bind Codepoint.encode = .ok bs := by
    cases v <;> first | exact h | cases h
  cases value : v.toInt with
  | error e => simp [value, Except.bind] at read
  | ok n =>
      simp only [value, Except.bind, Codepoint.encode] at read
      split at read
      · next range =>
          cases read
          refine ⟨n.toNat, by omega, ?_, rfl⟩
          rw [Int.toNat_of_nonneg range.1]
      · cases read

end Element

/-! ## Elements in a row -/

theorem Element.encodeAll_cons {order : ByteOrder} {e : Element} {v : Value} {vs : List Value}
    {bs : Bytes} (h : e.encodeAll order (v :: vs) = .ok bs) :
    ∃ first rest, e.encode order v = .ok first ∧ e.encodeAll order vs = .ok rest ∧
      bs = first ++ rest := by
  simp only [Element.encodeAll] at h
  cases one : e.encode order v with
  | error fault => simp [one, bind, Except.bind] at h
  | ok first =>
      cases more : e.encodeAll order vs with
      | error fault => simp [one, more, bind, Except.bind] at h
      | ok rest =>
          simp only [one, more, bind, Except.bind, Except.ok.injEq] at h
          exact ⟨first, rest, rfl, rfl, h.symm⟩

theorem Element.encodeAll_cons_of_ok {order : ByteOrder} {e : Element} {v : Value}
    {vs : List Value} {first rest : Bytes} (one : e.encode order v = .ok first)
    (others : e.encodeAll order vs = .ok rest) :
    e.encodeAll order (v :: vs) = .ok (first ++ rest) := by
  simp only [encodeAll, one, others]
  rfl

theorem mapM_cons_ok {α β ε : Type} {f : α → Except ε β} {a : α} {as : List α} {b : β}
    {bs : List β} (first : f a = .ok b) (rest : as.mapM f = .ok bs) :
    (a :: as).mapM f = .ok (b :: bs) := by
  rw [List.mapM_cons, first, rest]
  rfl

private theorem readElements_encodeAll_append {order : ByteOrder} {e : Element} {width : Nat}
    {decode : Bytes → Except Error Value}
    (one : ∀ v bs, e.encode order v = .ok bs →
      bs.length = width ∧ ∃ k, e.canonical v = .ok k ∧ decode bs = .ok k)
    {vs : List Value} : ∀ {bs : Bytes}, e.encodeAll order vs = .ok bs →
      bs.length = width * vs.length ∧
        ∃ kept, vs.mapM e.canonical = .ok kept ∧ kept.length = vs.length ∧
          ∀ limit tail, readElements width decode (vs.length + limit) (bs ++ tail) =
            (readElements width decode limit tail).map (kept ++ ·) := by
  induction vs with
  | nil =>
      intro bs h
      cases h
      refine ⟨rfl, [], rfl, rfl, fun limit tail => ?_⟩
      simp only [List.length_nil, Nat.zero_add, List.nil_append]
      cases readElements width decode limit tail <;> rfl
  | cons v vs ih =>
      intro bs h
      obtain ⟨first, rest, written, others, rfl⟩ := Element.encodeAll_cons h
      obtain ⟨size, k, form, read⟩ := one v first written
      obtain ⟨sizes, kept, forms, count, reads⟩ := ih others
      refine ⟨?_, k :: kept, mapM_cons_ok form forms, by simp [count], fun limit tail => ?_⟩
      · rw [List.length_append, size, sizes, List.length_cons, Nat.mul_succ, Nat.add_comm]
      · have enough : ¬((first ++ (rest ++ tail)).take width).length < width := by
          rw [List.take_left' size, size]
          exact Nat.lt_irrefl _
        rw [List.append_assoc, List.length_cons, Nat.add_right_comm]
        simp only [readElements]
        rw [if_neg enough, List.take_left' size, List.drop_left' size, reads, read]
        cases readElements width decode limit tail <;> rfl

private theorem readCodepoints_encodeAll_append {order : ByteOrder} {vs : List Value} :
    ∀ {bs : Bytes}, Element.codepoint.encodeAll order vs = .ok bs →
      vs.length ≤ bs.length ∧
        ∃ kept, vs.mapM Element.codepoint.canonical = .ok kept ∧ kept.length = vs.length ∧
          ∀ limit tail, readCodepoints (vs.length + limit) (bs ++ tail) =
            (readCodepoints limit tail).map fun (more, size) =>
              (kept ++ more, bs.length + size) := by
  induction vs with
  | nil =>
      intro bs h
      cases h
      refine ⟨Nat.le_refl _, [], rfl, rfl, fun limit tail => ?_⟩
      simp only [List.length_nil, Nat.zero_add, List.nil_append]
      cases readCodepoints limit tail <;> rfl
  | cons v vs ih =>
      intro bs h
      obtain ⟨first, rest, written, others, rfl⟩ := Element.encodeAll_cons h
      obtain ⟨n, small, value, rfl⟩ := Element.encode_codepoint written
      obtain ⟨sizes, kept, forms, count, reads⟩ := ih others
      have form : Element.codepoint.canonical v = .ok (.int n) := by
        simp only [Element.canonical, value, Except.map]
      have pos := List.length_pos_iff.mpr (Codepoint.bytes_ne_nil n)
      refine ⟨?_, .int n :: kept, mapM_cons_ok form forms, by simp [count], fun limit tail => ?_⟩
      · rw [List.length_append, List.length_cons]
        omega
      · rw [List.append_assoc, List.length_cons, Nat.add_right_comm]
        simp only [readCodepoints, Codepoint.decode_take_bytes_append small]
        simp only [bind, Except.bind, List.drop_left' rfl, reads]
        cases readCodepoints limit tail with
        | error e => rfl
        | ok result => simp [Except.map, Nat.add_assoc]

/-! ## The elements of a directive -/

theorem readElements_nil {width : Nat} (pos : 0 < width) (decode : Bytes → Except Error Value)
    (limit : Nat) : readElements width decode limit [] = .ok [] := by
  cases limit with
  | zero => rfl
  | succ limit => simp [readElements, pos]

theorem readCodepoints_nil (limit : Nat) : readCodepoints limit [] = .ok ([], 0) := by
  cases limit <;> rfl

theorem exists_of_mem_readElements {width : Nat} {decode : Bytes → Except Error Value} :
    ∀ {limit : Nat} {data : Bytes} {vs : List Value},
      readElements width decode limit data = .ok vs →
        vs.length ≤ limit ∧ ∀ v ∈ vs, ∃ bs, bs.length = width ∧ decode bs = .ok v := by
  intro limit
  induction limit with
  | zero =>
      intro data vs h
      cases h
      exact ⟨Nat.le_refl _, nofun⟩
  | succ limit ih =>
      intro data vs h
      rcases readElements_succ_eq_ok h with ⟨-, rfl⟩ | ⟨v, more, enough, first, rest, rfl⟩
      · exact ⟨Nat.zero_le _, nofun⟩
      · obtain ⟨length, sources⟩ := ih rest
        refine ⟨Nat.succ_le_succ length, ?_⟩
        rw [List.forall_mem_cons]
        exact ⟨⟨_, List.length_take_of_le enough, first⟩, sources⟩

theorem decodeFixed_eq_ok_of_present {width size : Nat} {decode : Bytes → Except Error Value}
    {count : Option Nat} {data : Bytes} {vs : List Value}
    (read : decodeFixed width decode count data = .ok (vs, size))
    (present : ∀ v ∈ vs, v.isNone = false) :
    readElements width decode (count.getD data.length) data = .ok vs ∧ size = width * vs.length ∧
      count.getD 0 ≤ vs.length := by
  obtain ⟨found, elements, rfl, rfl⟩ := decodeFixed_eq_ok read
  have none_missing : count.getD 0 - found.length = 0 := by
    rcases Nat.eq_zero_or_pos (count.getD 0 - found.length) with zero | some_missing
    · exact zero
    · have marker := present .none (by simp [Nat.ne_of_gt some_missing])
      cases marker
  rw [none_missing, List.replicate_zero, List.append_nil]
  exact ⟨elements, rfl, Nat.le_of_sub_eq_zero none_missing⟩

theorem decodeFixed_encodeAll {order : ByteOrder} {e : Element} {width : Nat}
    {decode : Bytes → Except Error Value} {count : Option Nat} {vs : List Value} {bs : Bytes}
    (pos : 0 < width)
    (one : ∀ v bs, e.encode order v = .ok bs →
      bs.length = width ∧ ∃ k, e.canonical v = .ok k ∧ decode bs = .ok k)
    (written : e.encodeAll order vs = .ok bs) (counted : ∀ n ∈ count, n = vs.length)
    (tail : Bytes) (last : count = none → tail = []) :
    ∃ kept, vs.mapM e.canonical = .ok kept ∧
      decodeFixed width decode count (bs ++ tail) = .ok (kept, bs.length) := by
  obtain ⟨size, kept, forms, length, reads⟩ := readElements_encodeAll_append one written
  refine ⟨kept, forms, ?_⟩
  cases count with
  | some n =>
      have read := reads 0 tail
      rw [Nat.add_zero, ← counted n rfl] at read
      have none_missing : n - kept.length = 0 := by
        rw [length, counted n rfl, Nat.sub_self]
      simp only [decodeFixed, Option.getD_some, read, readElements, Except.map, List.append_nil,
        none_missing, List.replicate_zero]
      rw [length, size]
  | none =>
      have enough : vs.length ≤ bs.length := by
        rw [size]
        exact Nat.le_mul_of_pos_left _ pos
      obtain ⟨limit, more⟩ := Nat.exists_eq_add_of_le enough
      have read := reads limit []
      rw [readElements_nil pos, List.append_nil, ← more] at read
      simp only [decodeFixed, last rfl, List.append_nil, Option.getD_none, read, Except.map,
        Nat.zero_sub, List.replicate_zero]
      rw [length, size]

theorem Element.decode_encodeAll {config : Config} (unlimited : config.maxBits = none)
    {order : ByteOrder} {count : Option Nat} {e : Element} (width : (Codec.element e).HasWidth)
    {vs : List Value} {bs : Bytes} (written : e.encodeAll order vs = .ok bs)
    (counted : ∀ n ∈ count, n = vs.length) (tail : Bytes) (last : count = none → tail = []) :
    ∃ kept, vs.mapM e.canonical = .ok kept ∧
      e.decode config order count (bs ++ tail) = .ok (kept, bs.length) := by
  cases e with
  | integer signed size =>
      refine decodeFixed_encodeAll width ?_ written counted tail last
      intro v bs one
      obtain ⟨n, value, rfl⟩ := Element.encode_integer one
      refine ⟨Integer.length_encode _ _ _, .int (Integer.wrap signed size n), ?_, ?_⟩
      · simp only [Element.canonical, value, Except.map]
      · simp only [Integer.decodeWithin, unlimited, Integer.limit, Integer.decode_encode,
          Except.map]
  | float precision =>
      refine decodeFixed_encodeAll (by cases precision <;> decide) ?_ written counted tail last
      intro v bs one
      obtain ⟨x, value, rfl⟩ := Element.encode_float one
      refine ⟨Real.length_encode _ _ _, .float (Real.rounded precision x), ?_, ?_⟩
      · simp only [Element.canonical, value, Except.map]
      · rw [Real.decode_encode]
  | codepoint =>
      obtain ⟨enough, kept, forms, -, reads⟩ := readCodepoints_encodeAll_append written
      refine ⟨kept, forms, ?_⟩
      simp only [Element.decode]
      cases count with
      | some n =>
          have read := reads 0 tail
          rw [Nat.add_zero, ← counted n rfl] at read
          simp only [Option.getD_some, read, readCodepoints, Except.map, List.append_nil,
            Nat.add_zero]
      | none =>
          obtain ⟨limit, more⟩ := Nat.exists_eq_add_of_le enough
          have read := reads limit []
          rw [readCodepoints_nil, List.append_nil, ← more] at read
          simp only [last rfl, List.append_nil, Option.getD_none, read, Except.map, Nat.add_zero]

end ByteTemplate
