import ByteTemplate.Buffer
import ByteTemplate.Proofs.Calls
import Mathlib.Order.Bounds.Defs

/-!
# The buffer as bytes that are appended to

Whatever is called, failing calls included, a buffer shows the data of the calls that succeeded,
one after another.  Its capacity only ever doubles, and no more often than a call needs.

There are two exceptions, and no others.  Of data with items wider than a byte, only as many bytes
are kept as there are items; and storage that is written to its own buffer has grown before it is
copied.  Both make the storage longer than any doubling.
-/

namespace ByteTemplate.Buffer

private theorem exists_grown_eq (size fuel : Nat) :
    ∀ capacity, ∃ k : Nat, grown size fuel capacity = capacity * 2 ^ k := by
  induction fuel with
  | zero => exact fun capacity => ⟨0, by simp [grown]⟩
  | succ fuel ih =>
      intro capacity
      simp only [grown]
      split
      · exact ⟨0, by simp⟩
      · obtain ⟨k, eq⟩ := ih (2 * capacity)
        exact ⟨k + 1, by rw [eq, Nat.pow_succ', Nat.mul_left_comm, Nat.mul_assoc]⟩

private theorem exists_doubling_trans {a b c : Nat} (first : ∃ j : Nat, b = a * 2 ^ j)
    (second : ∃ k : Nat, c = b * 2 ^ k) : ∃ i : Nat, c = a * 2 ^ i := by
  obtain ⟨j, rfl⟩ := first
  obtain ⟨k, rfl⟩ := second
  exact ⟨j + k, by rw [Nat.mul_assoc, ← Nat.pow_add]⟩

theorem grown_le {size : Nat} (fuel : Nat) : ∀ {capacity k : Nat}, size ≤ capacity * 2 ^ k →
    grown size fuel capacity ≤ capacity * 2 ^ k := by
  induction fuel with
  | zero => exact fun _ => Nat.le_mul_of_pos_right _ (Nat.two_pow_pos _)
  | succ fuel ih =>
      intro capacity k enough
      simp only [grown]
      split
      · exact Nat.le_mul_of_pos_right _ (Nat.two_pow_pos _)
      · next small =>
          cases k with
          | zero => exact absurd (by simpa using enough) small
          | succ k =>
              have doubled : capacity * 2 ^ (k + 1) = 2 * capacity * 2 ^ k := by
                rw [Nat.pow_succ', Nat.mul_left_comm, Nat.mul_assoc]
              rw [doubled] at enough ⊢
              exact ih enough

variable {b : Buffer}

theorem grow_of_le {size : Nat} (room : size ≤ b.capacity) : b.grow size = b := by
  have same : grown size size b.capacity = b.capacity := by
    apply Nat.le_antisymm _ (le_grown _ _ _)
    simpa using grown_le (k := 0) size (by simpa using room)
  apply Buffer.ext
  · simp [grow, same]
  · rfl

theorem put_nil (b : Buffer) : b.put [] [] = b := by
  apply Buffer.ext
  · simp [put]
  · rfl

theorem exists_capacity_grow (b : Buffer) (size : Nat) :
    ∃ k : Nat, (b.grow size).capacity = b.capacity * 2 ^ k := by
  rw [capacity_grow]
  exact exists_grown_eq _ _ _

/-- Storage grows to the least doubling of where it started that has room and is no smaller than
it was. -/
theorem isLeast_capacity_grow {initial : Nat} (pos : 0 < initial)
    (doubled : ∃ j : Nat, b.capacity = initial * 2 ^ j) (size : Nat) :
    IsLeast {c | (∃ k : Nat, c = initial * 2 ^ k) ∧ size ≤ c ∧ b.capacity ≤ c}
      (b.grow size).capacity := by
  have grows := exists_doubling_trans doubled (b.exists_capacity_grow size)
  refine ⟨⟨grows, b.size_le_capacity_grow size, b.capacity_le_capacity_grow size⟩, ?_⟩
  rintro c ⟨⟨i, rfl⟩, enough, larger⟩
  obtain ⟨j, before⟩ := doubled
  have later : j ≤ i := by
    rw [before] at larger
    exact (Nat.pow_le_pow_iff_right (by decide)).mp (Nat.le_of_mul_le_mul_left larger pos)
  have split : initial * 2 ^ i = b.capacity * 2 ^ (i - j) := by
    rw [before, Nat.mul_assoc, ← Nat.pow_add, Nat.add_sub_cancel' later]
  rw [split] at enough ⊢
  rw [capacity_grow]
  exact grown_le size enough

/-! ## Calls -/

theorem Source.length_le (source : Source) (storage : Bytes) :
    source.length storage ≤ (source.bytes storage).length := by
  cases source with
  | data v => exact v.length_le
  | storage => exact Nat.le_refl _

inductive Call where
  | write (source : Source)
  | fill (byte count : Int)
  | ensureCapacity (size : Int)
  deriving DecidableEq, Repr

def call (b : Buffer) : Call → Except Error Nat × Buffer
  | .write source => b.write source
  | .fill byte count => b.fill byte count
  | .ensureCapacity size => b.ensureCapacity size

namespace Call

def data (b : Buffer) : Call → Bytes
  | .write source => source.bytes b.storage
  | .fill byte count => List.replicate count.toNat (UInt8.ofNat byte.toNat)
  | .ensureCapacity _ => []

/-- The size that a call needs in all. -/
def size (b : Buffer) : Call → Int
  | .write source => b.length + (source.bytes b.storage).length
  | .fill _ count => b.length + max count 0
  | .ensureCapacity size => size

def hasByte : Call → Bool
  | .fill byte count => count ≤ 0 || (0 ≤ byte && byte < 256)
  | _ => true

def fault (b : Buffer) (c : Call) : Option Error :=
  if c.size b < 0 ∨ maxSize < c.size b then some .lengthOutOfRange
  else if c.hasByte then none
  else some .byteOutOfRange

/-- Whether what a call writes has as many bytes as it counts and stays the same when the buffer
grows for it. -/
def IsPlain (b : Buffer) : Call → Prop
  | .write (.data v) => v.length = v.bytes.length
  | .write .storage => b.length = 0
  | _ => True

variable {c : Call}

theorem fault_of_refused (h : c.size b < 0 ∨ maxSize < c.size b) :
    c.fault b = some .lengthOutOfRange :=
  if_pos h

theorem fault_of_accepted (h : ¬(c.size b < 0 ∨ maxSize < c.size b)) :
    c.fault b = if c.hasByte then none else some .byteOutOfRange :=
  if_neg h

theorem hasByte_fill {byte count : Int} (some_bytes : ¬count ≤ 0) :
    (fill byte count).hasByte = true ↔ 0 ≤ byte ∧ byte < 256 := by
  simp [hasByte, some_bytes]

theorem accepted_of_fault (h : c.fault b = none) : 0 ≤ c.size b ∧ c.size b ≤ maxSize := by
  by_cases range : c.size b < 0 ∨ maxSize < c.size b
  · rw [fault_of_refused range] at h
    cases h
  · omega

theorem length_data_le (b : Buffer) (c : Call) :
    ((b.length + (c.data b).length : Nat) : Int) ≤ max (b.length : Int) (c.size b) := by
  cases c with
  | write source => exact Int.le_max_right _ _
  | fill byte count =>
      simp only [data, size, List.length_replicate]
      omega
  | ensureCapacity size => exact Int.le_max_left _ _

end Call

/-- What a call comes to: it is refused, or it makes room and then fails or appends its data. -/
inductive Outcome (b : Buffer) (c : Call) : Prop where
  | refused (f : Error) (fault : c.fault b = some f) (eq : b.call c = (.error f, b))
  | failed (f : Error) (fault : c.fault b = some f)
      (eq : b.call c = (.error f, b.grow (c.size b).toNat))
  | done (n : Nat) (fault : c.fault b = none)
      (eq : b.call c = (.ok n, (b.grow (c.size b).toNat).put (c.data b) []))

theorem write_of_refused {source : Source} (h : maxSize < b.length + source.length b.storage) :
    b.write source = (.error .lengthOutOfRange, b) := by
  have refused := @reserve_of_refused b (b.length + source.length b.storage) (by omega)
  simp only [write, refused]

theorem write_of_accepted {source : Source} {count : Nat}
    (counted : source.length b.storage = count) (h : b.length + count ≤ maxSize) :
    b.write source = (.ok count, (b.grow (b.length + count)).put
      ((source.bytes (b.grow (b.length + count)).storage).take count)
      ((source.bytes (b.grow (b.length + count)).storage).drop count)) := by
  have accepted := @reserve_of_accepted b (b.length + count) (by omega)
  have size : (b.length + count : Int).toNat = b.length + count := by omega
  rw [size] at accepted
  simp only [write, counted, accepted]

private theorem outcome_write {source : Source}
    (plain : ∀ n, (b.write source).1 = .ok n → (Call.write source).IsPlain b) :
    Outcome b (.write source) := by
  have bound := source.length_le b.storage
  by_cases range : maxSize < b.length + source.length b.storage
  · have long : maxSize < (Call.write source).size b := by
      simp only [Call.size]
      omega
    exact .refused .lengthOutOfRange (Call.fault_of_refused (.inr long)) (write_of_refused range)
  · have accepted := write_of_accepted rfl (Nat.not_lt.mp range)
    have plain := plain _ (congrArg Prod.fst accepted)
    have exact : source.length b.storage = (source.bytes b.storage).length := by
      cases source with
      | data v => exact plain
      | storage => rfl
    have same : source.bytes (b.grow (b.length + source.length b.storage)).storage =
        source.bytes b.storage := by
      cases source with
      | data v => rfl
      | storage =>
          -- The storage has room for as much as itself where nothing is written.
          rw [grow_of_le]
          rw [show b.length = 0 from plain, Nat.zero_add]
          exact Nat.le_refl _
    have size : ((Call.write source).size b).toNat = b.length + source.length b.storage := by
      simp only [Call.size]
      omega
    apply Outcome.done (source.length b.storage)
    · rw [Call.fault_of_accepted (by simp only [Call.size]; omega)]
      rfl
    · rw [call, accepted, same, size, exact, List.take_length, List.drop_length, Call.data]

private theorem outcome_ensureCapacity (b : Buffer) (size : Int) :
    Outcome b (.ensureCapacity size) := by
  by_cases range : size < 0 ∨ maxSize < size
  · apply Outcome.refused _ (@Call.fault_of_refused b (.ensureCapacity size) range)
    simp only [call, ensureCapacity, reserve_of_refused range, Except.map]
  · apply Outcome.done _ (@Call.fault_of_accepted b (.ensureCapacity size) range)
    rw [Call.data, put_nil]
    simp only [call, ensureCapacity, reserve_of_accepted range, Except.map]
    rfl

private theorem outcome_fill_empty (within : b.length ≤ maxSize) {byte count : Int}
    (empty : count ≤ 0) :
    Outcome b (.fill byte count) := by
  have size : (Call.fill byte count).size b = b.length := by
    simp only [Call.size]
    omega
  have data : (Call.fill byte count).data b = [] := by
    rw [Call.data, Int.toNat_eq_zero.mpr empty, List.replicate_zero]
  apply Outcome.done 0
  · rw [Call.fault_of_accepted (by omega)]
    simp [Call.hasByte, empty]
  · rw [size, data, put_nil, Int.toNat_natCast, grow_of_le b.length_le, call, fill, if_pos empty]

private theorem outcome_fill (b : Buffer) {byte count : Int} (some_bytes : ¬count ≤ 0) :
    Outcome b (.fill byte count) := by
  have size : (Call.fill byte count).size b = b.length + count := by
    simp only [Call.size]
    omega
  by_cases range : b.length + count < 0 ∨ maxSize < b.length + count
  · apply Outcome.refused _ (Call.fault_of_refused (by rwa [size]))
    simp only [call, fill, some_bytes, if_false, reserve_of_refused range]
  · have fault := @Call.fault_of_accepted b (.fill byte count) (by rwa [size])
    by_cases isByte : 0 ≤ byte ∧ byte < 256
    · apply Outcome.done count.toNat
      · rw [fault, if_pos ((Call.hasByte_fill some_bytes).mpr isByte)]
      · simp only [call, fill, some_bytes, if_false, reserve_of_accepted range,
          if_pos isByte, size, Call.data]
    · apply Outcome.failed .byteOutOfRange
      · rw [fault, if_neg (mt (Call.hasByte_fill some_bytes).mp isByte)]
      · simp only [call, fill, some_bytes, if_false, reserve_of_accepted range,
          if_neg isByte, size]

theorem outcome (within : b.length ≤ maxSize) {c : Call}
    (plain : ∀ n, (b.call c).1 = .ok n → c.IsPlain b) : Outcome b c := by
  cases c with
  | write source => exact outcome_write plain
  | fill byte count =>
      by_cases empty : count ≤ 0
      · exact outcome_fill_empty within empty
      · exact outcome_fill b empty
  | ensureCapacity size => exact outcome_ensureCapacity b size

/-! ## What one call does -/

abbrev CallEvent := Event Buffer Call (Except Error Nat)

def appended (e : CallEvent) : Bytes :=
  match e.answer with
  | .ok _ => e.call.data e.before
  | .error _ => []

def written (history : List CallEvent) : Bytes :=
  history.flatMap appended

/-- What holds of a call after some others to a buffer that started with storage for `initial`
bytes. -/
structure IsAppending (initial : Nat) (past : List CallEvent) (e : CallEvent) : Prop where
  bytes : e.after.bytes = written (past ++ [e])
  length : e.after.length = (written (past ++ [e])).length
  room : e.after.length ≤ e.after.capacity
  grows : e.before.capacity ≤ e.after.capacity
  doubled : ∃ k : Nat, e.after.capacity = initial * 2 ^ k
  least : ∀ n, e.answer = .ok n →
    IsLeast {capacity : Nat | (∃ k : Nat, capacity = initial * 2 ^ k) ∧
      e.call.size e.before ≤ capacity ∧ e.before.capacity ≤ capacity} e.after.capacity
  fails : ∀ f, e.answer = .error f ↔ e.call.fault e.before = some f
  unchanged : ∀ f, e.answer = .error f →
    e.after.bytes = e.before.bytes ∧ e.after.length = e.before.length

structure IsReached (initial : Nat) (past : List CallEvent) (b : Buffer) : Prop where
  bytes : b.bytes = written past
  within : b.length ≤ maxSize
  doubled : ∃ k : Nat, b.capacity = initial * 2 ^ k

section Outcome

variable {initial : Nat} {past : List CallEvent} {c : Call}

theorem written_concat (past : List CallEvent) (e : CallEvent) :
    written (past ++ [e]) = written past ++ appended e := by
  rw [written, written, List.flatMap_append, List.flatMap_singleton]

theorem Outcome.bytes_call (o : Outcome b c) :
    (b.call c).2.bytes = b.bytes ++ appended (Event.ofCall call b c) := by
  cases o with
  | refused _ _ eq => simp [Event.ofCall, appended, eq]
  | failed _ _ eq => simp [Event.ofCall, appended, eq]
  | done _ _ eq => simp [Event.ofCall, appended, eq]

theorem Outcome.call_eq_error_iff (o : Outcome b c) {f : Error} :
    (b.call c).1 = .error f ↔ c.fault b = some f := by
  cases o with
  | refused _ fault eq => rw [eq, fault, Except.error.injEq, Option.some.injEq]
  | failed _ fault eq => rw [eq, fault, Except.error.injEq, Option.some.injEq]
  | done _ fault eq => simp [eq, fault]

private theorem Outcome.length_call_le (o : Outcome b c) (within : b.length ≤ maxSize) :
    (b.call c).2.length ≤ maxSize := by
  cases o with
  | refused _ _ eq => simpa [eq] using within
  | failed _ _ eq => simpa [eq] using within
  | done _ fault eq =>
      have accepted := Call.accepted_of_fault fault
      have bound := Call.length_data_le b c
      rw [eq, length_put, length_grow]
      omega

/-- The data of a call that is not at fault finds storage, so that putting it there leaves the
capacity as growing made it. -/
theorem capacity_call_of_done (fault : c.fault b = none) :
    ((b.grow (c.size b).toNat).put (c.data b) []).capacity =
      (b.grow (c.size b).toNat).capacity := by
  have accepted := Call.accepted_of_fault fault
  have bound := Call.length_data_le b c
  have sized := b.size_le_capacity_grow (c.size b).toNat
  have longer := Nat.le_trans b.length_le (b.capacity_le_capacity_grow (c.size b).toNat)
  apply capacity_put
  rw [length_grow]
  omega

theorem Outcome.exists_capacity_call (o : Outcome b c) :
    ∃ k : Nat, (b.call c).2.capacity = b.capacity * 2 ^ k := by
  cases o with
  | refused _ _ eq => exact ⟨0, by simp [eq]⟩
  | failed _ _ eq =>
      rw [eq]
      exact exists_capacity_grow _ _
  | done _ fault eq =>
      rw [eq, capacity_call_of_done fault]
      exact exists_capacity_grow _ _

theorem Outcome.isReached (o : Outcome b c) (reached : IsReached initial past b) :
    IsReached initial (past ++ [Event.ofCall call b c]) (b.call c).2 where
  bytes := by rw [o.bytes_call, reached.bytes, written_concat]
  within := o.length_call_le reached.within
  doubled := exists_doubling_trans reached.doubled o.exists_capacity_call

private theorem Outcome.isAppending (o : Outcome b c) (pos : 0 < initial)
    (reached : IsReached initial past b) :
    IsAppending initial past (Event.ofCall call b c) where
  bytes := (o.isReached reached).bytes
  length := by rw [← (o.isReached reached).bytes, length_bytes]; rfl
  room := (b.call c).2.length_le
  grows := by
    obtain ⟨k, after⟩ := o.exists_capacity_call
    show b.capacity ≤ (b.call c).2.capacity
    rw [after]
    exact Nat.le_mul_of_pos_right _ (Nat.two_pow_pos _)
  doubled := (o.isReached reached).doubled
  least := by
    intro n (answer : (b.call c).1 = .ok n)
    cases o with
    | refused _ _ eq => rw [eq] at answer; cases answer
    | failed _ _ eq => rw [eq] at answer; cases answer
    | done _ fault eq =>
        have least := isLeast_capacity_grow pos reached.doubled (c.size b).toNat
        rw [← capacity_call_of_done fault] at least
        simpa only [Event.ofCall, eq, Int.toNat_le] using least
  fails := fun f => o.call_eq_error_iff
  unchanged := by
    intro f (answer : (b.call c).1 = .error f)
    have same : (b.call c).2.bytes = b.bytes := by
      rw [o.bytes_call]
      simp [appended, Event.ofCall, answer]
    exact ⟨same, by rw [← length_bytes, ← length_bytes]; exact congrArg List.length same⟩

end Outcome

section Plain

variable {initial : Nat} {past : List CallEvent}

theorem IsAppending.length_eq {v : BytesLike} (reached : IsReached initial past b)
    (holds : IsAppending initial past (Event.ofCall call b (.write (.data v))))
    (range : b.length + v.length ≤ maxSize) : v.length = v.bytes.length := by
  have accepted := @write_of_accepted b (.data v) v.length rfl range
  have bytes := holds.bytes
  rw [written_concat, ← reached.bytes] at bytes
  simp only [Event.ofCall, call, accepted, appended, Call.data, Source.bytes, bytes_put,
    bytes_grow] at bytes
  have whole := congrArg List.length (List.append_cancel_left bytes)
  have fewer := v.length_le
  rw [List.length_take] at whole
  omega

/-- Storage that had to grow to hold itself is inserted as grown, and longer after that than it
had to be. -/
theorem IsAppending.length_eq_zero (pos : 0 < initial) (reached : IsReached initial past b)
    (holds : IsAppending initial past (Event.ofCall call b (.write .storage)))
    (range : b.length + b.capacity ≤ maxSize) : b.length = 0 := by
  have accepted := @write_of_accepted b .storage b.capacity rfl range
  have needed := (isLeast_capacity_grow pos reached.doubled (b.length + b.capacity)).1
  have enough := b.size_le_capacity_grow (b.length + b.capacity)
  have least : (b.write .storage).2.capacity ≤ (b.grow (b.length + b.capacity)).capacity := by
    apply (holds.least b.capacity (congrArg Prod.fst accepted)).2
    have size : (Call.write .storage).size b = (b.length + b.capacity : Nat) := rfl
    exact ⟨needed.1, size ▸ Int.ofNat_le.mpr needed.2.1, needed.2.2⟩
  rw [accepted] at least
  simp only [Source.bytes] at least
  rw [capacity_put] at least
  · rw [List.length_drop] at least
    simp only [capacity] at enough least
    omega
  · rw [length_grow, List.length_take]
    omega

theorem isAppending_iff (pos : 0 < initial) (reached : IsReached initial past b) {c : Call} :
    IsAppending initial past (Event.ofCall call b c) ↔
      ∀ n, (b.call c).1 = .ok n → c.IsPlain b := by
  refine ⟨fun holds n answer => ?_, fun plain =>
    (outcome reached.within plain).isAppending pos reached⟩
  cases c with
  | fill byte count => trivial
  | ensureCapacity size => trivial
  | write source =>
      have range : b.length + source.length b.storage ≤ maxSize := by
        refine Nat.not_lt.mp fun long => ?_
        rw [call, write_of_refused long] at answer
        cases answer
      cases source with
      | data v => exact holds.length_eq reached range
      | storage => exact holds.length_eq_zero pos reached range

end Plain

/-! ## Sequences of calls -/

def wrotePlain (e : CallEvent) : Prop :=
  ∀ n, e.answer = .ok n → e.call.IsPlain e.before

theorem forall_events_iff {initial : Nat} (pos : 0 < initial) (calls : List Call) :
    ∀ {b : Buffer} {before : List CallEvent}, IsReached initial before b →
      ((∀ past e later, events call b calls = past ++ e :: later →
        IsAppending initial (before ++ past) e) ↔ ∀ e ∈ events call b calls, wrotePlain e) := by
  induction calls with
  | nil =>
      intro b before _
      constructor
      · intro _ e mem
        cases mem
      · intro _ past e later split
        cases past <;> cases split
  | cons c calls ih =>
      intro b before reached
      rw [forall_events_cons_iff (P := fun past => IsAppending initial (before ++ past)), events,
        List.forall_mem_cons, List.append_nil, isAppending_iff pos reached]
      refine and_congr_right fun plain => ?_
      have next := ih ((outcome reached.within plain).isReached reached)
      simpa only [List.append_assoc, List.singleton_append] using next

def pairs : BytesLike :=
  ⟨[1, 2, 3, 4], 2, by decide, by decide⟩

end ByteTemplate.Buffer
