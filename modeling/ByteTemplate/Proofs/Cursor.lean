import ByteTemplate.Proofs.Calls
import ByteTemplate.Proofs.Unread

/-!
# Calls of a cursor

Whatever is called, failing calls included, a cursor stays in its data and moves on over the bytes
that it reads, as long as nothing is read with a negative size.  The first such read takes it back.
-/

namespace ByteTemplate.Cursor

inductive Call where
  | peek (size : Int)
  | advance (count : Int)
  | read (size : Int)
  deriving DecidableEq, Repr

def Call.isForward : Call → Bool
  | .read size => 0 ≤ size
  | _ => true

/-- What a call answers, and the cursor after it.  A call that fails leaves it where it was. -/
def call (c : Cursor) : Call → Except Error (Option Bytes) × Cursor
  | .peek size => (.ok (some (c.peek size)), c)
  | .advance count =>
      match c.advance count with
      | .ok moved => (.ok none, moved)
      | .error e => (.error e, c)
  | .read size =>
      match c.read size with
      | .ok (bs, moved) => (.ok (some bs), moved)
      | .error e => (.error e, c)

abbrev CallEvent := Event Cursor Call (Except Error (Option Bytes))

/-- What is expected of a call of a cursor in some data. -/
structure IsOrderly (data : Bytes) (e : CallEvent) : Prop where
  same : e.after.data = data
  start : 0 ≤ e.after.position
  stop : e.after.position ≤ data.length
  forward : e.before.position ≤ e.after.position
  remaining : e.after.remaining = data.length - e.after.position
  fails : ∀ f, e.answer = .error f → f.kind = .index ∧ e.after.position = e.before.position
  reads : ∀ size bs, e.call = .read size → e.answer = .ok (some bs) →
    e.after.position = e.before.position + size ∧ (bs.length : Int) = size ∧
      bs = (data.drop e.before.position.toNat).take size.toNat

variable {data : Bytes} {n : Nat} {c : Call}

inductive Outcome (data : Bytes) (n : Nat) (c : Call) : Prop where
  | peeked (bs : Bytes) (unread : ∀ size, c ≠ .read size)
      (eq : call ⟨data, n⟩ c = (.ok (some bs), ⟨data, n⟩))
  | failed (f : Error) (index : f.kind = .index) (eq : call ⟨data, n⟩ c = (.error f, ⟨data, n⟩))
  | advanced (k : Nat) (inside : n + k ≤ data.length)
      (eq : call ⟨data, n⟩ c = (.ok none, ⟨data, (n + k : Nat)⟩))
  | read (k : Nat) (size : c = .read k) (inside : n + k ≤ data.length)
      (eq : call ⟨data, n⟩ c = (.ok (some ((data.drop n).take k)), ⟨data, (n + k : Nat)⟩))

private theorem outcome_advance (inside : n ≤ data.length) (count : Int) :
    Outcome data n (.advance count) := by
  by_cases outside : count < 0 ∨ remaining ⟨data, n⟩ < count
  · apply Outcome.failed (.advanceOutOfRange count (remaining ⟨data, n⟩)) rfl
    rw [call, advance, if_pos outside]
  · rw [remaining_eq inside] at outside
    obtain ⟨k, rfl⟩ := Int.eq_ofNat_of_zero_le (show 0 ≤ count by omega)
    have room : n + k ≤ data.length := by omega
    apply Outcome.advanced k room
    simp only [call, advance_eq room]

private theorem outcome_read (inside : n ≤ data.length) {size : Int} (nonneg : 0 ≤ size) :
    Outcome data n (.read size) := by
  obtain ⟨k, rfl⟩ := Int.eq_ofNat_of_zero_le nonneg
  by_cases short : remaining ⟨data, n⟩ < k
  · apply Outcome.failed (.readOutOfRange k (remaining ⟨data, n⟩)) rfl
    rw [call, read, if_pos short]
  · have room : n + k ≤ data.length := by
      rw [remaining_eq inside] at short
      omega
    apply Outcome.read k rfl room
    rw [call, read, if_neg short, peek_eq inside]
    rfl

theorem outcome (inside : n ≤ data.length) (forward : c.isForward = true) : Outcome data n c := by
  cases c with
  | peek size => exact .peeked (peek ⟨data, n⟩ size) nofun rfl
  | advance count => exact outcome_advance inside count
  | read size => exact outcome_read inside (of_decide_eq_true forward)

/-- A read of a negative size is not refused: it shows all that is unread and moves back. -/
theorem call_read_of_neg (inside : n ≤ data.length) {size : Int} (neg : size < 0) :
    call ⟨data, n⟩ (.read size) = (.ok (some (data.drop n)), ⟨data, n + size⟩) := by
  have accepted : ¬remaining ⟨data, n⟩ < size := by
    rw [remaining_eq inside]
    omega
  rw [call, read, if_neg accepted, peek, if_pos neg, unread_eq inside]

theorem isOrderly_of_call {answer : Except Error (Option Bytes)} {m : Nat}
    (eq : call ⟨data, n⟩ c = (answer, ⟨data, m⟩)) (forward : n ≤ m) (inside : m ≤ data.length)
    (fails : ∀ f, answer = .error f → f.kind = .index ∧ m = n)
    (reads : ∀ size bs, c = .read size → answer = .ok (some bs) →
      m = n + size ∧ (bs.length : Int) = size ∧ bs = (data.drop n).take size.toNat) :
    IsOrderly data (Event.ofCall call ⟨data, n⟩ c) := by
  rw [Event.ofCall, eq]
  exact {
    same := rfl
    start := Int.natCast_nonneg m
    stop := Int.ofNat_le.mpr inside
    forward := Int.ofNat_le.mpr forward
    remaining := rfl
    fails := fun f failed => ⟨(fails f failed).1, congrArg Int.ofNat (fails f failed).2⟩
    reads := reads }

theorem isOrderly_of_forward (inside : n ≤ data.length) (forward : c.isForward = true) :
    IsOrderly data (Event.ofCall call ⟨data, n⟩ c) := by
  cases outcome inside forward with
  | peeked bs unread eq =>
      exact isOrderly_of_call eq (Nat.le_refl n) inside nofun
        (fun size _ own _ => absurd own (unread size))
  | failed f index eq =>
      refine isOrderly_of_call eq (Nat.le_refl n) inside ?_ nofun
      rintro _ ⟨⟩
      exact ⟨index, rfl⟩
  | advanced k room eq => exact isOrderly_of_call eq (Nat.le_add_right n k) room nofun nofun
  | read k size room eq =>
      refine isOrderly_of_call eq (Nat.le_add_right n k) room nofun ?_
      rintro _ _ own ⟨⟩
      obtain rfl : (k : Int) = _ := Call.read.inj (size.symm.trans own)
      have length : ((data.drop n).take k).length = k := by
        rw [List.length_take, List.length_drop]
        omega
      exact ⟨Int.natCast_add n k, congrArg Int.ofNat length, rfl⟩

theorem isOrderly_iff (inside : n ≤ data.length) :
    IsOrderly data (Event.ofCall call ⟨data, n⟩ c) ↔ c.isForward = true := by
  refine ⟨fun orderly => ?_, isOrderly_of_forward inside⟩
  cases c with
  | read size =>
      apply decide_eq_true
      have forward := orderly.forward
      by_cases neg : size < 0
      · rw [Event.ofCall, call_read_of_neg inside neg] at forward
        dsimp only at forward
        omega
      · omega
  | _ => rfl

private theorem IsOrderly.exists_after {e : CallEvent} (orderly : IsOrderly data e) :
    ∃ m ≤ data.length, e.after = ⟨data, (m : Nat)⟩ := by
  obtain ⟨before, a, answer, ⟨own, position⟩⟩ := e
  obtain rfl : own = data := orderly.same
  obtain ⟨m, rfl⟩ := Int.eq_ofNat_of_zero_le orderly.start
  exact ⟨m, Int.ofNat_le.mp orderly.stop, rfl⟩

theorem forall_events_iff (calls : List Call) : ∀ {n : Nat}, n ≤ data.length →
    ((∀ e ∈ events call ⟨data, n⟩ calls, IsOrderly data e) ↔
      ∀ c ∈ calls, c.isForward = true) := by
  induction calls with
  | nil => simp [events]
  | cons c calls ih =>
      intro n inside
      rw [events, List.forall_mem_cons, List.forall_mem_cons, isOrderly_iff inside]
      refine and_congr_right fun forward => ?_
      obtain ⟨m, within, after⟩ := (isOrderly_of_forward inside forward).exists_after
      have moved : (call ⟨data, n⟩ c).2 = ⟨data, m⟩ := after
      rw [moved]
      exact ih within

/-- The calls of a cursor are all orderly exactly where none of them reads a negative size. -/
theorem isOrderly_events_iff (data : Bytes) (calls : List Call) :
    (∀ e ∈ events call ⟨data, 0⟩ calls, IsOrderly data e) ↔
      ∀ size, Call.read size ∈ calls → 0 ≤ size := by
  refine (forall_events_iff calls (Nat.zero_le _)).trans ⟨fun forward size mem => ?_, ?_⟩
  · exact of_decide_eq_true (forward _ mem)
  · intro nonneg c mem
    cases c with
    | read size => exact decide_eq_true (nonneg size mem)
    | _ => rfl

theorem isOrderly_events_iff_read_back :
    (¬∀ e ∈ events call ⟨[1, 2], 0⟩ [.read (-1)], IsOrderly [1, 2] e) ∧
      call ⟨[1, 2], 0⟩ (.read (-1)) = (.ok (some [1, 2]), ⟨[1, 2], -1⟩) := by
  refine ⟨fun orderly => ?_, rfl⟩
  have nonneg := (isOrderly_events_iff [1, 2] [.read (-1)]).mp orderly (-1) (by simp)
  exact absurd nonneg (by decide)

end ByteTemplate.Cursor
