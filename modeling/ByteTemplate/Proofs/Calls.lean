/-!
# Calls one after another

An object is called again and again.  Each call answers, and leaves the object to the next one,
also where the answer is an error.
-/

namespace ByteTemplate

universe u v w

variable {σ : Type u} {α : Type v} {ω : Type w}

structure Event (σ : Type u) (α : Type v) (ω : Type w) where
  before : σ
  call : α
  answer : ω
  after : σ

def Event.ofCall (run : σ → α → ω × σ) (s : σ) (a : α) : Event σ α ω :=
  ⟨s, a, (run s a).1, (run s a).2⟩

def events (run : σ → α → ω × σ) : σ → List α → List (Event σ α ω)
  | _, [] => []
  | s, a :: rest => Event.ofCall run s a :: events run (run s a).2 rest

theorem forall_events_cons_iff {run : σ → α → ω × σ} {s : σ} {a : α} {calls : List α}
    {P : List (Event σ α ω) → Event σ α ω → Prop} :
    (∀ past e later, events run s (a :: calls) = past ++ e :: later → P past e) ↔
      P [] (Event.ofCall run s a) ∧
        ∀ past e later, events run (run s a).2 calls = past ++ e :: later →
          P (Event.ofCall run s a :: past) e := by
  constructor
  · intro each
    exact ⟨each [] _ _ rfl, fun past e later split =>
      each (_ :: past) e later (congrArg (_ :: ·) split)⟩
  · rintro ⟨first, others⟩ past e later split
    cases past with
    | nil =>
        obtain ⟨rfl, -⟩ := List.cons.inj split
        exact first
    | cons _ past =>
        obtain ⟨rfl, rest⟩ := List.cons.inj split
        exact others past e later rest

end ByteTemplate
