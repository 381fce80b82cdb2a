/-!
# Walks along a list

`walk` runs a step with a state over a list until one fails.  What the steps before the failure
put out is kept.
-/

namespace ByteTemplate

universe u v w x

variable {α : Type u} {σ : Type v} {ω : Type w} {ε : Type x}

def walk (step : σ → α → Except ε (ω × σ)) : σ → List α → List ω × Except ε σ
  | s, [] => ([], .ok s)
  | s, a :: rest =>
      match step s a with
      | .error e => ([], .error e)
      | .ok (out, s) =>
          let (outs, last) := walk step s rest
          (out :: outs, last)

/-- A walk along two lists is the walk along the first, continued along the second. -/
theorem walk_append (step : σ → α → Except ε (ω × σ)) (s : σ) (first second : List α) :
    walk step s (first ++ second) =
      match walk step s first with
      | (outs, .error e) => (outs, .error e)
      | (outs, .ok s) => (outs ++ (walk step s second).1, (walk step s second).2) := by
  induction first generalizing s with
  | nil => simp [walk]
  | cons a first ih =>
      simp only [List.cons_append, walk]
      cases step s a with
      | error e => rfl
      | ok result =>
          rcases result with ⟨out, s⟩
          simp only [ih]
          rcases walk step s first with ⟨outs, last⟩
          cases last <;> simp

end ByteTemplate
