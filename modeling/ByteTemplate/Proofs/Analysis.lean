import Mathlib.Algebra.Order.BigOperators.Group.List
import Mathlib.Algebra.Order.Group.Nat
import Mathlib.Algebra.Ring.Nat
import ByteTemplate.Analysis

/-!
# What analysis prints

A line fails where a number on it has too many digits to be shown, and with it all that follows.
So the table is printed to its end exactly where the total and the widths of the integers are
short enough; no size is longer than the total.
-/

namespace ByteTemplate

namespace Analysis

private theorem mapM_snd_of_map {sizes : List (Directive × Option Nat)} :
    ∀ {ns : List Nat}, sizes.map Prod.snd = ns.map some → sizes.mapM Prod.snd = some ns := by
  induction sizes with
  | nil =>
      intro ns known
      obtain rfl := List.map_eq_nil_iff.mp known.symm
      rfl
  | cons first sizes ih =>
      intro ns known
      cases ns with
      | nil => cases known
      | cons n ns =>
          obtain ⟨size, others⟩ := List.cons.inj known
          rw [List.mapM_cons, size, ih others]
          rfl

theorem total_of_sizes {sizes : List (Directive × Option Nat)} {ns : List Nat}
    (known : sizes.map Prod.snd = ns.map some) :
    total sizes = (shownDigits ns.sum).map fun size =>
      s!"Packed size: {String.ofList size} bytes" := by
  simp only [total, mapM_snd_of_map known, List.sum_eq_foldl]

end Analysis

/-- What is shown under a condition on the numbers in it, and has too many digits otherwise. -/
def ShownIff {α : Type} (x : Except Error α) (shown : Prop) : Prop :=
  (shown ∧ ∃ a, x = .ok a) ∨ (¬shown ∧ x = .error .tooManyDigits)

namespace ShownIff

variable {α β : Type} {x : Except Error α} {p q : Prop}

theorem ok (a : α) : ShownIff (.ok a) True :=
  .inl ⟨trivial, a, rfl⟩

theorem map (f : α → β) (h : ShownIff x p) : ShownIff (x.map f) p := by
  obtain ⟨shown, a, rfl⟩ | ⟨unshown, rfl⟩ := h
  · exact .inl ⟨shown, f a, rfl⟩
  · exact .inr ⟨unshown, rfl⟩

theorem bind {f : α → Except Error β} (h : ShownIff x p) (next : ∀ a, ShownIff (f a) q) :
    ShownIff (x >>= f) (p ∧ q) := by
  obtain ⟨shown, a, rfl⟩ | ⟨unshown, rfl⟩ := h
  · obtain ⟨also, b, eq⟩ | ⟨unshown, eq⟩ := next a
    · exact .inl ⟨⟨shown, also⟩, b, eq⟩
    · exact .inr ⟨fun both => unshown both.2, eq⟩
  · exact .inr ⟨fun both => unshown both.1, rfl⟩

theorem congr (h : ShownIff x p) (same : p ↔ q) : ShownIff x q :=
  (propext same) ▸ h

end ShownIff

theorem shownIff_shownDigits (n : Nat) : ShownIff (shownDigits n) (Integer.isShowable n) := by
  unfold shownDigits
  by_cases shown : Integer.isShowable n = true
  · exact .inl ⟨shown, _, if_pos shown⟩
  · exact .inr ⟨shown, if_neg shown⟩

def Directive.HasShownWidth (d : Directive) : Prop :=
  match d.codec with
  | .element (.integer _ width) => Integer.isShowable (width * 8 : Nat)
  | _ => True

private theorem Directive.shownIff_describe (d : Directive) :
    ShownIff d.describe d.HasShownWidth := by
  unfold describe HasShownWidth
  generalize d.codec = codec
  split
  · next _ width =>
      unfold describeInteger
      exact (shownIff_shownDigits (width * 8)).map _
  all_goals exact .ok _

namespace Printout

theorem toExcept_cons (line : Except Error Text) (rest : List (Except Error Text)) :
    (ofLines (line :: rest)).toExcept = line >>= fun front =>
      (ofLines rest).toExcept >>= fun back => .ok (front ++ Text.ofChars ['\n'] ++ back) := by
  cases line with
  | error e => rfl
  | ok front =>
      simp only [ofLines, toExcept]
      cases (ofLines rest).fault <;> rfl

theorem toExcept_append (front back : List (Except Error Text)) :
    (ofLines (front ++ back)).toExcept = (ofLines front).toExcept >>= fun first =>
      (ofLines back).toExcept >>= fun last => .ok (first ++ last) := by
  induction front with
  | nil =>
      show (ofLines back).toExcept = (ofLines back).toExcept >>= fun last => .ok last
      cases (ofLines back).toExcept <;> rfl
  | cons line front ih =>
      rw [List.cons_append, toExcept_cons, toExcept_cons, ih]
      cases line with
      | error e => rfl
      | ok line =>
          cases (ofLines front).toExcept with
          | error e => rfl
          | ok first =>
              cases (ofLines back).toExcept with
              | error e => rfl
              | ok last => simp only [Except.bind, bind, List.append_assoc]

theorem shownIff_nil : ShownIff (ofLines []).toExcept True :=
  .ok []

theorem shownIff_cons {line : Except Error Text} {rest : List (Except Error Text)} {p q : Prop}
    (first : ShownIff line p) (others : ShownIff (ofLines rest).toExcept q) :
    ShownIff (ofLines (line :: rest)).toExcept (p ∧ q) := by
  rw [toExcept_cons]
  exact first.bind fun _ => others.map _

theorem shownIff_append {front back : List (Except Error Text)} {p q : Prop}
    (first : ShownIff (ofLines front).toExcept p) (last : ShownIff (ofLines back).toExcept q) :
    ShownIff (ofLines (front ++ back)).toExcept (p ∧ q) := by
  rw [toExcept_append]
  exact first.bind fun _ => last.map _

private theorem shownIff_texts (texts : List Text) :
    ShownIff (ofLines (texts.map .ok)).toExcept True := by
  induction texts with
  | nil => exact shownIff_nil
  | cons text texts ih => exact (shownIff_cons (.ok text) ih).congr and_self_iff

end Printout

namespace Analysis

private theorem shownIff_line (number : Nat) (d : Directive) (size : Option Nat) :
    ShownIff (line number d size)
      ((∀ n ∈ size, Integer.isShowable n = true) ∧ d.HasShownWidth) := by
  have sized : ShownIff (shownSize size) (∀ n ∈ size, Integer.isShowable n = true) := by
    cases size with
    | none => exact (ShownIff.ok _).congr (by simp)
    | some n => exact (shownIff_shownDigits n).congr (by simp)
  exact sized.bind fun _ => d.shownIff_describe.map _

private theorem shownIff_lines (sizes : List (Directive × Option Nat)) :
    ∀ number, ShownIff (Printout.ofLines (lines number sizes)).toExcept
      (∀ row ∈ sizes, (∀ n ∈ row.2, Integer.isShowable n = true) ∧ row.1.HasShownWidth) := by
  induction sizes with
  | nil => exact fun _ => (ShownIff.ok _).congr (by simp)
  | cons row sizes ih =>
      intro number
      rw [List.forall_mem_cons]
      exact Printout.shownIff_cons (shownIff_line number row.1 row.2) (ih (number + 1))

private theorem shownIff_total {sizes : List (Directive × Option Nat)} {ns : List Nat}
    (known : sizes.map Prod.snd = ns.map some) :
    ShownIff (total sizes) (Integer.isShowable ns.sum) := by
  rw [total_of_sizes known]
  exact (shownIff_shownDigits ns.sum).map _

theorem shownIff_table (template : Text) {sizes : List (Directive × Option Nat)} {ns : List Nat}
    (known : sizes.map Prod.snd = ns.map some) :
    ShownIff (Printout.ofLines (table template sizes)).toExcept
      (Integer.isShowable ns.sum ∧ ∀ row ∈ sizes, row.1.HasShownWidth) := by
  have last := Printout.shownIff_cons ((shownIff_total known).map Text.ofString)
    Printout.shownIff_nil
  have whole := Printout.shownIff_append
    (Printout.shownIff_append (Printout.shownIff_texts (heading template sizes))
      (shownIff_lines sizes 1))
    (Printout.shownIff_cons (.ok []) last)
  refine whole.congr ⟨fun ⟨⟨_, rows⟩, _, sum, _⟩ => ⟨sum, fun row mem => (rows row mem).2⟩, ?_⟩
  rintro ⟨sum, widths⟩
  refine ⟨⟨trivial, fun row mem => ⟨fun n size => ?_, widths row mem⟩⟩, trivial, sum, trivial⟩
  -- A size is at most the sum of them all, so it has no more digits.
  have one : n ∈ ns := by
    have listed := List.mem_map_of_mem (f := Prod.snd) mem
    rw [known, Option.mem_def.mp size] at listed
    simpa using listed
  rw [Integer.isShowable_natCast_iff] at sum ⊢
  exact Nat.lt_of_le_of_lt (List.le_sum_of_mem one) sum

theorem exists_printed_eq {template : Text} {sizes : List (Directive × Option Nat)} {text : Text}
    (printed : (Printout.ofLines (table template sizes)).toExcept = .ok text) :
    ∃ front last, total sizes = .ok last ∧
      text = front ++ Text.ofString last ++ Text.ofChars ['\n'] := by
  rw [table, Printout.toExcept_append, Printout.toExcept_cons, Printout.toExcept_cons] at printed
  cases above : (Printout.ofLines ((heading template sizes).map .ok ++ lines 1 sizes)).toExcept with
  | error e => rw [above] at printed; cases printed
  | ok front =>
      cases size : total sizes with
      | error e => rw [above, size] at printed; cases printed
      | ok last =>
          rw [above, size] at printed
          refine ⟨front ++ Text.ofChars ['\n'], last, rfl, (Except.ok.inj printed).symm.trans ?_⟩
          simp [Printout.ofLines]

end Analysis

end ByteTemplate
