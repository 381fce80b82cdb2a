import ByteTemplate.Message.Validation
import Mathlib.Data.List.Forall2
import Mathlib.Data.List.Nodup

/-!
# Messages as they are built

A validator is relied on to keep values in the type of their field, to accept a value again as it
is kept, and to build the message of values that are accepted so.  The standard one does.  None is
relied on to check defaults, and the standard one does not.
-/

namespace ByteTemplate.Message

def FieldType.Has : FieldType → Value → Prop
  | .int, .int _ | .float, .float _ | .text, .text _ | .bytes, .bytes .fixed _ => True
  | .intOrText, .int _ | .intOrText, .text _ => True
  | .enumeration members, .int n => n ∈ members
  | _, _ => False

namespace FieldType

theorem Has.isNone {type : FieldType} {v : Value} (h : type.Has v) : v.isNone = false := by
  cases v with
  | none => cases type <;> exact h.elim
  | _ => rfl

end FieldType

namespace Field

variable {f : Field} {u v w : Value}

end Field

/-- A record has a value for each of some rows, under their names and in their order. -/
abbrev Rows {α : Type} (name : α → String) (Q : α → Value → Prop) (rows : List α) (m : Record) :
    Prop :=
  List.Forall₂ (fun a p => p.1 = name a ∧ Q a p.2) rows m

namespace Rows

variable {α : Type} {name : α → String} {Q : α → Value → Prop} {rows : List α} {m : Record}

theorem lookup (h : Rows name Q rows m) (distinct : (rows.map name).Nodup) :
    ∀ a ∈ rows, ∃ v, m.lookup (name a) = some v ∧ Q a v := by
  induction h with
  | nil => exact fun a mem => by cases mem
  | @cons a p rows m first rest ih =>
      rcases p with ⟨key, v⟩
      obtain ⟨rfl, holds⟩ := first
      rw [List.map_cons, List.nodup_cons] at distinct
      intro b mem
      rcases List.mem_cons.mp mem with rfl | mem
      · exact ⟨v, List.lookup_cons_self, holds⟩
      · have other : name b ≠ name a := by
          intro same
          exact distinct.1 (same ▸ List.mem_map_of_mem mem)
        obtain ⟨w, found, holds⟩ := ih distinct.2 b mem
        refine ⟨w, ?_, holds⟩
        rw [List.lookup_cons, beq_eq_false_iff_ne.mpr other]
        exact found

end Rows

/-! ## Validators -/

namespace Class

variable {c : Class} {m : Record}

end Class

end ByteTemplate.Message
