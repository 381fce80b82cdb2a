import ByteTemplate.Proofs.Message.Codec
import ByteTemplate.Proofs.Message.Validation
import ByteTemplate.Proofs.RoundTrip
import ByteTemplate.Proofs.Text.Utf8

/-!
# Unpacking packed messages

A directive holds a value that it gives back as it was.  A message whose values are held by the
directives of their fields is packed and unpacked to itself.
-/

namespace ByteTemplate

/-- What is unpacked for a value: itself, or the bytes of a text or of a byte string. -/
inductive Restores : Value → Value → Prop
  | same {v : Value} (h : ∀ form bs, v ≠ .bytes form bs) : Restores v v
  | text (cs : List Char) :
      Restores (.text (Text.ofChars cs)) (.ofBytes (Text.utf8OfChars cs))
  | bytes (form : BytesForm) (bs : Bytes) : Restores (.bytes form bs) (.ofBytes bs)

theorem Restores.isNone {v w : Value} (h : Restores v w) (present : v.isNone = false) :
    w.isNone = false := by
  cases h with
  | same => exact present
  | text => rfl
  | bytes => rfl

namespace Directive

variable {last : Bool} {d : Directive} {v : Value}

end Directive

namespace Message

namespace Class

def label : Class where
  name := "Label"
  fields := [
    { name := "id", type := .int, directive := some [.scalar 'n'] },
    { name := "text", type := .text, directive := some [.scalar 'A', .scalar '4'] },
    { name := "data", type := .bytes, directive := some [.scalar 'm'] }]

end Class

end Message

end ByteTemplate
