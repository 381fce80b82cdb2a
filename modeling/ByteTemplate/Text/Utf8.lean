import ByteTemplate.Codec.Codepoint

/-!
# UTF-8

The UTF-8 form of a text, which it has unless it holds a surrogate, and the text of such a form.
-/

namespace ByteTemplate.Text

def surrogateError (position : Nat) : Text → Error
  | [] => .surrogates position position (.scalar '\x00')
  | c :: rest =>
      if c.isSurrogate then
        .surrogates position (position + (rest.takeWhile CodePoint.isSurrogate).length) c
      else surrogateError (position + 1) rest

def toUtf8 (t : Text) : Except Error Bytes :=
  match t.utf8? with
  | some bs => .ok bs
  | none => .error (surrogateError 0 t)

/-- The text with a UTF-8 form, none for bytes that are no UTF-8; `fuel` bounds its length. -/
def ofUtf8From : Nat → Bytes → Option Text
  | _, [] => some []
  | 0, _ :: _ => none
  | fuel + 1, b :: bs =>
      match Codepoint.decode (b :: bs) with
      | .ok (some n, size) =>
          if n.isValidChar then
            (ofUtf8From fuel ((b :: bs).drop size)).map (.scalar (Char.ofNat n) :: ·)
          else none
      | _ => none

def ofUtf8? (bs : Bytes) : Option Text :=
  ofUtf8From bs.length bs

end ByteTemplate.Text
