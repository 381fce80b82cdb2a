/-!
# Text

A text is a list of code points.  A code point is a Unicode scalar value or one half of a
surrogate pair, so every sequence that can stand in a value is represented; exactly the texts
without surrogates have a UTF-8 form.
-/

namespace ByteTemplate

inductive CodePoint where
  | scalar (c : Char)
  | surrogate (offset : Fin 0x800)
  deriving DecidableEq, Repr

namespace CodePoint

def value : CodePoint → Nat
  | .scalar c => c.toNat
  | .surrogate offset => 0xD800 + offset.val

def ofNat? (n : Nat) : Option CodePoint :=
  if n.isValidChar then some (.scalar (Char.ofNat n))
  else if h : n - 0xD800 < 0x800 then some (.surrogate ⟨n - 0xD800, h⟩)
  else none

def char? : CodePoint → Option Char
  | .scalar c => some c
  | .surrogate _ => none

def isSurrogate : CodePoint → Bool
  | .scalar _ => false
  | .surrogate _ => true

/-- The code point with the number of a byte: bytes read as text, one character each. -/
def ofByte (b : UInt8) : CodePoint :=
  .scalar (Char.ofNat b.toNat)

end CodePoint

abbrev Text := List CodePoint

namespace Text

def ofChars (cs : List Char) : Text :=
  cs.map .scalar

def ofString (s : String) : Text :=
  ofChars s.toList

def ofBytes (bs : List UInt8) : Text :=
  bs.map CodePoint.ofByte

def chars? (t : Text) : Option (List Char) :=
  t.mapM CodePoint.char?

def utf8? (t : Text) : Option (List UInt8) :=
  t.chars?.map (·.flatMap String.utf8EncodeChar)

theorem chars?_ofChars (cs : List Char) : chars? (ofChars cs) = some cs := by
  induction cs with
  | nil => rfl
  | cons c cs ih =>
      simp only [chars?, ofChars] at ih
      simp [chars?, ofChars, CodePoint.char?, ih]

theorem utf8?_ofChars (cs : List Char) :
    utf8? (ofChars cs) = some (cs.flatMap String.utf8EncodeChar) := by
  simp [utf8?, chars?_ofChars]

end Text

end ByteTemplate
