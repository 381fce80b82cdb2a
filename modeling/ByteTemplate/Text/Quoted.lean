import ByteTemplate.Text
import ByteTemplate.Text.Characters
import ByteTemplate.Text.Hexadecimal

/-!
# Quoted text and bytes

A quoted text stands between single quotes, or between double quotes when it holds a single
quote and no double quote.  The quote in use and the backslash are escaped, as is everything
that is not printable.  Bytes are quoted in the same way after the letter `b`, and only the
printable ASCII characters stand for themselves.  In byte strings that can grow it is the single
quote that is escaped, whichever quote is in use.
-/

namespace ByteTemplate

namespace Quoted

def quoteFor (hasSingle hasDouble : Bool) : Char :=
  if hasSingle && !hasDouble then '"' else '\''

def numericEscape (n : Nat) : List Char :=
  if n < 0x100 then '\\' :: 'x' :: Hexadecimal.digits 2 n
  else if n < 0x10000 then '\\' :: 'u' :: Hexadecimal.digits 4 n
  else '\\' :: 'U' :: Hexadecimal.digits 8 n

def shortEscape? (quote : Char) (n : Nat) : Option (List Char) :=
  if n = quote.toNat then some ['\\', quote]
  else if n = 0x5C then some ['\\', '\\']
  else if n = 0x09 then some ['\\', 't']
  else if n = 0x0A then some ['\\', 'n']
  else if n = 0x0D then some ['\\', 'r']
  else none

def codePoint (quote : Char) (c : CodePoint) : List Char :=
  match shortEscape? quote c.value, c with
  | some escape, _ => escape
  | none, .scalar c => if Text.isPrintable c.toNat then [c] else numericEscape c.toNat
  | none, .surrogate n => numericEscape (CodePoint.surrogate n).value

def byte (quote : Char) (b : UInt8) : List Char :=
  match shortEscape? quote b.toNat with
  | some escape => escape
  | none =>
      if 0x20 ≤ b.toNat ∧ b.toNat < 0x7F then [Char.ofNat b.toNat]
      else numericEscape b.toNat

def quoteOfBytes (bs : List UInt8) : Char :=
  quoteFor (bs.contains 0x27) (bs.contains 0x22)

/-- Bytes between quotes, where of the two quotes only `escaped` gets a backslash. -/
def bytes (quote escaped : Char) (bs : List UInt8) : String :=
  String.ofList ('b' :: quote :: bs.flatMap (byte escaped) ++ [quote])

end Quoted

def Text.quoted (t : Text) : String :=
  let quote := Quoted.quoteFor
    (t.any fun c => c.value == 0x27) (t.any fun c => c.value == 0x22)
  String.ofList (quote :: t.flatMap (Quoted.codePoint quote) ++ [quote])

def quotedBytes (bs : List UInt8) : String :=
  let quote := Quoted.quoteOfBytes bs
  Quoted.bytes quote quote bs

def quotedGrowable (bs : List UInt8) : String :=
  "bytearray(" ++ Quoted.bytes (Quoted.quoteOfBytes bs) '\'' bs ++ ")"

end ByteTemplate
