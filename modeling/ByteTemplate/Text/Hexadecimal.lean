/-!
# Hexadecimal digits

Digits are written in lower case and read in either.
-/

namespace ByteTemplate.Hexadecimal

def digit (n : Nat) : Char :=
  if n < 10 then Char.ofNat (0x30 + n) else Char.ofNat (0x57 + n)

def value? (n : Nat) : Option Nat :=
  if 0x30 ≤ n ∧ n ≤ 0x39 then some (n - 0x30)
  else if 0x41 ≤ n ∧ n ≤ 0x46 then some (n - 0x37)
  else if 0x61 ≤ n ∧ n ≤ 0x66 then some (n - 0x57)
  else none

def digits : Nat → Nat → List Char
  | 0, _ => []
  | width + 1, n => digits width (n / 16) ++ [digit (n % 16)]

def ofBytes (bs : List UInt8) : List Char :=
  bs.flatMap fun b => digits 2 b.toNat

def isSpace (c : Char) : Bool :=
  c == ' ' || ('\t' ≤ c && c ≤ '\r')

/-- The bytes written in `cs`, which begins at `position`, or the position of the first
character that is not the digit that is wanted there. -/
def readFrom (position : Nat) : List Char → Except Nat (List UInt8)
  | [] => .ok []
  | c :: cs =>
      if isSpace c then readFrom (position + 1) cs
      else
        match value? c.toNat, cs with
        | none, _ => .error position
        | some _, [] => .error (position + 1)
        | some high, d :: rest =>
            match value? d.toNat with
            | none => .error (position + 1)
            | some low => (readFrom (position + 2) rest).map (UInt8.ofNat (high * 16 + low) :: ·)

/-- The bytes written in a text.  A character outside ASCII is found before any other fault. -/
def read (cs : List Char) : Except Nat (List UInt8) :=
  match cs.findIdx? fun c => 0x80 ≤ c.toNat with
  | some position => .error position
  | none => readFrom 0 cs

end ByteTemplate.Hexadecimal
