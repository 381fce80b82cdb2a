import ByteTemplate.Literal.Number
import ByteTemplate.Text

/-!
# Quoted literals

Texts and bytes between one or three quotes of either kind.  Without the letter `r` before the
quotes, a backslash begins an escape; one that begins none stands for itself.
-/

namespace ByteTemplate.Literal

structure QuoteKind where
  isBytes : Bool
  isRaw : Bool
  deriving DecidableEq, Repr

def quoteKind? (letters : List Char) : Option QuoteKind :=
  match letters.map Char.toLower with
  | [] | ['u'] => some ⟨false, false⟩
  | ['r'] => some ⟨false, true⟩
  | ['b'] => some ⟨true, false⟩
  | ['b', 'r'] | ['r', 'b'] => some ⟨true, true⟩
  | _ => none

def closes (quote : Char) (triple : Bool) (cs : List Char) : Bool :=
  cs.take (if triple then 3 else 1) == List.replicate (if triple then 3 else 1) quote

/-- The characters up to the closing quotes and those after them.  A backslash hides the
character after it; a line end closes nothing but breaks a single-quoted literal. -/
def body (quote : Char) (triple : Bool) : List Char → Option (List Char × List Char)
  | [] => none
  | c :: cs =>
      if closes quote triple (c :: cs) then some ([], cs.drop (if triple then 2 else 0))
      else if c = '\n' ∧ !triple then none
      else if c = '\\' then
        match cs with
        | [] => none
        | d :: rest => (body quote triple rest).map fun (inner, last) => (c :: d :: inner, last)
      else (body quote triple cs).map fun (inner, last) => (c :: inner, last)

def hexNumber (width : Nat) (cs : List Char) : Option Nat :=
  let digits := cs.take width
  if digits.length = width ∧ digits.all fun c => (Hexadecimal.value? c.toNat).isSome then
    some (ofDigits 16 digits)
  else none

def isOctalDigit (c : Char) : Bool :=
  '0' ≤ c && c ≤ '7'

def letterEscape? : Char → Option Nat
  | '\\' => some 0x5C
  | '\'' => some 0x27
  | '"' => some 0x22
  | 'a' => some 0x07
  | 'b' => some 0x08
  | 'f' => some 0x0C
  | 'n' => some 0x0A
  | 'r' => some 0x0D
  | 't' => some 0x09
  | 'v' => some 0x0B
  | _ => none

/-- What stands behind a backslash: the numbers it denotes and the length of the escape.  Texts
know two longer forms and no names. -/
def escape (isBytes : Bool) (cs : List Char) : Option (List Nat × Nat) :=
  match cs with
  | [] => none
  | c :: rest =>
      if c = '\n' then some ([], 1)
      else if isOctalDigit c then
        let digits := (cs.take 3).takeWhile isOctalDigit
        some ([ofDigits 8 digits], digits.length)
      else
        match letterEscape? c with
        | some n => some ([n], 1)
        | none =>
            if c = 'x' then (hexNumber 2 rest).map fun n => ([n], 3)
            else if isBytes then some ([0x5C, c.toNat], 1)
            else if c = 'u' then (hexNumber 4 rest).map fun n => ([n], 5)
            else if c = 'U' then (hexNumber 8 rest).map fun n => ([n], 9)
            else if c = 'N' then none
            else some ([0x5C, c.toNat], 1)

/-- The numbers that a literal without the letter `r` denotes; `fuel` bounds its length. -/
def unescape (isBytes : Bool) : Nat → List Char → Option (List Nat)
  | _, [] => some []
  | 0, _ :: _ => none
  | fuel + 1, c :: cs =>
      if c = '\\' then do
        let (ns, size) ← escape isBytes cs
        let rest ← unescape isBytes fuel (cs.drop size)
        some (ns ++ rest)
      else (unescape isBytes fuel cs).map (c.toNat :: ·)

def quotedValue (kind : QuoteKind) (cs : List Char) : Option Value := do
  let ns ← if kind.isRaw then some (cs.map Char.toNat) else unescape kind.isBytes cs.length cs
  if kind.isBytes then
    if cs.all fun c => c.toNat < 0x80 then some (.ofBytes (ns.map UInt8.ofNat)) else none
  else (ns.mapM CodePoint.ofNat?).map .text

def quoted (kind : QuoteKind) (quote : Char) (cs : List Char) : Option (Value × List Char) := do
  let triple := cs.take 2 == [quote, quote]
  let (inner, rest) ← body quote triple (cs.drop (if triple then 2 else 0))
  let v ← quotedValue kind inner
  some (v, rest)

end ByteTemplate.Literal
