import ByteTemplate.Number.Decimal
import ByteTemplate.Text.Hexadecimal
import ByteTemplate.Value

/-!
# Number literals

Integers in four bases, decimal fractions with an exponent, and imaginary numbers.  Single
underscores may stand between digits, and after a base as well.  A decimal integer begins with
zero only if it is zero.
-/

namespace ByteTemplate.Literal

def maxIntegerDigits : Nat := 4300

def isWordChar (c : Char) : Bool :=
  c.isAlphanum || c == '_' || 0x80 ≤ c.toNat

/-- The digits at the start of `cs`, in groups with an underscore between each two.  `none` when
an underscore is not followed by a digit. -/
def digitGroups (isDigit : Char → Bool) : List Char → Option (List Char × List Char)
  | [] => some ([], [])
  | c :: cs =>
      if isDigit c then
        match cs with
        | '_' :: d :: rest =>
            if isDigit d then
              (digitGroups isDigit (d :: rest)).map fun (digits, rest) => (c :: digits, rest)
            else none
        | ['_'] => none
        | cs => (digitGroups isDigit cs).map fun (digits, rest) => (c :: digits, rest)
      else some ([], c :: cs)

def ofDigits (base : Nat) (digits : List Char) : Nat :=
  digits.foldl (fun n c => n * base + (Hexadecimal.value? c.toNat).getD 0) 0

def basedInteger (base : Nat) (cs : List Char) : Option (Value × List Char) := do
  let isDigit (c : Char) : Bool :=
    match Hexadecimal.value? c.toNat with
    | some n => n < base
    | none => false
  let cs := match cs with
    | '_' :: rest => rest
    | cs => cs
  let (digits, rest) ← digitGroups isDigit cs
  if digits.isEmpty then none else some (.int (ofDigits base digits), rest)

def exponentPart : List Char → Option (Int × Bool × List Char)
  | [] => some (0, false, [])
  | c :: cs =>
      if c = 'e' ∨ c = 'E' then do
        let (negative, cs) := match cs with
          | '+' :: rest => (false, rest)
          | '-' :: rest => (true, rest)
          | cs => (false, cs)
        let (digits, rest) ← digitGroups isDecimalDigit cs
        if digits.isEmpty then none
        else
          let n : Int := ofDecimalDigits digits
          some (if negative then -n else n, true, rest)
      else some (0, false, c :: cs)

def fractionPart : List Char → Option (List Char × Bool × List Char)
  | '.' :: cs =>
      match cs with
      | '_' :: _ => none
      | cs => (digitGroups isDecimalDigit cs).map fun (digits, rest) => (digits, true, rest)
  | cs => some ([], false, cs)

/-- A decimal number: an integer unless it has a point, an exponent or an imaginary unit. -/
def decimalNumber (cs : List Char) : Option (Value × List Char) := do
  let (whole, rest) ← digitGroups isDecimalDigit cs
  let (fraction, hasPoint, rest) ← fractionPart rest
  if whole.isEmpty ∧ fraction.isEmpty then none
  else
    let (exponent, hasExponent, rest) ← exponentPart rest
    let x := Double.ofDecimal false (ofDecimalDigits (whole ++ fraction))
      (exponent - fraction.length)
    match rest with
    | 'j' :: rest => some (.complex (BinaryFloat.zero false) x, rest)
    | 'J' :: rest => some (.complex (BinaryFloat.zero false) x, rest)
    | rest =>
        if hasPoint ∨ hasExponent then some (.float x, rest)
        else if whole.all (· == '0') then some (.int 0, rest)
        else if whole.head? = some '0' ∨ maxIntegerDigits < whole.length then none
        else some (.int (ofDecimalDigits whole), rest)

def number (cs : List Char) : Option (Value × List Char) := do
  let (v, rest) ← match cs with
    | '0' :: 'x' :: cs => basedInteger 16 cs
    | '0' :: 'X' :: cs => basedInteger 16 cs
    | '0' :: 'o' :: cs => basedInteger 8 cs
    | '0' :: 'O' :: cs => basedInteger 8 cs
    | '0' :: 'b' :: cs => basedInteger 2 cs
    | '0' :: 'B' :: cs => basedInteger 2 cs
    | cs => decimalNumber cs
  if (rest.head?.map isWordChar).getD false then none else some (v, rest)

end ByteTemplate.Literal
