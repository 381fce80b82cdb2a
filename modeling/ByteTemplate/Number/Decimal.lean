import ByteTemplate.Number.BinaryFloat
import ByteTemplate.Text.Characters

/-!
# Decimal numbers

A finite decimal is a sign, a coefficient and a power of ten; the value keeps how it was
written.  Beside the finite ones stand the infinities and the quiet and signaling NaNs, which
may carry a payload (zero for none).
-/

namespace ByteTemplate

def decimalDigits (n : Nat) : List Char :=
  Nat.toDigits 10 n

def isDecimalDigit (c : Char) : Bool :=
  '0' ≤ c && c ≤ '9'

def ofDecimalDigits (cs : List Char) : Nat :=
  cs.foldl (fun n c => 10 * n + (c.toNat - 0x30)) 0

inductive Decimal where
  | finite (negative : Bool) (coefficient : Nat) (exponent : Int)
  | infinity (negative : Bool)
  | nan (negative signaling : Bool) (payload : Nat)
  deriving DecidableEq, Repr

def powerOfTen : Int → Nat × Nat
  | .ofNat k => (10 ^ k, 1)
  | .negSucc k => (1, 10 ^ (k + 1))

/-- The double nearest to `coefficient * 10 ^ exponent`.  Powers of ten far outside the range
of doubles are settled by the number of digits alone. -/
def Double.ofDecimal (negative : Bool) (coefficient : Nat) (exponent : Int) : Double :=
  let top := exponent + (decimalDigits coefficient).length
  if coefficient = 0 ∨ top < -400 then BinaryFloat.zero negative
  else if 400 < top then BinaryFloat.infinity negative
  else
    let (up, down) := powerOfTen exponent
    BinaryFloat.ofRatio negative (coefficient * up) down

namespace Decimal

def truncate? : Decimal → Option Int
  | .finite negative coefficient exponent =>
      let top := exponent + (decimalDigits coefficient).length
      let whole :=
        if coefficient = 0 ∨ top ≤ 0 then 0
        else
          let (up, down) := powerOfTen exponent
          coefficient * up / down
      some (if negative then -(whole : Int) else whole)
  | .infinity _ => none
  | .nan _ _ _ => none

def integer? : Decimal → Option Int
  | .finite negative coefficient exponent =>
      if coefficient = 0 then some 0
      else if exponent + (decimalDigits coefficient).length ≤ 0 then none
      else
        let (up, down) := powerOfTen exponent
        if coefficient * up % down = 0 then truncate? (.finite negative coefficient exponent)
        else none
  | _ => none

def exponent? : List Char → Option Int
  | [] => some 0
  | c :: cs =>
      if c ≠ 'e' ∧ c ≠ 'E' then none
      else
        let (negative, digits) := match cs with
          | '-' :: rest => (true, rest)
          | '+' :: rest => (false, rest)
          | rest => (false, rest)
        if digits ≠ [] ∧ digits.all isDecimalDigit then
          let n : Int := ofDecimalDigits digits
          some (if negative then -n else n)
        else none

def unsigned? (negative : Bool) (cs : List Char) : Option Decimal :=
  let whole := cs.takeWhile isDecimalDigit
  let (fraction, rest) := match cs.dropWhile isDecimalDigit with
    | '.' :: rest => (rest.takeWhile isDecimalDigit, rest.dropWhile isDecimalDigit)
    | rest => ([], rest)
  if whole = [] ∧ fraction = [] then none
  else do
    let exponent ← exponent? rest
    some (.finite negative (ofDecimalDigits (whole ++ fraction)) (exponent - fraction.length))

def special? (negative : Bool) (cs : List Char) : Option Decimal :=
  let nan? (signaling : Bool) (digits : List Char) : Option Decimal :=
    if digits.all isDecimalDigit then some (.nan negative signaling (ofDecimalDigits digits))
    else none
  match cs.map Char.toLower with
  | ['i', 'n', 'f'] => some (.infinity negative)
  | ['i', 'n', 'f', 'i', 'n', 'i', 't', 'y'] => some (.infinity negative)
  | 'n' :: 'a' :: 'n' :: digits => nan? false digits
  | 's' :: 'n' :: 'a' :: 'n' :: digits => nan? true digits
  | _ => none

def ofAscii? (cs : List Char) : Option Decimal :=
  let (negative, body) := match cs with
    | '-' :: rest => (true, rest)
    | '+' :: rest => (false, rest)
    | rest => (false, rest)
  (special? negative body).or (unsigned? negative body)

/-- The decimal that a text stands for.  White space at its ends and underscores do not count,
and the digits may be those of any script. -/
def ofChars? (cs : List Char) : Option Decimal :=
  ofAscii? (((Text.trimBlanks cs).filter (· ≠ '_')).map Text.asciiDigit)

def signed (negative : Bool) (cs : List Char) : List Char :=
  if negative then '-' :: cs else cs

/-- Positional notation while the number has no more than six leading zeros after the point,
scientific notation otherwise. -/
def chars : Decimal → List Char
  | .infinity negative => signed negative "Infinity".toList
  | .nan negative signaling payload =>
      let name := if signaling then "sNaN" else "NaN"
      signed negative (name.toList ++ if payload = 0 then [] else decimalDigits payload)
  | .finite negative coefficient exponent =>
      let digits := decimalDigits coefficient
      let left := exponent + digits.length
      let point := if exponent ≤ 0 ∧ -6 < left then left else 1
      let body :=
        if point ≤ 0 then '0' :: '.' :: List.replicate (-point).toNat '0' ++ digits
        else if digits.length ≤ point.toNat then
          digits ++ List.replicate (point.toNat - digits.length) '0'
        else digits.take point.toNat ++ '.' :: digits.drop point.toNat
      let shift := left - point
      let scale :=
        if shift = 0 then []
        else 'E' :: (if shift < 0 then '-' else '+') :: decimalDigits shift.natAbs
      signed negative (body ++ scale)

end Decimal

end ByteTemplate
