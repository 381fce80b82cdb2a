import ByteTemplate.Number.Decimal

/-!
# Shortest decimal text of a double

A double is written with the fewest significant digits that read back as the same double, and
with the nearest such digits.  For each number of digits only the two neighbours of the value
on the grid of that many digits are tried, the nearer first.
-/

namespace ByteTemplate.Double

structure Scientific where
  coefficient : Nat
  exponent : Int
  deriving DecidableEq, Repr

def leadingExponent (num den : Nat) : Int :=
  if den ≤ num then (decimalDigits (num / den)).length - 1
  else
    let places := (decimalDigits (den / num)).length
    if den ≤ num * 10 ^ (places - 1) then 1 - places else -places

/-- The multiples of `10 ^ exponent` on both sides of `num / den`, the nearer first and, of two
at the same distance, the one with an even coefficient. -/
def neighbours (num den : Nat) (exponent : Int) : List Scientific :=
  let (up, down) := powerOfTen exponent
  let below := num * down / (den * up)
  let nearest := roundDiv (num * down) (den * up)
  [⟨nearest, exponent⟩, ⟨if nearest = below then below + 1 else below, exponent⟩]

def readsBack (x : Double) (s : Scientific) : Bool :=
  Double.ofDecimal x.negative s.coefficient s.exponent == x

/-- Seventeen digits always suffice. -/
def shortest (x : Double) : Scientific :=
  let den := BinaryFloat.unitDenominator 11 52
  let lead := leadingExponent x.units den
  let grids := (List.range 17).flatMap fun (digits : Nat) => neighbours x.units den (lead - digits)
  (grids.find? (readsBack x)).getD ⟨0, 0⟩

def trimZeros : Nat → Scientific → Scientific
  | 0, s => s
  | fuel + 1, s =>
      if s.coefficient % 10 = 0 then trimZeros fuel ⟨s.coefficient / 10, s.exponent + 1⟩ else s

/-- The decimal point stands after the first `point` digits.  It is written where it falls for
points from -3 to 16; other numbers get an exponent of two digits or more. -/
def layout (digits : List Char) (point : Int) : List Char :=
  if -4 < point ∧ point ≤ 16 then
    if point ≤ 0 then '0' :: '.' :: List.replicate (-point).toNat '0' ++ digits
    else if digits.length ≤ point.toNat then
      digits ++ List.replicate (point.toNat - digits.length) '0' ++ ['.', '0']
    else digits.take point.toNat ++ '.' :: digits.drop point.toNat
  else
    let exponent := point - 1
    let power := decimalDigits exponent.natAbs
    let power := if power.length < 2 then '0' :: power else power
    let tail := digits.drop 1
    digits.take 1 ++ (if tail = [] then [] else '.' :: tail)
      ++ 'e' :: (if exponent < 0 then '-' else '+') :: power

def chars (x : Double) : List Char :=
  if x.isNaN then ['n', 'a', 'n']
  else
    let body :=
      if x.isInfinite then ['i', 'n', 'f']
      else if x.units = 0 then ['0', '.', '0']
      else
        let s := trimZeros 17 x.shortest
        let digits := decimalDigits s.coefficient
        layout digits (digits.length + s.exponent)
    if x.negative then '-' :: body else body

end ByteTemplate.Double
