import ByteTemplate.Number

/-!
# Comparison of numbers

Numbers of different kinds are compared by their exact values.  A NaN is neither less than a
number nor the same as one.
-/

namespace ByteTemplate.Number

def rational? : Number → Option Rat
  | .int n => some n
  | .float x =>
      if x.isFinite then
        let size := mkRat x.units (BinaryFloat.unitDenominator 11 52)
        some (if x.negative then -size else size)
      else none
  | .decimal (.finite negative coefficient exponent) =>
      let (up, down) := powerOfTen exponent
      let size := mkRat (coefficient * up) down
      some (if negative then -size else size)
  | .decimal _ => none
  | .fraction q => some q

def infinite? : Number → Option Bool
  | .float x => if x.isInfinite then some x.negative else none
  | .decimal (.infinity negative) => some negative
  | _ => none

def isLess (x y : Number) : Bool :=
  match x.rational?, y.rational?, x.infinite?, y.infinite? with
  | some p, some q, _, _ => p < q
  | some _, none, _, some negative => !negative
  | none, some _, some negative, _ => negative
  | none, none, some first, some second => first && !second
  | _, _, _, _ => false

def isSame (x y : Number) : Bool :=
  match x.rational?, y.rational?, x.infinite?, y.infinite? with
  | some p, some q, _, _ => p == q
  | none, none, some first, some second => first == second
  | _, _, _, _ => false

def isAtMost (x y : Number) : Bool :=
  x.isLess y || x.isSame y

end ByteTemplate.Number
