import ByteTemplate.Number.Shortest

/-!
# Real numbers of every kind

Integers, doubles, decimals and fractions, with the text each is shown by in an error.
-/

namespace ByteTemplate

inductive Number where
  | int (n : Int)
  | float (x : Double)
  | decimal (d : Decimal)
  | fraction (q : Rat)
  deriving DecidableEq

def intChars (n : Int) : List Char :=
  if n < 0 then '-' :: decimalDigits n.natAbs else decimalDigits n.natAbs

namespace Integer

/-- The most decimal digits that an integer is shown with. -/
def maxDigits : Nat := 4300

def isShowable (n : Int) : Bool :=
  n.natAbs < 10 ^ maxDigits

theorem isShowable_natCast_iff {n : Nat} : isShowable n = true ↔ n < 10 ^ maxDigits := by
  simp only [isShowable, Int.natAbs_natCast, decide_eq_true_eq]

end Integer

namespace Number

def chars : Number → List Char
  | .int n => intChars n
  | .float x => x.chars
  | .decimal d => "Decimal('".toList ++ d.chars ++ "')".toList
  | .fraction q =>
      "Fraction(".toList ++ intChars q.num ++ ", ".toList ++ decimalDigits q.den ++ ")".toList

def truncate? : Number → Option Int
  | .int n => some n
  | .float x => if x.isFinite then some x.truncate else none
  | .decimal d => d.truncate?
  | .fraction q => some (q.num.tdiv q.den)

end Number

def Double.ofFraction (num : Int) (den : Nat) : Double :=
  BinaryFloat.ofRatio (num < 0) num.natAbs den

end ByteTemplate
