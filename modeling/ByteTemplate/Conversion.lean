import ByteTemplate.Codec.Integer
import ByteTemplate.Text.Utf8
import ByteTemplate.Value

/-!
# Conversion of values

What `pack` makes of a value where a directive wants an integer, a float or a string.  Numbers
of every kind become integers by dropping the fraction and floats by rounding; texts become
strings through UTF-8.
-/

namespace ByteTemplate

namespace Number

def outOfRange (x : Number) (target : Target) : Error :=
  let showable := match x with
    | .int n => Integer.isShowable n
    | .fraction q => Integer.isShowable q.num && Integer.isShowable q.den
    | _ => true
  if showable then .outOfRange x target else .tooManyDigits

def toInt (x : Number) : Except Error Int :=
  match x.truncate? with
  | some n => .ok n
  | none => .error (x.outOfRange .integer)

def finite (x : Number) (y : Double) : Except Error Double :=
  if y.isInfinite then .error (x.outOfRange .float) else .ok y

/-- Integers and fractions out of range are refused; decimals become infinite. -/
def toDouble (x : Number) : Except Error Double :=
  match x with
  | .float y => .ok y
  | .int n => x.finite (Double.ofFraction n 1)
  | .fraction q => x.finite (Double.ofFraction q.num q.den)
  | .decimal (.finite negative coefficient exponent) =>
      .ok (Double.ofDecimal negative coefficient exponent)
  | .decimal (.infinity negative) => .ok (BinaryFloat.infinity negative)
  | .decimal (.nan negative signaling _) =>
      if signaling then .error .signalingNaN else .ok (BinaryFloat.nan negative)

end Number

namespace Value

def toInt (v : Value) : Except Error Int :=
  match v.number?, v with
  | some x, _ => x.toInt
  | Option.none, .indexable n => .ok n
  | Option.none, v => .error (.notConvertible v.typeName .integer)

def toInteger (v : Value) : Except Error Value :=
  match v with
  | .bool b => .ok (.bool b)
  | v => v.toInt.map .int

def toDouble (v : Value) : Except Error Double :=
  match v.number? with
  | some x => x.toDouble
  | Option.none => .error (.notConvertible v.typeName .float)

def toBytes (v : Value) : Except Error Bytes :=
  match v with
  | .bytes _ bs => .ok bs
  | .text t => t.toUtf8
  | v => .error (.notConvertible v.typeName .string)

end Value

end ByteTemplate
