import ByteTemplate.Codec.Integer
import ByteTemplate.Directive

/-!
# Floating-point numbers

A double is written as its own bits or rounded to single precision, where numbers out of range
become infinite.  Reading widens single precision exactly.  A NaN keeps its sign and as much of
its payload as fits; between the two precisions it becomes quiet.
-/

namespace ByteTemplate.Real

def bits (precision : Precision) (x : Double) : Nat :=
  match precision with
  | .single => (x.convert : Single).toBits
  | .double => x.toBits

def ofBits (precision : Precision) (n : Nat) : Double :=
  match precision with
  | .single => (BinaryFloat.ofBits n : Single).convert
  | .double => BinaryFloat.ofBits n

def encode (precision : Precision) (order : ByteOrder) (x : Double) : Bytes :=
  order.arrange (Integer.toLittle precision.width (bits precision x))

def decode (precision : Precision) (order : ByteOrder) (bs : Bytes) : Double :=
  ofBits precision (Integer.ofLittle (order.arrange bs))

@[simp] theorem length_encode (precision : Precision) (order : ByteOrder) (x : Double) :
    (encode precision order x).length = precision.width := by
  simp [encode]

end ByteTemplate.Real
