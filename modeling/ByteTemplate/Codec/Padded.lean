import ByteTemplate.Directive
import ByteTemplate.Value

/-!
# Padded strings

A string in a field of `count` bytes is cut or padded on writing; on reading, padding is
removed as the kind of field allows.  Without a count the field is as long as the string, and a
terminated one has a NUL after it.  A negative count leaves off that many bytes at the end.
-/

namespace ByteTemplate.Padded

/-- The first `count` bytes, or all but the last `-count`. -/
def cut (count : Int) (bs : Bytes) : Bytes :=
  match count with
  | .ofNat n => bs.take n
  | .negSucc n => bs.take (bs.length - (n + 1))

def filler : Padding → UInt8
  | .spaces => 0x20
  | .nulls | .terminated => 0

def encode (padding : Padding) (count : Option Int) (source : Bytes) : Bytes :=
  match count with
  | none => if padding = .terminated then source ++ [0] else source
  | some n =>
      if n ≤ source.length then cut n source
      else source ++ List.replicate (n.toNat - source.length) (filler padding)

/-- Space, tab, line feed, vertical tab, form feed, carriage return and NUL. -/
def isTrimmed (b : UInt8) : Bool :=
  b == 0x20 || (0x09 ≤ b && b ≤ 0x0D) || b == 0

def trimEnd (bs : Bytes) : Bytes :=
  (bs.reverse.dropWhile isTrimmed).reverse

def decode (padding : Padding) (count : Option Int) (data : Bytes) : Bytes × Int :=
  let size : Int := match count with
    | none => data.length
    | some n => min n data.length
  let field := cut size data
  match padding with
  | .nulls => (field, size)
  | .spaces => (trimEnd field, size)
  | .terminated =>
      let value := field.takeWhile (· != 0)
      if value.length < field.length ∧ count = none then (value, value.length + 1)
      else (value, size)

@[simp] theorem length_encode (padding : Padding) (n : Nat) (source : Bytes) :
    (encode padding (some n) source).length = n := by
  simp only [encode]
  split
  · simp [cut]; omega
  · simp; omega

end ByteTemplate.Padded
