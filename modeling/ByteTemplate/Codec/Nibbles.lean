import ByteTemplate.Directive
import ByteTemplate.Text.Hexadecimal
import ByteTemplate.Value

/-!
# Hexadecimal digits as half bytes

Two digits make a byte, the first in the high or in the low half.  The count is a number of
digits; missing digits and characters that are no digits count as zero.
-/

namespace ByteTemplate.Nibbles

def join (order : NibbleOrder) (first second : Nat) : UInt8 :=
  match order with
  | .highFirst => UInt8.ofNat (first * 16 + second)
  | .lowFirst => UInt8.ofNat (second * 16 + first)

def halves (order : NibbleOrder) (b : UInt8) : List Nat :=
  match order with
  | .highFirst => [b.toNat / 16, b.toNat % 16]
  | .lowFirst => [b.toNat % 16, b.toNat / 16]

def pack (order : NibbleOrder) : List Nat → Bytes
  | [] => []
  | [first] => [join order first 0]
  | first :: second :: rest => join order first second :: pack order rest

def digitValue (b : UInt8) : Nat :=
  (Hexadecimal.value? b.toNat).getD 0

def encode (order : NibbleOrder) (count : Option Int) (source : Bytes) : Bytes :=
  let width := match count with
    | none => source.length
    | some n => n.toNat
  let digits := (source.take width).map digitValue
  pack order (digits ++ List.replicate (width - digits.length) 0)

def decode (order : NibbleOrder) (count : Option Int) (data : Bytes) : List Char × Nat :=
  let width := match count with
    | none => 2 * data.length
    | some n => n.toNat
  let bytes := data.take ((width + 1) / 2)
  (((bytes.flatMap (halves order)).take width).map Hexadecimal.digit, bytes.length)

theorem length_pack (order : NibbleOrder) (digits : List Nat) :
    (pack order digits).length = (digits.length + 1) / 2 := by
  fun_induction pack order digits with
  | case1 => rfl
  | case2 => simp
  | case3 first second rest ih => simp [ih]; omega

@[simp] theorem length_encode (order : NibbleOrder) (n : Nat) (source : Bytes) :
    (encode order (some n) source).length = (n + 1) / 2 := by
  simp only [encode, length_pack, Int.toNat_natCast, List.length_append, List.length_map,
    List.length_take, List.length_replicate]
  omega

end ByteTemplate.Nibbles
