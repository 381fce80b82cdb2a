import ByteTemplate.Config
import ByteTemplate.Error
import ByteTemplate.Value

/-!
# Fixed-width integers

An integer is written as its residue modulo `256 ^ width` in either byte order and read back
as the unsigned or the two's-complement number with that residue.
-/

namespace ByteTemplate

/-- The bytes of a number given least significant first, in the given order, and back. -/
def ByteOrder.arrange (order : ByteOrder) (bs : Bytes) : Bytes :=
  match order with
  | .little => bs
  | .big => bs.reverse

@[simp] theorem ByteOrder.arrange_arrange (order : ByteOrder) (bs : Bytes) :
    order.arrange (order.arrange bs) = bs := by
  cases order <;> simp [ByteOrder.arrange]

@[simp] theorem ByteOrder.length_arrange (order : ByteOrder) (bs : Bytes) :
    (order.arrange bs).length = bs.length := by
  cases order <;> simp [ByteOrder.arrange]

namespace Integer

def toLittle : Nat → Nat → Bytes
  | 0, _ => []
  | width + 1, n => UInt8.ofNat (n % 256) :: toLittle width (n / 256)

def ofLittle : Bytes → Nat
  | [] => 0
  | b :: bs => b.toNat + 256 * ofLittle bs

def encode (width : Nat) (order : ByteOrder) (n : Int) : Bytes :=
  order.arrange (toLittle width (n % (256 ^ width : Nat)).toNat)

def decode (signed : Bool) (order : ByteOrder) (bs : Bytes) : Int :=
  let n := ofLittle (order.arrange bs)
  let modulus := 256 ^ bs.length
  if signed ∧ modulus ≤ 2 * n then n - modulus else n

def fits (bits : Nat) (n : Int) : Bool :=
  let bound : Int := 2 ^ (bits - 1)
  n < bound && -bound ≤ n

def limit (maxBits : Option Nat) (n : Int) : Except Error Int :=
  match maxBits with
  | none => .ok n
  | some 0 => .error .negativeShift
  | some bits =>
      if fits bits n then .ok n
      else if isShowable n then .error (.integerTooWide n)
      else .error .tooManyDigits

def decodeWithin (maxBits : Option Nat) (signed : Bool) (order : ByteOrder) (bs : Bytes) :
    Except Error Int :=
  limit maxBits (decode signed order bs)

@[simp] theorem length_toLittle (width n : Nat) : (toLittle width n).length = width := by
  induction width generalizing n with
  | zero => rfl
  | succ width ih => simp [toLittle, ih]

theorem ofLittle_toLittle (width n : Nat) : ofLittle (toLittle width n) = n % 256 ^ width := by
  induction width generalizing n with
  | zero => simp [toLittle, ofLittle, Nat.mod_one]
  | succ width ih =>
      have low : (UInt8.ofNat (n % 256)).toNat = n % 256 := by simp
      rw [toLittle, ofLittle, ih, low, Nat.pow_succ, Nat.mul_comm (256 ^ width), Nat.mod_mul]

theorem ofLittle_lt (bs : Bytes) : ofLittle bs < 256 ^ bs.length := by
  induction bs with
  | nil => simp [ofLittle]
  | cons b bs ih =>
      have small := b.toNat_lt
      simp only [ofLittle, List.length_cons, Nat.pow_succ]
      omega

theorem toLittle_ofLittle (bs : Bytes) : toLittle bs.length (ofLittle bs) = bs := by
  induction bs with
  | nil => rfl
  | cons b bs ih =>
      have small := b.toNat_lt
      have low : (b.toNat + 256 * ofLittle bs) % 256 = b.toNat := by omega
      have high : (b.toNat + 256 * ofLittle bs) / 256 = ofLittle bs := by omega
      simp [toLittle, ofLittle, low, high, ih]

@[simp] theorem length_encode (width : Nat) (order : ByteOrder) (n : Int) :
    (encode width order n).length = width := by
  simp [encode]

end Integer

end ByteTemplate
