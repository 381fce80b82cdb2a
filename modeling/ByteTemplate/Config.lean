import ByteTemplate.Value.Shown

/-!
# Configuration

What a template leaves to the host: the byte order of directives without one, the widths of
the native integers, and the widest integer that unpacking may return.
-/

namespace ByteTemplate

inductive ByteOrder where
  | little
  | big
  deriving DecidableEq, Repr

namespace ByteOrder

def name : ByteOrder → String
  | .little => "little"
  | .big => "big"

def ofValue? : Value → Option ByteOrder
  | .text t =>
      if t = Text.ofString "little" then some .little
      else if t = Text.ofString "big" then some .big
      else none
  | _ => none

def isLittle : ByteOrder → Bool
  | .little => true
  | .big => false

end ByteOrder

/-- Widths are in bytes and `maxBits`, the width of the widest signed integer to return, in
bits.  The defaults are those of the host. -/
structure Config where
  byteOrder : ByteOrder := .little
  intSize : Nat := 4
  longSize : Nat := 8
  maxBits : Option Nat := none
  intSize_pos : 0 < intSize := by decide
  longSize_pos : 0 < longSize := by decide
  two_le_maxBits : ∀ b ∈ maxBits, 2 ≤ b := by simp

namespace Config

def default : Config := {}

def shortSize : Nat := 2

inductive Error where
  | byteOrder (given : Value)
  | intSize (given : Int)
  | longSize (given : Int)
  | maxBits (given : Int)

def Error.message : Error → String
  | .byteOrder given => s!"byte_order must be 'little' or 'big', got {given.shown}"
  | .intSize given => s!"native_int_size must be > 0, got {given}"
  | .longSize given => s!"native_long_size must be > 0, got {given}"
  | .maxBits given => s!"max_native_bits must be >= 2 or None, got {given}"

/-- The settings as given, in the order in which they are checked. -/
def check (byteOrder : Value) (intSize longSize : Int) (maxBits : Option Int) :
    Except Error Config :=
  match ByteOrder.ofValue? byteOrder with
  | none => .error (.byteOrder byteOrder)
  | some order =>
    if hi : 0 < intSize then
      if hl : 0 < longSize then
        match maxBits with
        | none => .ok ⟨order, intSize.toNat, longSize.toNat, none, by omega, by omega, by simp⟩
        | some bits =>
          if hb : 2 ≤ bits then
            .ok ⟨order, intSize.toNat, longSize.toNat, some bits.toNat, by omega, by omega, by
              simp; omega⟩
          else .error (.maxBits bits)
      else .error (.longSize longSize)
    else .error (.intSize intSize)

end Config

end ByteTemplate
