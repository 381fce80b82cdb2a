import ByteTemplate.Text.Quoted
import ByteTemplate.Number

/-!
# Errors

The causes for which reading a template, packing or unpacking can fail, the kind each belongs
to, and its message.
-/

namespace ByteTemplate

inductive Target where
  | integer
  | float
  | string
  deriving DecidableEq, Repr

inductive ErrorKind where
  | argument
  | range
  | type
  | runtime
  | value
  | index
  | encoding
  deriving DecidableEq, Repr

inductive Error where
  | modifierNotAllowed (modifier : Char)
  | countTooLarge
  /-- The native integer, written `I` or `i`, has no directive of its width. -/
  | integerSizeUnsupported (size : Nat)
  | templateExhausted
  | noFixedSize (directive : CodePoint)
  | noFixedSizeForAll (directive : CodePoint)
  | notConvertible (typeName : String) (target : Target)
  | outOfRange (value : Number) (target : Target)
  | codepointOutOfRange
  | integerTooWide (n : Int)
  | tooManyDigits
  /-- A limit of no bits. -/
  | negativeShift
  | signalingNaN
  | surrogates (first last : Nat) (c : CodePoint)
  | malformedSequence
  | shortSequence (expected given : Nat)
  | redundantSequence
  | skipOutsideData
  | lengthOutOfRange
  | capacityNotPositive (capacity : Int)
  | byteOutOfRange
  | advanceOutOfRange (count remaining : Int)
  | readOutOfRange (count remaining : Int)
  deriving DecidableEq

namespace Target

def name : Target → String
  | .integer => "Integer"
  | .float => "Float"
  | .string => "String"

end Target

namespace Error

def kind : Error → ErrorKind
  | .modifierNotAllowed _ => .argument
  | .countTooLarge => .runtime
  | .integerSizeUnsupported _ => .runtime
  | .templateExhausted => .index
  | .noFixedSize _ => .argument
  | .noFixedSizeForAll _ => .argument
  | .notConvertible _ _ => .type
  | .outOfRange _ _ => .range
  | .codepointOutOfRange => .range
  | .integerTooWide _ => .range
  | .tooManyDigits => .value
  | .negativeShift => .value
  | .signalingNaN => .value
  | .surrogates _ _ _ => .encoding
  | .malformedSequence => .argument
  | .shortSequence _ _ => .argument
  | .redundantSequence => .argument
  | .skipOutsideData => .argument
  | .lengthOutOfRange => .range
  | .capacityNotPositive _ => .value
  | .byteOutOfRange => .value
  | .advanceOutOfRange _ _ => .index
  | .readOutOfRange _ _ => .index

/-- The errors of the library itself; the others are raised by what it is built on. -/
def isLibrary (e : Error) : Bool :=
  match e.kind with
  | .argument | .range | .type | .runtime => true
  | .value | .index | .encoding => false

def surrogatesMessage (first last : Nat) (c : CodePoint) : String :=
  let escape := String.ofList (Quoted.numericEscape c.value)
  let place := if first = last then s!"character '{escape}' in position {first}"
    else s!"characters in position {first}-{last}"
  s!"'utf-8' codec can't encode {place}: surrogates not allowed"

def message : Error → String
  | .modifierNotAllowed modifier => s!"'{modifier}' allowed only after types sSiIlLqQ"
  | .countTooLarge => "too big template length"
  | .integerSizeUnsupported size => s!"tmplpack does not support sizeof(int) == {size}"
  | .templateExhausted => "Attempted to read past end of template"
  | .noFixedSize directive => s!"{Text.quoted [directive]} has no fixed size"
  | .noFixedSizeForAll directive =>
      let name := String.ofList (directive.char?.toList)
      s!"'{name}*' has no fixed size"
  | .notConvertible typeName target => s!"can't convert {typeName} into {target.name}"
  | .outOfRange value target =>
      s!"{String.ofList value.chars} out of range of {target.name}"
  | .codepointOutOfRange => "pack(U): value out of range"
  | .integerTooWide n => s!"cannot unpack to Integer: {n}"
  | .tooManyDigits =>
      "Exceeds the limit (4300 digits) for integer string conversion; " ++
      "use sys.set_int_max_str_digits() to increase the limit"
  | .negativeShift => "negative shift count"
  | .signalingNaN => "cannot convert signaling NaN to float"
  | .surrogates first last c => surrogatesMessage first last c
  | .malformedSequence => "malformed UTF-8 character"
  | .shortSequence expected given =>
      s!"malformed UTF-8 character (expected {expected} bytes, given {given} bytes)"
  | .redundantSequence => "redundant UTF-8 sequence"
  | .skipOutsideData => "x outside of string"
  | .lengthOutOfRange => "negative (or overflowed) integer"
  | .capacityNotPositive capacity => s!"capacity must be > 0, got {capacity}"
  | .byteOutOfRange => "bytes must be in range(0, 256)"
  | .advanceOutOfRange count remaining => s!"Cannot advance {count} bytes, have {remaining}"
  | .readOutOfRange count remaining => s!"Not enough bytes: need {count}, have {remaining}"

end Error

end ByteTemplate
