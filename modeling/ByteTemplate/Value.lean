import ByteTemplate.Number
import ByteTemplate.Text

/-!
# Values

What a caller hands to `pack` and gets back from `unpack`.  Byte strings come in three forms
that differ only in the name of their type and in how they are shown.  `none` is the marker for
a value that the data is too short for.  Lists, tuples and dictionaries have no packed form.
-/

namespace ByteTemplate

abbrev Bytes := List UInt8

inductive BytesForm where
  | fixed
  | growable
  | view
  deriving DecidableEq, Repr

inductive Value where
  | none
  | bool (b : Bool)
  | int (n : Int)
  | float (x : Double)
  | text (t : Text)
  | bytes (form : BytesForm) (bs : Bytes)
  | complex (re im : Double)
  | decimal (d : Decimal)
  | fraction (q : Rat)
  /-- An object that is no number and stands for an index. -/
  | indexable (n : Int)
  | list (items : List Value)
  | tuple (items : List Value)
  | dict (entries : List (Value × Value))

namespace Value

def ofBytes (bs : Bytes) : Value :=
  .bytes .fixed bs

def ofChars (cs : List Char) : Value :=
  .text (Text.ofChars cs)

def isNone : Value → Bool
  | .none => true
  | _ => false

def typeName : Value → String
  | .none => "NoneType"
  | .bool _ => "bool"
  | .int _ => "int"
  | .float _ => "float"
  | .text _ => "str"
  | .bytes .fixed _ => "bytes"
  | .bytes .growable _ => "bytearray"
  | .bytes .view _ => "memoryview"
  | .complex _ _ => "complex"
  | .decimal _ => "Decimal"
  | .fraction _ => "Fraction"
  | .indexable _ => "Indexable"
  | .list _ => "list"
  | .tuple _ => "tuple"
  | .dict _ => "dict"

def number? : Value → Option Number
  | .bool b => some (.int (if b then 1 else 0))
  | .int n => some (.int n)
  | .float x => some (.float x)
  | .decimal d => some (.decimal d)
  | .fraction q => some (.fraction q)
  | _ => Option.none

/-- The elements of a value that can be indexed: bytes are numbers and code points are texts of
length one. -/
def elements : Value → List Value
  | .list items => items
  | .tuple items => items
  | .bytes _ bs => bs.map fun b => .int b.toNat
  | .text t => t.map fun c => .text [c]
  | _ => []

end Value

end ByteTemplate
