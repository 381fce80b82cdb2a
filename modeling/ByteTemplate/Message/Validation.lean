import ByteTemplate.Conversion
import ByteTemplate.Message.Field
import ByteTemplate.Number.Order

/-!
# Validation of messages

Messages are built by a validator, which the rest of the library takes as a parameter.  The standard
one is that of runs.  It converts a value into the type of its field where the two agree: whole
floats and decimals and truth values are integers, numbers of every kind are floats, and texts are
UTF-8 bytes.  Texts that spell numbers are no numbers to it.  A value that does not fit or is
outside the bounds of its field is rejected, and a message reports all rejected fields together.
-/

namespace ByteTemplate.Message

abbrev Record := List (String × Value)

abbrev Rejected := List String

structure Validator where
  accept? : Field → Value → Option Value
  construct : Class → Record → Except Rejected Record

/-- The integer a value stands for: whole decimals and truth values count, and whole floats of
less than 64 bits. -/
def integer? : Value → Option Int
  | .int n => some n
  | .bool b => some (if b then 1 else 0)
  | .float x => x.integer?.filter fun n => n.natAbs < 2 ^ (63 : Nat)
  | .decimal d => d.integer?
  | _ => none

def double? : Value → Option Double
  | .indexable n => (Number.int n).toDouble.toOption
  | v => v.toDouble.toOption

def text? : Value → Option Text
  | .text t => some t
  | .bytes .view _ => none
  | .bytes _ bs => Text.ofUtf8? bs
  | _ => none

def bytes? : Value → Option Bytes
  | .bytes .view _ => none
  | .bytes _ bs => some bs
  | .text t => t.utf8?
  | _ => none

def FieldType.convert? : FieldType → Value → Option Value
  | .int, v => (integer? v).map .int
  | .float, v => (double? v).map .float
  | .text, v => (text? v).map .text
  | .bytes, v => (bytes? v).map Value.ofBytes
  | .intOrText, v => ((integer? v).map .int).or ((text? v).map .text)
  | .enumeration members, v => ((integer? v).filter members.contains).map .int

namespace Field

/-- A bound in the type of the field: floats are compared with a double. -/
def boundOf (f : Field) (n : Number) : Number :=
  match f.type, n.toDouble with
  | .float, .ok x => .float x
  | _, _ => n

/-- Whether a value obeys the bounds there are.  A NaN obeys none, nor does what is no number. -/
def inBounds (f : Field) (v : Value) : Bool :=
  let obeys (holds : Number → Number → Bool) (n : Number) : Bool :=
    v.number?.any fun x => holds (f.boundOf n) x
  f.least.all (obeys Number.isAtMost) && f.greatest.all (obeys fun most x => x.isAtMost most)

/-- Whether a value obeys the limit of its length, if there is one.  A limited text may hold no
surrogates, and what has no length obeys no limit. -/
def inLength (f : Field) (v : Value) : Bool :=
  match f.maxLength, v with
  | none, _ => true
  | some most, .bytes _ bs => bs.length ≤ most
  | some most, .text t => t.length ≤ most && (f.type != .text || t.utf8?.isSome)
  | some _, _ => false

def accept? (f : Field) (v : Value) : Option Value :=
  if f.optional ∧ v.isNone then some v
  else
    (f.type.convert? v).bind fun v =>
      if f.inBounds v ∧ f.inLength v then some v else none

end Field

def Rejected.sorted (names : Rejected) : Rejected :=
  (names.mergeSort fun a b => !(b < a)).eraseDups

namespace Class

/-- The value of one field of a new message, none when it is missing or rejected.  A default is not
validated. -/
def fieldValue? (given : Record) (f : Field) : Option Value :=
  match given.lookup f.name with
  | some v => f.accept? v
  | none => f.default

def unknown (c : Class) (given : Record) : List String :=
  (given.map Prod.fst).filter fun name => !(c.fields.any fun f => f.name == name)

def construct (c : Class) (given : Record) : Except Rejected Record :=
  let rejected := (c.fields.filter fun f => (fieldValue? given f).isNone).map Field.name
  match rejected ++ c.unknown given with
  | [] => .ok (c.fields.map fun f => (f.name, (fieldValue? given f).getD .none))
  | names => .error (Rejected.sorted names)

def assign (c : Class) (m : Record) (name : String) (v : Value) : Except Rejected Record :=
  match (c.fields.find? fun f => f.name == name).bind fun f => f.accept? v with
  | none => .error [name]
  | some v => .ok (m.map fun (field, old) => (field, if field = name then v else old))

end Class

def Validator.standard : Validator where
  accept? := Field.accept?
  construct := Class.construct

end ByteTemplate.Message
