import ByteTemplate.Value.Shown

/-!
# Message fields

A message class is a list of fields, each with a type, bounds and the directive it is packed
with.  A declaration is what a class writes for a field; some declarations spell the directive
out of a letter and a length, and only letters of padded strings will do there.
-/

namespace ByteTemplate.Message

inductive FieldType where
  | int
  | float
  | text
  | bytes
  | intOrText
  | enumeration (members : List Int)
  deriving DecidableEq, Repr

structure Field where
  name : String
  type : FieldType
  optional : Bool := false
  directive : Option Text := none
  default : Option Value := none
  least : Option Number := none
  greatest : Option Number := none
  maxLength : Option Int := none

inductive Form where
  | bare
  /-- Options whose directive is that of the extra data. -/
  | plain
  | packed
  | integer
  | float
  | bytes
  | text
  deriving DecidableEq, Repr

/-- The declared name, type and form of a field with the options it is given.  A directive is
any value; one that is no text counts as none.  A length is any value as well; one that is no
number sets no limit. -/
structure Declaration where
  name : String
  type : FieldType
  optional : Bool := false
  form : Form := .bare
  directive : Option Value := none
  length : Value := .int 0
  least : Option Number := none
  greatest : Option Number := none
  default : Option Value := none
  extra : List (String × Value) := []

namespace Declaration

def widthLetters : List Text :=
  [Text.ofString "A", Text.ofString "a", Text.ofString "Z"]

structure Error where
  given : Value

def Error.message (e : Error) : String :=
  s!"directive must be one of ('A', 'a', 'Z'), got {e.given.shown}"

def textValue? : Value → Option Text
  | .text t => some t
  | _ => none

def limit? : Value → Option Int
  | .int n => some n
  | .bool b => some (if b then 1 else 0)
  | _ => none

def widthDirective (letter length : Value) : Except Error Text :=
  match textValue? letter with
  | some t => if t ∈ widthLetters then .ok (t ++ length.plain) else .error ⟨letter⟩
  | none => .error ⟨letter⟩

def withDirective (d : Declaration) (directive : Option Text) : Field where
  name := d.name
  type := d.type
  optional := d.optional
  directive := directive
  default := d.default
  least := d.least
  greatest := d.greatest

def directiveOr (d : Declaration) (standard : String) : Value :=
  d.directive.getD (.text (Text.ofString standard))

/-- The directive of a plain declaration.  One that is written as an option is extra data, which
counts unless there is other extra data. -/
def plainDirective? (d : Declaration) : Option Value :=
  if d.extra.isEmpty then d.directive else d.extra.lookup "directive"

def field (d : Declaration) : Except Error Field :=
  match d.form with
  | .bare => .ok { name := d.name, type := d.type, optional := d.optional }
  | .plain => .ok (d.withDirective (d.plainDirective?.bind textValue?))
  | .packed => .ok (d.withDirective (d.directive.bind textValue?))
  | .integer => .ok (d.withDirective (textValue? (d.directiveOr "N")))
  | .float => .ok (d.withDirective (textValue? (d.directiveOr "G")))
  | .bytes => do
      let directive ← widthDirective (d.directiveOr "a") d.length
      .ok { d.withDirective directive with maxLength := limit? d.length }
  | .text => do
      let directive ← widthDirective (d.directiveOr "A") d.length
      .ok (d.withDirective directive)

def fields : List Declaration → Except Error (List Field)
  | [] => .ok []
  | d :: ds => do
      let first ← d.field
      let rest ← fields ds
      .ok (first :: rest)

end Declaration

structure Class where
  name : String
  fields : List Field
  maxBytes : Option Int := none

end ByteTemplate.Message
