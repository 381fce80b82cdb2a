import ByteTemplate.Message.Field
import ByteTemplate.Template

/-!
# Message schemas

The schema of a class holds one directive for each field, every one of which takes exactly one
value; the template of the class is these directives with a space between each two.  Schemas are
read under the default configuration.
-/

namespace ByteTemplate.Message

structure FieldSchema where
  name : String
  type : FieldType
  directiveText : Text
  directive : Directive
  required : Bool
  deriving DecidableEq

inductive SchemaError where
  | unionType (field : String)
  | noDirective (field : String)
  | invalidDirective (field : String) (directive : Text) (cause : Error)
  | notSingle (field : String) (directive : Text)
  | noValue (field : String) (char : CodePoint)
  | repeats (field : String) (directive : Directive)
  deriving DecidableEq

def SchemaError.message : SchemaError → String
  | .unionType field => s!"Field {field}: complex Union types not supported"
  | .noDirective field =>
      s!"Field {field} has no directive. Declare it with Packed(...) or a Packed* helper."
  | .invalidDirective field directive cause =>
      s!"Field {field}: invalid directive {directive.quoted}: {cause.message}"
  | .notSingle field directive =>
      s!"Field {field}: expected exactly one directive, got {directive.quoted}"
  | .noValue field char => s!"Field {field}: directive {Text.quoted [char]} carries no value"
  | .repeats field directive =>
      let shown := String.ofList (directive.text.filterMap CodePoint.char?)
      s!"Field {field}: directive {shown} repeats; numeric fields take a count of 1"

namespace FieldSchema

def isText (f : FieldSchema) : Bool :=
  f.type == .text

/-- The one directive of a text, if it stands for exactly one value. -/
def singleDirective (field : String) (t : Text) : Except SchemaError Directive :=
  match Template.directives .default t with
  | .error cause => .error (.invalidDirective field t cause)
  | .ok [d] =>
      match d.codec with
      | .null | .ignored => .error (.noValue field d.char)
      | .block _ => .ok d
      | .element _ => if d.count = some 1 then .ok d else .error (.repeats field d)
  | .ok _ => .error (.notSingle field t)

def ofField (f : Field) : Except SchemaError FieldSchema :=
  if f.optional ∧ f.type = .intOrText then .error (.unionType f.name)
  else
    match f.directive with
    | none => .error (.noDirective f.name)
    | some t =>
        (singleDirective f.name t).map fun d =>
          { name := f.name
            type := f.type
            directiveText := t
            directive := d
            required := f.default.isNone && !f.optional }

end FieldSchema

abbrev Schema := List FieldSchema

namespace Schema

def ofFields : List Field → Except SchemaError Schema
  | [] => .ok []
  | f :: fs => do
      let first ← FieldSchema.ofField f
      let rest ← ofFields fs
      .ok (first :: rest)

def template (s : Schema) : Text :=
  (Text.ofString " ").intercalate (s.map FieldSchema.directiveText)

end Schema

def Class.schema (c : Class) : Except SchemaError Schema :=
  Schema.ofFields c.fields

end ByteTemplate.Message
