import ByteTemplate.Message.Schema
import ByteTemplate.Message.Validation
import ByteTemplate.Pack
import ByteTemplate.Size
import ByteTemplate.Unpack

/-!
# Packed messages

A message is packed with the template of its class, and unpacked data is checked field by field
before a message is built from it.  The schema is read under the default configuration and the
data is packed and unpacked under the one that is given.
-/

namespace ByteTemplate.Message

inductive CodecError where
  | schema (e : SchemaError)
  | missingValue (field : String)
  | notPacked (className : String) (cause : Error)
  | tooLong (size : Nat) (limit : Int)
  | notUnpacked (className : String) (cause : Error)
  | truncated (field : String)
  | notUtf8 (field : String)
  | rejected (className : String)
  /-- An error that is passed on as it is. -/
  | passedOn (cause : Error)
  deriving DecidableEq

namespace CodecError

def message : CodecError → String
  | .schema e => e.message
  | .missingValue field => s!"Field {field} is None and has no packed form"
  | .notPacked className cause => s!"Error encoding {className}: {cause.message}"
  | .tooLong size limit =>
      s!"Encoded message size ({size} bytes) exceeds tmplpack_max_bytes={limit}"
  | .notUnpacked className cause => s!"Error decoding {className}: {cause.message}"
  | .truncated field => s!"Truncated data while decoding field {field}"
  | .notUtf8 field => s!"Field {field}: invalid UTF-8 encoding"
  | .rejected className => s!"Failed to construct {className}"
  | .passedOn cause => cause.message

end CodecError

namespace Class

def readSchema (c : Class) : Except CodecError Schema :=
  c.schema.mapError .schema

def packedValues (m : Record) : Schema → Except CodecError (List Value)
  | [] => .ok []
  | f :: fs =>
      let v := (m.lookup f.name).getD .none
      if v.isNone then .error (.missingValue f.name)
      else do
        let rest ← packedValues m fs
        .ok (v :: rest)

def encode (c : Class) (config : Config) (m : Record) : Except CodecError Bytes := do
  let schema ← c.readSchema
  let values ← packedValues m schema
  match packText config values schema.template with
  | .error e => .error (if e.isLibrary then .notPacked c.name e else .passedOn e)
  | .ok bs =>
      match c.maxBytes with
      | some limit =>
          if limit < bs.length then .error (.tooLong bs.length limit) else .ok bs
      | none => .ok bs

def isTruncated (f : FieldSchema) (start : Int) (batch : Batch) : Bool :=
  let short := match f.directive.byteSize with
    | some size => batch.stop - start < size
    | none => false
  (batch.values.headD .none).isNone || short

/-- The value of a field, where strings of text fields are read as UTF-8. -/
def unpackedValue (f : FieldSchema) (v : Value) : Except CodecError Value :=
  match v with
  | .bytes _ bs =>
      if f.isText then
        match Text.ofUtf8? bs with
        | some t => .ok (.text t)
        | none => .error (.notUtf8 f.name)
      else .ok v
  | v => .ok v

def unpackedFields (start : Int) : Schema → List Batch → Except CodecError Record
  | f :: fs, batch :: batches =>
      if isTruncated f start batch then .error (.truncated f.name)
      else do
        let v ← unpackedValue f (batch.values.headD .none)
        let rest ← unpackedFields batch.stop fs batches
        .ok ((f.name, v) :: rest)
  | _, _ => .ok []

def decode (c : Class) (config : Config) (data : Bytes) (validator : Validator := .standard) :
    Except CodecError Record := do
  let schema ← c.readSchema
  match unpackBatches config data schema.template with
  | .error e => .error (if e.isLibrary then .notUnpacked c.name e else .passedOn e)
  | .ok batches => do
      let given ← unpackedFields 0 schema batches
      match validator.construct c given with
      | .ok m => .ok m
      | .error _ => .error (.rejected c.name)

def encodedSize (c : Class) : Except CodecError Nat := do
  let schema ← c.readSchema
  (Template.size .default schema.template).mapError .passedOn

def sizesOf : Schema → Except Error (List (String × Nat))
  | [] => .ok []
  | f :: fs => do
      let first ← f.directive.size
      let rest ← sizesOf fs
      .ok ((f.name, first) :: rest)

def fieldSizes (c : Class) : Except CodecError (List (String × Nat)) := do
  let schema ← c.readSchema
  (sizesOf schema).mapError .passedOn

end Class

end ByteTemplate.Message
