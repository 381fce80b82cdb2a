import ByteTemplate.Buffer
import ByteTemplate.Codec.Base64
import ByteTemplate.Codec.Codepoint
import ByteTemplate.Codec.Float
import ByteTemplate.Codec.Nibbles
import ByteTemplate.Codec.Padded
import ByteTemplate.Conversion
import ByteTemplate.Walk

/-!
# Packing

Values are taken from left to right.  A directive with elements takes one value for each
repetition, or all for `*`; one with a block takes a single value.  Running out of values is no
error: what has no value is left out.

Each directive puts out a piece of the data, and the pieces are then joined.  This keeps the
order of errors: a failing directive comes after the pieces before it have been joined.
-/

namespace ByteTemplate

def Element.encode (order : ByteOrder) (v : Value) : Element → Except Error Bytes
  | .integer _ width => v.toInt.map (Integer.encode width order)
  | .float precision => v.toDouble.map (Real.encode precision order)
  | .codepoint =>
      match v with
      | .float _ => .error .codepointOutOfRange
      | v => v.toInt.bind Codepoint.encode

def Block.encode (count : Option Nat) (source : Bytes) (b : Block) : Bytes :=
  let count := count.map Int.ofNat
  match b with
  | .string padding => Padded.encode padding count source
  | .hex order => Nibbles.encode order count source
  | .base64 => Base64.encode count source

def Element.encodeAll (order : ByteOrder) (e : Element) : List Value → Except Error Bytes
  | [] => .ok []
  | v :: vs => do
      let first ← e.encode order v
      let rest ← e.encodeAll order vs
      .ok (first ++ rest)

/-- Packed data of one directive.  Zeros are counted and not yet written. -/
inductive Piece where
  | bytes (bs : Bytes)
  | zeros (count : Nat)
  deriving DecidableEq, Repr

structure Output where
  directive : Directive
  piece : Piece
  missing : Nat
  deriving DecidableEq, Repr

def Piece.write (b : Buffer) : Piece → Except Error Nat × Buffer
  | .bytes bs => b.write bs
  | .zeros count => b.fill 0 count

def Output.join (b : Buffer) (o : Output) : Except Error (Output × Buffer) :=
  match o.piece.write b with
  | (.ok _, b) => .ok (o, b)
  | (.error e, _) => .error e

namespace Directive

def pack (values : List Value) (d : Directive) : Except Error (Output × List Value) :=
  match d.codec with
  | .ignored => .ok (⟨d, .bytes [], 0⟩, values)
  | .null => .ok (⟨d, .zeros (d.count.getD 0), 0⟩, values)
  | .block b =>
      match values with
      | [] => .ok (⟨d, .bytes [], 0⟩, [])
      | v :: rest => do
          let source ← v.toBytes
          .ok (⟨d, .bytes (b.encode d.count source), 0⟩, rest)
  | .element e => do
      let wanted := d.count.getD values.length
      let bs ← e.encodeAll d.order (values.take wanted)
      .ok (⟨d, .bytes bs, wanted - values.length⟩, values.drop wanted)

end Directive

/-- What packing has done: the outputs of the directives before the first failure, as far as they
could be joined, the data joined from them, and the values that are left or the failure. -/
structure Packing where
  outputs : List Output
  data : Except Error Buffer
  rest : Except Error (List Value)

namespace Packing

def run (config : Config) (values : List Value) (template : Text) : Packing :=
  let reading := Template.read config template
  let (outputs, last) := walk Directive.pack values reading.directives
  let rest := match last, reading.fault with
    | .error e, _ => .error e
    | .ok _, some e => .error e
    | .ok rest, none => .ok rest
  let (joined, data) := walk Output.join Buffer.empty outputs
  ⟨joined, data, rest⟩

def result (p : Packing) : Except Error Bytes :=
  match p.data, p.rest with
  | .error e, _ => .error e
  | .ok _, .error e => .error e
  | .ok b, .ok _ => .ok b.bytes

end Packing

def packText (config : Config) (values : List Value) (template : Text) : Except Error Bytes :=
  (Packing.run config values template).result

def pack (config : Config) (values template : Value) : Except Error Bytes := do
  let template ← Template.ofValue template
  packText config values.elements template

end ByteTemplate
