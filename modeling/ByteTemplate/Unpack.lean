import ByteTemplate.Codec.Base64
import ByteTemplate.Codec.Codepoint
import ByteTemplate.Codec.Float
import ByteTemplate.Codec.Nibbles
import ByteTemplate.Codec.Padded
import ByteTemplate.Cursor
import ByteTemplate.Template
import ByteTemplate.Walk

/-!
# Unpacking

Each directive reads on where the one before it stopped.  Elements of fixed width for which too
few bytes are left come out as `none`; code points end with the data.  A block looks at no more
bytes than its packed size, or at all that are left if it has none.
-/

namespace ByteTemplate

/-- Up to `limit` elements of `width` bytes from the start of the data, while there are enough
bytes. -/
def readElements (width : Nat) (decode : Bytes → Except Error Value) :
    Nat → Bytes → Except Error (List Value)
  | 0, _ => .ok []
  | limit + 1, data =>
      let bs := data.take width
      if bs.length < width then .ok []
      else do
        let v ← decode bs
        let vs ← readElements width decode limit (data.drop width)
        .ok (v :: vs)

def readFixed (width : Nat) (decode : Bytes → Except Error Value) (count : Option Nat)
    (c : Cursor) : Except Error (List Value × Cursor) := do
  let data := c.unread
  let vs ← readElements width decode (count.getD data.length) data
  let c ← c.advance (width * vs.length)
  .ok (vs ++ List.replicate (count.getD 0 - vs.length) .none, c)

def readCodepoints : Nat → Bytes → Except Error (List Value × Nat)
  | 0, _ => .ok ([], 0)
  | limit + 1, data => do
      match ← Codepoint.decode (data.take 4) with
      | (none, _) => .ok ([], 0)
      | (some n, size) =>
          let (vs, rest) ← readCodepoints limit (data.drop size)
          .ok (.int n :: vs, size + rest)

def Element.read (config : Config) (order : ByteOrder) (count : Option Nat) (c : Cursor) :
    Element → Except Error (List Value × Cursor)
  | .integer signed width =>
      let decode (bs : Bytes) : Except Error Value :=
        (Integer.decodeWithin config.maxBits signed order bs).map .int
      readFixed width decode count c
  | .float precision =>
      let decode (bs : Bytes) : Except Error Value := .ok (.float (Real.decode precision order bs))
      readFixed precision.width decode count c
  | .codepoint => do
      let data := c.unread
      let (vs, size) ← readCodepoints (count.getD data.length) data
      let c ← c.advance size
      .ok (vs, c)

def Block.decode (count : Option Nat) (data : Bytes) (b : Block) : Value × Int :=
  let count := count.map Int.ofNat
  match b with
  | .string padding =>
      let (bs, size) := Padded.decode padding count data
      (.ofBytes bs, size)
  | .hex order =>
      let (digits, size) := Nibbles.decode order count data
      (.ofChars digits, size)
  | .base64 =>
      let (bs, size) := Base64.decode data
      (.ofBytes bs, size)

/-- The number of bytes a block may look at, negative for all. -/
def Directive.window (d : Directive) : Int :=
  match d.byteSize with
  | some size => size
  | none => -1

/-- The values of one directive and the position after it. -/
structure Batch where
  values : List Value
  stop : Int

def Cursor.skip (c : Cursor) (count : Option Nat) : Except Error Cursor :=
  match count with
  | none => c.advance c.remaining
  | some n => if c.remaining < n then .error .skipOutsideData else c.advance n

namespace Directive

def unpack (config : Config) (c : Cursor) (d : Directive) :
    Except Error (Option Batch × Cursor) :=
  match d.codec with
  | .ignored => .ok (none, c)
  | .null => do
      let c ← c.skip d.count
      .ok (none, c)
  | .block b => do
      let (v, size) := b.decode d.count (c.peek d.window)
      let c ← c.advance (min size c.remaining)
      .ok (some ⟨[v], c.position⟩, c)
  | .element e => do
      let (vs, c) ← e.read config d.order d.count c
      .ok (some ⟨vs, c.position⟩, c)

end Directive

structure Unpacking where
  batches : List Batch
  last : Except Error Cursor

namespace Unpacking

def run (config : Config) (data : Bytes) (template : Text) : Unpacking :=
  let reading := Template.read config template
  let (outs, last) := walk (Directive.unpack config) ⟨data, 0⟩ reading.directives
  let last := match last, reading.fault with
    | .error e, _ => .error e
    | .ok _, some e => .error e
    | .ok c, none => .ok c
  ⟨outs.filterMap id, last⟩

def result (u : Unpacking) : Except Error (List Batch) :=
  u.last.map fun _ => u.batches

def count (u : Unpacking) : Nat :=
  u.batches.foldl (fun n b => n + b.values.length) 0

end Unpacking

def unpackBatches (config : Config) (data : Bytes) (template : Text) :
    Except Error (List Batch) :=
  (Unpacking.run config data template).result

def unpack (config : Config) (data : Bytes) (template : Text) : Except Error (List Value) :=
  (unpackBatches config data template).map fun batches => batches.flatMap Batch.values

def firstBatch (config : Config) : Cursor → List Directive → Except Error (Option Batch)
  | _, [] => .ok none
  | c, d :: ds =>
      match d.unpack config c with
      | .error e => .error e
      | .ok (some batch, _) => .ok (some batch)
      | .ok (none, c) => firstBatch config c ds

/-- The first value; nothing after the first directive that has values is looked at. -/
def unpackFirst (config : Config) (data : Bytes) (template : Text) : Except Error Value :=
  let reading := Template.read config template
  match firstBatch config ⟨data, 0⟩ reading.directives, reading.fault with
  | .error e, _ => .error e
  | .ok (some batch), _ => .ok (batch.values.headD .none)
  | .ok none, some e => .error e
  | .ok none, none => .ok .none

end ByteTemplate
