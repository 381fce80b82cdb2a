import ByteTemplate.Literal.Token
import ByteTemplate.Number.Order

/-!
# Literals

An argument is read as a literal: a number with at most one sign, a sum or difference of a real
and an imaginary number, quoted texts or bytes, a constant, or a tuple, list or dictionary of
these.  An argument that is no literal is the text it consists of.
-/

namespace ByteTemplate.Literal

def parts? : Value → Option (Number × Number)
  | .complex re im => some (.float re, .float im)
  | v => v.number?.map fun x => (x, .int 0)

mutual

def sameKey (v w : Value) : Bool :=
  match v, w with
  | .none, .none => true
  | .text t, .text u => t == u
  | .bytes _ bs, .bytes _ cs => bs == cs
  | .tuple vs, .tuple ws => sameKeys vs ws
  | v, w =>
      match parts? v, parts? w with
      | some (re, im), some (re', im') => re.isSame re' && im.isSame im'
      | _, _ => false

def sameKeys (vs ws : List Value) : Bool :=
  match vs, ws with
  | [], [] => true
  | v :: vs, w :: ws => sameKey v w && sameKeys vs ws
  | _, _ => false

end

mutual

def isKey (v : Value) : Bool :=
  match v with
  | .list _ | .dict _ => false
  | .tuple vs => areKeys vs
  | _ => true

def areKeys (vs : List Value) : Bool :=
  match vs with
  | [] => true
  | v :: vs => isKey v && areKeys vs

end

/-- Adds an entry; one with the same key keeps its place and its key and takes the value. -/
def insert (k v : Value) : List (Value × Value) → List (Value × Value)
  | [] => [(k, v)]
  | (key, old) :: entries =>
      if sameKey key k then (key, v) :: entries else (key, old) :: insert k v entries

/-- A read value with what the grammar still lets one do with it. -/
inductive Node where
  | number (v : Value)
  | signed (v : Value)
  | other (v : Value)

def Node.value : Node → Value
  | .number v | .signed v | .other v => v

def negate (x : Double) : Double :=
  { x with negative := !x.negative }

def applySign (minus : Bool) : Node → Option Node
  | .number v =>
      match v, minus with
      | v, false => some (.signed v)
      | .int n, true => some (.signed (.int (-n)))
      | .float x, true => some (.signed (.float (negate x)))
      | .complex re im, true => some (.signed (.complex (negate re) (negate im)))
      | _, true => none
  | _ => none

def Node.real? : Node → Option Double
  | .number (.float x) | .signed (.float x) => some x
  | .number (.int n) | .signed (.int n) =>
      let x := Double.ofFraction n 1
      if x.isInfinite then none else some x
  | _ => none

/-- A real number before an imaginary one.  Adding a zero drops the sign of a zero. -/
def combine (minus : Bool) (left right : Node) : Option Node := do
  let real ← left.real?
  match right with
  | .number (.complex _ im) =>
      let re := if !minus ∧ real.units = 0 then BinaryFloat.zero false else real
      let im := if minus ∧ im.units ≠ 0 then negate im else im
      some (.other (.complex re im))
  | _ => none

/-! ## Grammar -/

def appendTexts (t : Text) : List Token → Option (Text × List Token)
  | .text u :: ts => appendTexts (t ++ u) ts
  | .bytes _ :: _ => none
  | ts => some (t, ts)

def appendBytes (bs : Bytes) : List Token → Option (Bytes × List Token)
  | .bytes cs :: ts => appendBytes (bs ++ cs) ts
  | .text _ :: _ => none
  | ts => some (bs, ts)

mutual

def sum : Nat → List Token → Option (Node × List Token)
  | 0, _ => none
  | fuel + 1, ts => do
      let (left, ts) ← term fuel ts
      match ts with
      | .mark '+' :: ts =>
          let (right, ts) ← term fuel ts
          let node ← combine false left right
          some (node, ts)
      | .mark '-' :: ts =>
          let (right, ts) ← term fuel ts
          let node ← combine true left right
          some (node, ts)
      | ts => some (left, ts)

def term : Nat → List Token → Option (Node × List Token)
  | 0, _ => none
  | fuel + 1, ts =>
      match ts with
      | .mark '+' :: ts => do
          let (node, ts) ← term fuel ts
          let node ← applySign false node
          some (node, ts)
      | .mark '-' :: ts => do
          let (node, ts) ← term fuel ts
          let node ← applySign true node
          some (node, ts)
      | .number v :: ts => some (.number v, ts)
      | .constant v :: ts => some (.other v, ts)
      | .text t :: ts => (appendTexts t ts).map fun (t, ts) => (.other (.text t), ts)
      | .bytes bs :: ts => (appendBytes bs ts).map fun (bs, ts) => (.other (.ofBytes bs), ts)
      | .mark '(' :: ts => parenthesized fuel ts
      | .mark '[' :: ts => do
          let (vs, _, ts) ← items fuel ']' ts
          some (.other (.list (vs.map Node.value)), ts)
      | .mark '\x7b' :: ts => do
          let (entries, ts) ← pairs fuel [] ts
          some (.other (.dict entries), ts)
      | _ => none

def parenthesized : Nat → List Token → Option (Node × List Token)
  | 0, _ => none
  | fuel + 1, ts => do
      let (nodes, comma, ts) ← items fuel ')' ts
      match nodes, comma with
      | [node], false => some (node, ts)
      | nodes, _ => some (.other (.tuple (nodes.map Node.value)), ts)

/-- Items with commas between them and perhaps one at the end, up to the closing bracket; also
tells whether a comma was there. -/
def items : Nat → Char → List Token → Option (List Node × Bool × List Token)
  | 0, _, _ => none
  | fuel + 1, close, ts =>
      match ts with
      | .mark c :: rest => if c = close then some ([], false, rest) else item fuel close ts
      | ts => item fuel close ts

def item : Nat → Char → List Token → Option (List Node × Bool × List Token)
  | 0, _, _ => none
  | fuel + 1, close, ts => do
      let (node, ts) ← sum fuel ts
      match ts with
      | .mark ',' :: ts =>
          let (nodes, _, ts) ← items fuel close ts
          some (node :: nodes, true, ts)
      | .mark c :: ts => if c = close then some ([node], false, ts) else none
      | _ => none

def pairs : Nat → List (Value × Value) → List Token → Option (List (Value × Value) × List Token)
  | 0, _, _ => none
  | fuel + 1, entries, ts =>
      match ts with
      | .mark '\x7d' :: ts => some (entries, ts)
      | ts => do
          let (key, ts) ← sum fuel ts
          match ts with
          | .mark ':' :: ts =>
              let (v, ts) ← sum fuel ts
              let entries ← if isKey key.value then some (insert key.value v.value entries) else none
              match ts with
              | .mark ',' :: ts => pairs fuel entries ts
              | .mark '\x7d' :: ts => some (entries, ts)
              | _ => none
          | _ => none

end

def line : Nat → List Token → Option (List Node × Bool)
  | 0, _ => none
  | fuel + 1, ts => do
      let (node, ts) ← sum fuel ts
      match ts with
      | [] | [.newline] => some ([node], false)
      | [.mark ','] | [.mark ',', .newline] => some ([node], true)
      | .mark ',' :: ts =>
          let (nodes, _) ← line fuel ts
          some (node :: nodes, true)
      | _ => none

def ofChars? (cs : List Char) : Option Value := do
  let cs := unifyLines (cs.dropWhile fun c => c = ' ' ∨ c = '\t')
  if cs.contains '\x00' then none
  let ts ← tokens (2 * cs.length) {} cs
  let (nodes, comma) ← line (8 * (ts.length + 1)) ts
  match nodes, comma with
  | [node], false => some node.value
  | nodes, _ => some (.tuple (nodes.map Node.value))

def read (t : Text) : Value :=
  (t.chars?.bind ofChars?).getD (.text t)

end ByteTemplate.Literal
