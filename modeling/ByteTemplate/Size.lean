import ByteTemplate.Template

/-!
# Packed sizes

The number of bytes that a template packs to, where no directive leaves it to the values.
-/

namespace ByteTemplate

def Directive.size (d : Directive) : Except Error Nat :=
  match d.byteSize, d.codec with
  | some n, _ => .ok n
  | none, .element .codepoint | none, .block .base64 => .error (.noFixedSize d.char)
  | none, _ => .error (.noFixedSizeForAll d.char)

/-- The sum of the sizes, up to the first directive that has none. -/
def totalSize : List Directive → Except Error Nat
  | [] => .ok 0
  | d :: ds => do
      let first ← d.size
      let rest ← totalSize ds
      .ok (first + rest)

namespace Template

def size (config : Config) (t : Text) : Except Error Nat :=
  let reading := read config t
  match totalSize reading.directives, reading.fault with
  | .error e, _ => .error e
  | .ok _, some e => .error e
  | .ok n, none => .ok n

def sizes (config : Config) (t : Text) : Except Error (List (Directive × Option Nat)) :=
  (parse config t).map fun ds => ds.map fun d => (d, d.byteSize)

end Template

end ByteTemplate
