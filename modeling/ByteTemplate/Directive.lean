import ByteTemplate.Config
import ByteTemplate.Number.Decimal

/-!
# Directives

A directive is one element of a template: the codec of its character, a count, modifiers and
the byte order that follows from them.  `Entry.ofChar` is the table of directive characters;
every other character is a directive that does nothing.
-/

namespace ByteTemplate

inductive Precision where
  | single
  | double
  deriving DecidableEq, Repr

inductive Padding where
  | spaces
  | nulls
  /-- Padded with NULs and read up to the first. -/
  | terminated
  deriving DecidableEq, Repr

/-- Which half of a byte the first of two hexadecimal digits takes. -/
inductive NibbleOrder where
  | highFirst
  | lowFirst
  deriving DecidableEq, Repr

/-- What a directive repeats: its count says how many values it takes. -/
inductive Element where
  | integer (signed : Bool) (width : Nat)
  | float (precision : Precision)
  | codepoint
  deriving DecidableEq, Repr

/-- What takes one value: the count of the directive is a width. -/
inductive Block where
  | string (padding : Padding)
  | hex (order : NibbleOrder)
  | base64
  deriving DecidableEq, Repr

inductive Codec where
  | element (e : Element)
  | block (b : Block)
  | null
  | ignored
  deriving DecidableEq, Repr

/-- The modifiers in force: those a directive has of itself and those written after it. -/
structure Modifiers where
  native : Bool := false
  little : Bool := false
  big : Bool := false
  deriving DecidableEq, Repr

structure Directive where
  char : CodePoint
  codec : Codec
  count : Option Nat
  modifiers : Modifiers
  order : ByteOrder
  deriving DecidableEq, Repr

namespace Precision

def width : Precision → Nat
  | .single => 4
  | .double => 8

end Precision

namespace Codec

def width : Codec → Nat
  | .element (.integer _ width) => width
  | .element (.float precision) => precision.width
  | _ => 0

def isSigned : Codec → Bool
  | .element (.integer signed _) => signed
  | _ => false

end Codec

namespace Modifiers

def order (m : Modifiers) (host : ByteOrder) : ByteOrder :=
  if m.little then .little else if m.big then .big else host

def union (m n : Modifiers) : Modifiers :=
  ⟨m.native || n.native, m.little || n.little, m.big || n.big⟩

end Modifiers

structure Entry where
  codec : Codec
  modifiers : Modifiers := {}
  deriving DecidableEq, Repr

namespace Entry

def ofChar : Char → Entry
  | 'A' => { codec := .block (.string .spaces) }
  | 'a' => { codec := .block (.string .nulls) }
  | 'Z' => { codec := .block (.string .terminated) }
  | 'C' => { codec := .element (.integer false 1) }
  | 'c' => { codec := .element (.integer true 1) }
  | 'S' => { codec := .element (.integer false 2) }
  | 's' => { codec := .element (.integer true 2) }
  | 'L' => { codec := .element (.integer false 4) }
  | 'l' => { codec := .element (.integer true 4) }
  | 'Q' => { codec := .element (.integer false 8) }
  | 'q' => { codec := .element (.integer true 8) }
  | 'n' => { codec := .element (.integer false 2), modifiers := { big := true } }
  | 'N' => { codec := .element (.integer false 4), modifiers := { big := true } }
  | 'v' => { codec := .element (.integer false 2), modifiers := { little := true } }
  | 'V' => { codec := .element (.integer false 4), modifiers := { little := true } }
  | 'D' => { codec := .element (.float .double) }
  | 'd' => { codec := .element (.float .double) }
  | 'F' => { codec := .element (.float .single) }
  | 'f' => { codec := .element (.float .single) }
  | 'E' => { codec := .element (.float .double), modifiers := { little := true } }
  | 'e' => { codec := .element (.float .single), modifiers := { little := true } }
  | 'G' => { codec := .element (.float .double), modifiers := { big := true } }
  | 'g' => { codec := .element (.float .single), modifiers := { big := true } }
  | 'U' => { codec := .element .codepoint }
  | 'H' => { codec := .block (.hex .highFirst) }
  | 'h' => { codec := .block (.hex .lowFirst) }
  | 'm' => { codec := .block .base64 }
  | 'x' => { codec := .null }
  | _ => { codec := .ignored }

def ofNativeInt? (signed : Bool) : Nat → Option Entry
  | 2 => some (ofChar (if signed then 's' else 'S'))
  | 4 => some (ofChar (if signed then 'l' else 'L'))
  | 8 => some (ofChar (if signed then 'q' else 'Q'))
  | _ => none

end Entry

def isModifiable : CodePoint → Bool
  | .scalar c => "sSiIlLqQ".toList.contains c
  | .surrogate _ => false

def nativeWidth (config : Config) (char : CodePoint) (width : Nat) : Nat :=
  match char with
  | .scalar 's' | .scalar 'S' => Config.shortSize
  | .scalar 'i' | .scalar 'I' => config.intSize
  | .scalar 'l' | .scalar 'L' => config.longSize
  | _ => width

def Codec.toNative (config : Config) (char : CodePoint) : Codec → Codec
  | .element (.integer signed width) =>
      .element (.integer signed (nativeWidth config char width))
  | codec => codec

namespace Directive

def isIgnored (d : Directive) : Bool :=
  d.codec == .ignored

def byteSize (d : Directive) : Option Nat :=
  match d.codec, d.count with
  | .ignored, _ => some 0
  | .element .codepoint, _ | .block .base64, _ | _, none => none
  | .block (.hex _), some n => some ((n + 1) / 2)
  | .block (.string _), some n | .null, some n => some n
  | .element (.integer _ width), some n => some (width * n)
  | .element (.float precision), some n => some (precision.width * n)

/-- The modifiers and the options of the codec as one number, a bit each. -/
def flags (d : Directive) : Nat :=
  let bit (b : Bool) (n : Nat) : Nat := if b then n else 0
  bit d.codec.isSigned 1
    + bit d.modifiers.native 2
    + bit d.modifiers.little 4
    + bit d.modifiers.big 8
    + bit (d.codec == .block (.hex .lowFirst)) 16
    + bit (d.codec == .block (.string .nulls)) 32
    + bit (d.codec == .block (.string .terminated)) 64

def text (d : Directive) : Text :=
  d.char :: Text.ofChars (match d.count with
    | none => ['*']
    | some n => decimalDigits n)

end Directive

end ByteTemplate
