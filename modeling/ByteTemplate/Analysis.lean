import ByteTemplate.Size
import ByteTemplate.Value.Shown

/-!
# Template analysis

A table of the directives of a template with the size and the meaning of each, and the packed
size of the whole.  It is printed line by line, up to a line with a number that has too many
digits to be shown.
-/

namespace ByteTemplate

def shownDigits (n : Nat) : Except Error (List Char) :=
  if Integer.isShowable n then .ok (decimalDigits n) else .error .tooManyDigits

namespace Directive

def describeInteger (signed : Bool) (width : Nat) (order : ByteOrder) : Except Error String :=
  let sign := if signed then "signed" else "unsigned"
  (shownDigits (width * 8)).map fun bits =>
    s!"{sign} {String.ofList bits}-bit integer, {order.name}-endian"

def describeFloat (precision : Precision) (order : ByteOrder) : String :=
  let name := match precision with
    | .single => "single"
    | .double => "double"
  s!"{name} float, {order.name}-endian"

def describe (d : Directive) : Except Error String :=
  match d.codec with
  | .element (.integer signed width) => describeInteger signed width d.order
  | .element (.float precision) => .ok (describeFloat precision d.order)
  | .element .codepoint => .ok "UTF-8 codepoint"
  | .block (.string .terminated) => .ok "NUL-terminated string"
  | .block (.string .nulls) => .ok "NUL-padded string"
  | .block (.string .spaces) => .ok "space-padded string"
  | .block (.hex .lowFirst) => .ok "hex string, low nibble first"
  | .block (.hex .highFirst) => .ok "hex string, high nibble first"
  | .block .base64 => .ok "base64 string"
  | .null | .ignored => .ok "NUL bytes"

end Directive

namespace Analysis

/-- The number of columns from the number of a directive to the end of its size. -/
def columns : Nat := 24

def indent : Nat := 8

def banner : List Char :=
  List.replicate 19 '='

def shownSize : Option Nat → Except Error (List Char)
  | some n => shownDigits n
  | none => .ok ['-']

/-- The line of the directive with this number; dots fill the gap before its size. -/
def line (number : Nat) (d : Directive) (size : Option Nat) : Except Error Text := do
  let label := Text.ofChars (decimalDigits number ++ ['.', ' ']) ++ d.text
  let size ← shownSize size
  let dots := List.replicate (max 1 (columns - label.length - size.length)) '.'
  d.describe.map fun description =>
    Text.ofChars (List.replicate indent ' ') ++ label
      ++ Text.ofChars (dots ++ size ++ [' ', ' '] ++ description.toList)

def lines : Nat → List (Directive × Option Nat) → List (Except Error Text)
  | _, [] => []
  | number, (d, size) :: rest => line number d size :: lines (number + 1) rest

def total (sizes : List (Directive × Option Nat)) : Except Error String :=
  match sizes.mapM Prod.snd with
  | some ns =>
      (shownDigits (ns.foldl (· + ·) 0)).map fun size =>
        s!"Packed size: {String.ofList size} bytes"
  | none => .ok "Packed size: variable"

def heading (template : Text) (sizes : List (Directive × Option Nat)) : List Text :=
  let plural := if sizes.length = 1 then "" else "s"
  [Text.ofChars (banner ++ [' ']) ++ template ++ Text.ofChars (' ' :: banner),
    Text.ofString s!"{sizes.length} directive{plural}.",
    Text.ofString "Sizes are in bytes; '-' means the size depends on the values.", []]

def table (template : Text) (sizes : List (Directive × Option Nat)) : List (Except Error Text) :=
  (heading template sizes).map .ok ++ lines 1 sizes
    ++ [.ok [], (total sizes).map Text.ofString]

end Analysis

/-- What was printed and the error, if any, that put an end to it. -/
structure Printout where
  text : Text
  fault : Option Error
  deriving DecidableEq

namespace Printout

/-- The lines before the first that has an error, each with its line end. -/
def ofLines : List (Except Error Text) → Printout
  | [] => ⟨[], none⟩
  | .error e :: _ => ⟨[], some e⟩
  | .ok line :: rest =>
      let p := ofLines rest
      ⟨line ++ Text.ofChars ['\n'] ++ p.text, p.fault⟩

def toExcept (p : Printout) : Except Error Text :=
  match p.fault with
  | none => .ok p.text
  | some e => .error e

end Printout

def printAnalysis (config : Config) (template : Value) : Printout :=
  match (Template.ofValue template).bind (Template.sizes config) with
  | .error e => ⟨[], some e⟩
  | .ok sizes => .ofLines (Analysis.table template.plain sizes)

def analyze (config : Config) (template : Value) : Except Error Text :=
  (printAnalysis config template).toExcept

end ByteTemplate
