import ByteTemplate.Text.Quoted
import ByteTemplate.Value

/-!
# How values are shown

Messages and lists show a number by its digits and a text or bytes in quotes.  Collections are
shown as their items between brackets with a comma between each two; a tuple of one item keeps a
comma behind it.  A value set into another text is shown plainly: without the quotes of a text
and without the name of the kind of a number.
-/

namespace ByteTemplate

def Double.bareChars (x : Double) : List Char :=
  let cs := x.chars
  if ['.', '0'].isSuffixOf cs then cs.take (cs.length - 2) else cs

namespace Value

/-- The imaginary part alone after a real part of positive zero, otherwise both parts in
parentheses with the sign of the second between them. -/
def complexChars (re im : Double) : List Char :=
  let last := im.bareChars
  if re = BinaryFloat.zero false then last ++ ['j']
  else
    let sign := if last.head? = some '-' then [] else ['+']
    '(' :: re.bareChars ++ sign ++ last ++ ['j', ')']

mutual

/-- The text of a value.  Views of bytes and values that are only an index are shown by the name
of their type alone. -/
def shown (v : Value) : String :=
  match v with
  | .none => "None"
  | .bool b => if b then "True" else "False"
  | .int n => String.ofList (Number.int n).chars
  | .float x => String.ofList (Number.float x).chars
  | .text t => t.quoted
  | .bytes .fixed bs => quotedBytes bs
  | .bytes .growable bs => quotedGrowable bs
  | .bytes .view bs => typeName (.bytes .view bs)
  | .complex re im => String.ofList (complexChars re im)
  | .decimal d => String.ofList (Number.decimal d).chars
  | .fraction q => String.ofList (Number.fraction q).chars
  | .indexable n => typeName (.indexable n)
  | .list vs => "[" ++ ", ".intercalate (shownItems vs) ++ "]"
  | .tuple vs =>
      let close := if vs.length = 1 then ",)" else ")"
      "(" ++ ", ".intercalate (shownItems vs) ++ close
  | .dict entries => "\x7b" ++ ", ".intercalate (shownEntries entries) ++ "\x7d"

def shownItems (vs : List Value) : List String :=
  match vs with
  | [] => []
  | v :: vs => shown v :: shownItems vs

def shownEntries (entries : List (Value × Value)) : List String :=
  match entries with
  | [] => []
  | (k, v) :: entries => (shown k ++ ": " ++ shown v) :: shownEntries entries

end

def plain : Value → Text
  | .text t => t
  | .decimal d => Text.ofChars d.chars
  | .fraction q =>
      Text.ofChars (intChars q.num ++ if q.den = 1 then [] else '/' :: decimalDigits q.den)
  | v => Text.ofString v.shown

end Value

end ByteTemplate
