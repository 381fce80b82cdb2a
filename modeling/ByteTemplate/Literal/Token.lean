import ByteTemplate.Literal.Quoted

/-!
# Tokens of literals

Literals are written on one line, which may go on over line ends inside brackets and after a
backslash.  Blank lines and comments do not count, and no line may begin with blanks unless it
goes on from the one before.
-/

namespace ByteTemplate.Literal

inductive Token where
  | number (v : Value)
  | constant (v : Value)
  | text (t : Text)
  | bytes (bs : Bytes)
  | mark (c : Char)
  /-- The end of a line that is not blank. -/
  | newline

def unifyLines : List Char → List Char
  | [] => []
  | '\r' :: '\n' :: cs => '\n' :: unifyLines cs
  | '\r' :: cs => '\n' :: unifyLines cs
  | c :: cs => c :: unifyLines cs

def maxDepth : Nat := 200

def depthAfter (depth : Nat) (c : Char) : Option Nat :=
  if c = '(' ∨ c = '[' ∨ c = '\x7b' then
    if depth < maxDepth then some (depth + 1) else none
  else if c = ')' ∨ c = ']' ∨ c = '\x7d' then
    if depth = 0 then none else some (depth - 1)
  else some depth

def isMark (c : Char) : Bool :=
  "()[]\x7b\x7d,:+-".toList.contains c

def constant? (word : List Char) : Option Value :=
  if word = "True".toList then some (.bool true)
  else if word = "False".toList then some (.bool false)
  else if word = "None".toList then some .none
  else none

def isBlank (c : Char) : Bool :=
  c == ' ' || c == '\t' || c == '\x0c'

def quotedToken : Value → Token
  | .text t => .text t
  | .bytes _ bs => .bytes bs
  | v => .constant v

def token (cs : List Char) : Option (Token × List Char) :=
  match cs with
  | [] => none
  | c :: rest =>
      if isDecimalDigit c ∨ (c = '.' ∧ (rest.head?.map isDecimalDigit).getD false) then
        (number cs).map fun (v, rest) => (.number v, rest)
      else if isMark c then some (.mark c, rest)
      else
        let word := cs.takeWhile isWordChar
        match cs.dropWhile isWordChar, quoteKind? word with
        | '\'' :: rest, some kind =>
            (quoted kind '\'' rest).map fun (v, rest) => (quotedToken v, rest)
        | '"' :: rest, some kind =>
            (quoted kind '"' rest).map fun (v, rest) => (quotedToken v, rest)
        | rest, _ => (constant? word).map fun v => (.constant v, rest)

/-- Where reading stands: the open brackets, and the indentation while a line has only blanks. -/
structure LineState where
  depth : Nat := 0
  indent : Option Nat := some 0
  deriving DecidableEq, Repr

namespace LineState

/-- A blank: a form feed begins the line anew. -/
def blank (s : LineState) (c : Char) : LineState :=
  { s with indent := s.indent.map fun n => if c = '\x0c' then 0 else n + 1 }

def mayStart (s : LineState) : Bool :=
  s.depth != 0 || s.indent.getD 0 == 0

def inLine (s : LineState) : LineState :=
  { s with indent := none }

def nextLine (s : LineState) : LineState :=
  { s with indent := some 0 }

end LineState

def tokens : Nat → LineState → List Char → Option (List Token)
  | _, s, [] => if s.mayStart then some [] else none
  | 0, _, _ :: _ => none
  | fuel + 1, s, c :: cs =>
      if isBlank c then tokens fuel (s.blank c) cs
      else if c = '#' then
        tokens fuel (if s.indent.isSome then s.nextLine else s) (cs.dropWhile (· != '\n'))
      else if c = '\n' then
        let rest := tokens fuel s.nextLine cs
        if s.depth = 0 ∧ s.indent.isNone then rest.map (.newline :: ·) else rest
      else if c = '\\' then
        match cs with
        | '\n' :: d :: rest => tokens fuel s (d :: rest)
        | _ => none
      else if s.mayStart then do
        let (t, rest) ← token (c :: cs)
        let depth ← match t with
          | .mark c => depthAfter s.depth c
          | _ => some s.depth
        let ts ← tokens fuel { s.inLine with depth := depth } rest
        some (t :: ts)
      else none

end ByteTemplate.Literal
