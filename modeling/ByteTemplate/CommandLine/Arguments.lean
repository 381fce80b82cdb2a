import ByteTemplate.Text.Characters

/-!
# Command-line arguments

An argument that begins with a dash is an option, unless it is a negative number, holds a space
or is the dash alone.  Long options may be shortened as long as they stay unique, and short ones
may be written together, with or without an equals sign after the first.  All arguments are
sorted into options and values first; then the options take effect from left to right, each with
the values after it that it wants.
-/

namespace ByteTemplate.CommandLine

abbrev Argument := List Char

inductive Switch where
  | help
  | analyze
  | pack
  | unpack
  | verbose
  | version
  deriving DecidableEq, Repr

inductive Arity where
  | exactly (n : Nat)
  | atLeastOne
  deriving DecidableEq, Repr

namespace Switch

def arity : Switch → Arity
  | .help | .verbose | .version => .exactly 0
  | .analyze => .exactly 1
  | .pack => .atLeastOne
  | .unpack => .exactly 2

end Switch

def names : List (Argument × Switch) :=
  [("-h".toList, .help), ("--help".toList, .help), ("--analyze".toList, .analyze),
    ("--pack".toList, .pack), ("--unpack".toList, .unpack), ("-v".toList, .verbose),
    ("--verbose".toList, .verbose), ("--version".toList, .version)]

inductive Item where
  | value (a : Argument)
  | option (s : Switch)
  | assigned (s : Switch) (a : Argument)
  /-- A short option with the letters of further ones behind it. -/
  | group (s : Switch) (letters : List Char)
  | unknown
  | separator
  deriving DecidableEq, Repr

def splitEquals (a : Argument) : Argument × Option Argument :=
  match a.dropWhile (· != '=') with
  | _ :: attached => (a.takeWhile (· != '='), some attached)
  | [] => (a, none)

def isNegativeNumber (a : Argument) : Bool :=
  let a := if a.getLast? = some '\n' then a.dropLast else a
  match a with
  | '-' :: cs =>
      let (whole, rest) := (cs.takeWhile Text.isDecimalDigit, cs.dropWhile Text.isDecimalDigit)
      match rest with
      | [] => !whole.isEmpty
      | '.' :: fraction => !fraction.isEmpty && fraction.all Text.isDecimalDigit
      | _ => false
  | _ => false

def Item.ofSwitch (attached : Option Argument) (s : Switch) : Item :=
  match attached with
  | none => .option s
  | some a => .assigned s a

/-- An option by its full name with the text after an equals sign.  After a short name any text
stands for letters. -/
def Item.ofAssignment (name : Argument) (s : Switch) (a : Argument) : Item :=
  if name.length = 2 ∧ a ≠ [] then .group s a else .assigned s a

def candidates (a : Argument) : List Item :=
  match a with
  | '-' :: '-' :: _ =>
      let (name, attached) := splitEquals a
      (names.filter fun (full, _) => name.isPrefixOf full).map fun (_, s) =>
        .ofSwitch attached s
  | '-' :: c :: rest =>
      (names.filter fun (full, _) => full == ['-', c]).map fun (_, s) => .group s rest
  | _ => []

def classify (a : Argument) : Option Item :=
  if a.head? ≠ some '-' then some (.value a)
  else if a = ['-', '-'] then some .separator
  else
    match names.lookup a with
    | some s => some (.option s)
    | none =>
      if a.length = 1 then some (.value a)
      else
        let (name, attached) := splitEquals a
        match attached, names.lookup name with
        | some attached, some s => some (.ofAssignment name s attached)
        | _, _ =>
          match candidates a with
          | [item] => some item
          | [] =>
              if isNegativeNumber a ∨ a.contains ' ' then some (.value a) else some .unknown
          | _ => none

/-- The items of a command line, none if one is ambiguous.  Nothing after two dashes is
looked at. -/
def classifyAll : List Argument → Option (List Item)
  | [] => some []
  | a :: rest => do
      let item ← classify a
      if item = .separator then some [.separator]
      else
        let items ← classifyAll rest
        some (item :: items)

/-! ## Taking effect -/

structure Settings where
  analyze : Option (Option Argument) := none
  pack : Option (List Argument) := none
  unpack : Option (Argument × Argument) := none
  verbose : Bool := false
  hasExtra : Bool := false
  deriving DecidableEq, Repr

inductive Stop where
  | help
  | version
  | invalid
  deriving DecidableEq, Repr

def leadingValues : List Item → List Argument
  | .value a :: items => a :: leadingValues items
  | _ => []

def takeValues (arity : Arity) (values : List Argument) : Option (List Argument) :=
  match arity with
  | .exactly n => if values.length < n then none else some (values.take n)
  | .atLeastOne => if values.isEmpty then none else some values

def shortGroup (letters : List Char) : Option (List Switch) :=
  letters.mapM fun c => names.lookup ['-', c]

namespace Settings

def set (g : Settings) (s : Switch) (values : List Argument) : Except Stop Settings :=
  match s, values with
  | .help, _ => .error .help
  | .version, _ => .error .version
  | .verbose, _ => .ok { g with verbose := true }
  | .analyze, values => .ok { g with analyze := some values.head? }
  | .pack, values => .ok { g with pack := some values }
  | .unpack, a :: b :: _ => .ok { g with unpack := some (a, b) }
  | _, _ => .error .invalid

def setAll (g : Settings) : List Switch → Except Stop Settings
  | [] => .ok g
  | s :: rest => do
      let g ← g.set s []
      g.setAll rest

/-- The settings after an option with the text after its equals sign.  Two dashes there stand
for a value that is missing. -/
def assign (g : Settings) (s : Switch) (a : Argument) : Except Stop Settings :=
  match takeValues s.arity [a] with
  | some [a] => g.set s (if a = ['-', '-'] then [] else [a])
  | _ => .error .invalid

/-- The settings after a short option with further letters, all of which must be options before
the first takes effect. -/
def setGroup (g : Settings) (s : Switch) (letters : List Char) : Except Stop Settings :=
  match shortGroup letters with
  | none => .error .invalid
  | some group => g.setAll (s :: group)

/-- Reads items from left to right; `skip` of them have been taken by an option before. -/
def read (g : Settings) (skip : Nat) : List Item → Except Stop Settings
  | [] => .ok g
  | item :: rest =>
      match skip, item with
      | skip + 1, _ => g.read skip rest
      | 0, .value _ => { g with hasExtra := true }.read 0 rest
      | 0, .unknown => { g with hasExtra := true }.read 0 rest
      | 0, .separator => { g with hasExtra := true }.read 0 rest
      | 0, .assigned s a =>
          match g.assign s a with
          | .error stop => .error stop
          | .ok g => g.read 0 rest
      | 0, .group s letters =>
          match g.setGroup s letters with
          | .error stop => .error stop
          | .ok g => g.read 0 rest
      | 0, .option s =>
          match takeValues s.arity (leadingValues rest) with
          | none => .error .invalid
          | some values =>
              match g.set s values with
              | .error stop => .error stop
              | .ok g => g.read values.length rest

end Settings

def parse (args : List Argument) : Except Stop Settings :=
  match classifyAll args with
  | none => .error .invalid
  | some items =>
      match Settings.read {} 0 items with
      | .error stop => .error stop
      | .ok g => if g.hasExtra then .error .invalid else .ok g

end ByteTemplate.CommandLine
