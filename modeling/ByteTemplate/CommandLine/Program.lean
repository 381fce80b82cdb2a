import ByteTemplate.Analysis
import ByteTemplate.CommandLine.Arguments
import ByteTemplate.Literal
import ByteTemplate.Pack
import ByteTemplate.Unpack
import ByteTemplate.Value.Shown

/-!
# The command-line program

Analyzes templates, packs literals and shows the bytes in hexadecimal, or unpacks bytes given
that way.  Of several commands the first of these three is run.  What a verbose run reports goes
to the error stream.
-/

namespace ByteTemplate.CommandLine

inductive Outcome where
  | usageError
  | help
  | done (code : Nat) (output errors : Text)
  deriving DecidableEq

def versionLine : String := "tmplpack 0.1.0\n"

def usageText : String :=
  "usage: tmplpack [-h] [--analyze TEMPLATE] [--pack ARG [ARG ...]]\n" ++
  "                [--unpack TEMPLATE HEX] [-v] [--version]\n"

def helpText : String :=
  usageText ++ "\ntmplpack: template-driven binary packing\n\n" ++
  "options:\n" ++
  "  -h, --help            show this help message and exit\n" ++
  "  --analyze TEMPLATE    Show the directives of a template and their sizes\n" ++
  "  --pack ARG [ARG ...]  Pack values: TEMPLATE VALUE... (values are literals or text)\n" ++
  "  --unpack TEMPLATE HEX\n" ++
  "                        Unpack hex-encoded bytes with a template\n" ++
  "  -v, --verbose         Enable debug logging\n" ++
  "  --version             show the version number and exit\n"

inductive Failure where
  | library (e : Error)
  | hexadecimal (position : Nat)
  | noTemplate
  deriving DecidableEq

def Failure.message : Failure → String
  | .library e => e.message
  | .hexadecimal position =>
      s!"non-hexadecimal number found in fromhex() arg at position {position}"
  | .noTemplate => "not enough values to unpack (expected at least 1, got 0)"

structure Run where
  reports : List Text
  output : Text
  failure : Option Failure

def packReport (line : List Char) : Text :=
  Text.ofChars ("DEBUG tmplpack.codec.encoder: pack: ".toList ++ line ++ ['\n'])

def unpackReport (line : List Char) : Text :=
  Text.ofChars ("DEBUG tmplpack.codec.decoder: unpack: ".toList ++ line ++ ['\n'])

def shortfall? (o : Output) : Option Text :=
  if o.missing = 0 then none
  else
    let directive := String.ofList (o.directive.text.filterMap CodePoint.char?)
    let line := s!"values exhausted at directive {directive} ({o.missing} missing)"
    some (packReport line.toList)

def runPack (template : Text) (args : List Text) : Run :=
  let values := args.map Literal.read
  let p := Packing.run .default values template
  let shortfalls := p.outputs.filterMap shortfall?
  match p.data, p.rest with
  | .error e, _ => ⟨shortfalls, [], some (.library e)⟩
  | .ok _, .error e => ⟨shortfalls, [], some (.library e)⟩
  | .ok b, .ok rest =>
      let line := s!"{values.length - rest.length} values -> {b.length} bytes"
      ⟨shortfalls ++ [packReport line.toList],
        Text.ofChars (Hexadecimal.ofBytes b.bytes ++ ['\n']), none⟩

def runUnpack (template : Text) (hex : List Char) : Run :=
  match Hexadecimal.read hex with
  | .error position => ⟨[], [], some (.hexadecimal position)⟩
  | .ok data =>
      let u := Unpacking.run .default data template
      match u.last with
      | .error e => ⟨[], [], some (.library e)⟩
      | .ok c =>
          let line := s!"{c.position} bytes -> {u.count} values"
          ⟨[unpackReport line.toList],
            Text.ofString ((Value.list (u.batches.flatMap Batch.values)).shown ++ "\n"), none⟩

/-- Analyzes a template; one that is missing is no more of a template than an empty list. -/
def runAnalyze (template : Option Text) : Run :=
  let p := printAnalysis .default ((template.map .text).getD (.list []))
  ⟨[], p.text, p.fault.map .library⟩

def Settings.run? (g : Settings) : Option Run :=
  match g.analyze, g.pack, g.unpack with
  | some template, _, _ => some (runAnalyze (template.map Text.ofChars))
  | none, some (template :: args), _ =>
      some (runPack (Text.ofChars template) (args.map Text.ofChars))
  | none, some [], _ => some ⟨[], [], some .noTemplate⟩
  | none, none, some (template, hex) => some (runUnpack (Text.ofChars template) hex)
  | none, none, none => none

def Run.outcome (r : Run) (verbose : Bool) : Outcome :=
  let reports := if verbose then r.reports.flatten else []
  match r.failure with
  | none => .done 0 r.output reports
  | some e => .done 1 r.output (reports ++ Text.ofString s!"Error: {e.message}\n")

def run (args : List Argument) : Outcome :=
  match parse args with
  | .error .invalid => .usageError
  | .error .help => .help
  | .error .version => .done 0 (Text.ofString versionLine) []
  | .ok g =>
      match g.run? with
      | none => .help
      | some r => r.outcome g.verbose

end ByteTemplate.CommandLine
