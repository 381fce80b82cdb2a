import ByteTemplate.CommandLine.Program

/-!
# Entry point

Runs the command line and writes what it gives to the standard streams.
-/

namespace ByteTemplate.CommandLine

/-- The text as a string; surrogates, which no argument holds, are left out. -/
def streamText (t : Text) : String :=
  String.ofList (t.filterMap CodePoint.char?)

def Outcome.write : Outcome → IO UInt32
  | .help => do
      IO.print helpText
      return 0
  | .usageError => do
      IO.eprint usageText
      return 2
  | .done code output errors => do
      IO.print (streamText output)
      IO.eprint (streamText errors)
      return UInt32.ofNat code

end ByteTemplate.CommandLine

def main (args : List String) : IO UInt32 :=
  (ByteTemplate.CommandLine.run (args.map String.toList)).write
