import Xref.CommandLine.Run

/-!
# The program

Finds the tokens of a name, or the references to a symbol, in a file. Results go to standard
output, failures to standard error.
-/

open Xref.CommandLine

/-- What the program expects. -/
def usage : String :=
  "usage: xref [--language cs|vb] [--json] tokens FILE IDENTIFIER\n" ++
  "       xref [--language cs|vb] [--json] references FILE LINE COLUMN"

/-- The bytes of a file, or why it has none. -/
def readBytes (path : String) : IO (Except String ByteArray) := do
  try
    return .ok (← IO.FS.readBinFile path)
  catch e =>
    return .error (toString e)

def main (arguments : List String) : IO UInt32 := do
  match Request.ofArguments? arguments with
  | none =>
    IO.eprintln usage
    return 2
  | some r =>
    match ← r.run readBytes with
    | .ok out =>
      IO.print (String.ofList out)
      return 0
    | .error f =>
      IO.eprintln ("Error: " ++ f.message)
      return 1
