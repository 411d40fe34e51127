import Biblio.Report

/-!
# The report on standard input

The program reads a record from standard input and prints the report on it.
-/

namespace Biblio

partial def readInput (input : IO.FS.Stream) (text : String) : IO String := do
  let line ← input.getLine
  if line.isEmpty then return text else readInput input (text ++ line)

end Biblio

def main : IO Unit := do
  let text ← Biblio.readInput (← IO.getStdin) ""
  match ((Biblio.Report.ofText text).exec {}).1 with
  | .ok report => IO.print report
  | .error fault => IO.eprintln fault.message
