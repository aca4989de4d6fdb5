import StackParser.CommandLine.Execution

/-!
# The program

Reads the file that the command line names, prints what the command prints, and tells a problem on standard error.
-/

namespace StackParser.CommandLine

def terminalHasColours : IO Bool := do
  let plain ← IO.getEnv "NO_COLOR"
  match plain, ← IO.getEnv "TERM" with
  | none, some term => return term != "dumb"
  | _, _ => return false

def readFile? (file : String) : IO (Option ByteArray) := do
  try
    return some (← IO.FS.readBinFile file)
  catch _ => return none

def requestedFile? (args : List String) : Option String :=
  match Request.ofArguments args with
  | .ok (.parse _ file _ _) => some file
  | _ => none

/-- A problem as it is told on standard error. -/
def Problem.text (p : Problem) : String :=
  let code := (p.code.map fun code => code ++ "\n").getD ""
  let help := (p.help.map fun help => "help: " ++ help ++ "\n").getD ""
  code ++ "error: " ++ p.message ++ "\n" ++ help

end StackParser.CommandLine

open StackParser.CommandLine in
def main (args : List String) : IO UInt32 := do
  let content ← match requestedFile? args with
    | some file => readFile? file
    | none => pure none
  let exit := run (← terminalHasColours) (fun _ => content) args
  IO.print exit.output
  if let some problem := exit.problem then
    IO.eprint problem.text
  return exit.status.toUInt32
