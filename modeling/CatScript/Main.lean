import CatScript.Command.Execute

/-! # The command line

Reads the arguments, the text and the environment, and writes what comes of the command. -/
set_option autoImplicit false
namespace CatScript

def ReadProblem.ofError : IO.Error → ReadProblem
  | .noFileOrDirectory _ _ _ => .missing
  | .inappropriateType _ 21 _ => .isDirectory
  | .inappropriateType _ _ _ => .notDirectory
  | .invalidArgument _ _ _ => .nameTooLong
  | .permissionDenied _ _ _ => .denied
  | .userError _ => .encoding
  | error => .other (toString error)

/-- Reads the file at a path, or the standard input. -/
def readInput (path : Option String) : IO (Except ReadFailure String) := do
  try
    match path with
    | some path => return .ok (← IO.FS.readFile path)
    | none => return .ok (← (← IO.getStdin).readToEnd)
  catch error =>
    return .error ⟨path, .ofError error⟩

/-- Writes what comes of a command and gives the code to end with. -/
def writeReport (report : Report) : IO UInt32 := do
  for record in report.records do
    IO.eprintln ("[" ++ record.level.name ++ "] " ++ record.message)
  IO.print report.output
  IO.eprint report.complaint
  return report.code.toUInt32

end CatScript

def main (args : List String) : IO UInt32 := do
  let setting ← IO.getEnv "CATSCRIPT_LOG"
  let input ← match CatScript.Options.parse args with
    | .ok options => CatScript.readInput options.path
    | .error _ => pure (.ok "")
  CatScript.writeReport (CatScript.Command.invoke (fun _ => input) setting args)
