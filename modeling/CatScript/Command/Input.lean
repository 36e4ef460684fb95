/-! # Input

Where a command takes its text from, and why it may not get it. -/
set_option autoImplicit false
namespace CatScript

inductive ReadProblem where
  | missing | isDirectory | notDirectory | nameTooLong | denied | encoding
  | other (text : String)
deriving DecidableEq

/-- The problem in words; those that the system reports carry its number. -/
def ReadProblem.message : ReadProblem → String
  | missing => "No such file or directory (os error 2)"
  | isDirectory => "Is a directory (os error 21)"
  | notDirectory => "Not a directory (os error 20)"
  | nameTooLong => "File name too long (os error 36)"
  | denied => "Permission denied (os error 13)"
  | encoding => "stream did not contain valid UTF-8"
  | other text => text

/-- Why the text at a path was not read; without a path it is the standard input. -/
structure ReadFailure where
  path : Option String
  problem : ReadProblem
deriving DecidableEq

def ReadFailure.message (failure : ReadFailure) : String :=
  "Reading " ++ failure.path.getD "stdin" ++ "\n\nCaused by:\n    " ++ failure.problem.message

end CatScript
