import CatScript.Arena.Numbering
import CatScript.Arena.Report
import CatScript.Arena.View
import CatScript.Typing.Check

/-! # Checked arenas

Typing the program of an arena, and deciding whether a program may run. -/
set_option autoImplicit false
namespace CatScript.Arena

def validate (arena : Arena) : Except Fault Arena := do
  match arena.root, ← arena.program? with
  | some root, some program =>
    return arena.adopt (← Typing.program (arena.returnTypeAround root) program)
  | _, _ => return arena

/-- The typed arena of the program that a text holds. -/
def analyze (source : String) : Except Fault Arena :=
  (parse source).validate

def rejection (diagnostics : List Diagnostic) : String :=
  let count := diagnostics.length
  toString count ++ (if count = 1 then " error" else " errors") ++
    String.join (diagnostics.map fun diagnostic => "\n  " ++ diagnostic.message)

end CatScript.Arena
