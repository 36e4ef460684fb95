import CatScript.Arena.View
import CatScript.Code.Generation

/-! # The code of an arena

Generating the code of the program that an arena holds. -/
set_option autoImplicit false
namespace CatScript.Arena

def compile (arena : Arena) : Except CompileStop Executable :=
  match arena.program? with
  | .error fault => .error (.fault fault)
  | .ok none => .error (.error .missingProgram)
  | .ok (some program) =>
    let around := match arena.root with
      | some root => arena.returnTypeAround root
      | none => .ok none
    Generation.program around program

end CatScript.Arena
