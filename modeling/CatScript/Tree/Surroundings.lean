import CatScript.Fault
import CatScript.Ty

/-! # Surroundings

What a statement needs to know of the statements around it. -/
set_option autoImplicit false
namespace CatScript

/-- Whether a statement stands directly in the program, and the return type of the function around
it, if there is one.  Looking for a function around the whole program can be a fault. -/
structure Surroundings where
  topLevel : Bool
  returnType : Except Fault (Option Ty)

namespace Surroundings

def ofProgram (returnType : Except Fault (Option Ty)) : Surroundings :=
  ⟨true, returnType⟩

def ofFunction (returnType : Ty) : Surroundings :=
  ⟨false, .ok (some returnType)⟩

def inside (around : Surroundings) : Surroundings :=
  { around with topLevel := false }

end Surroundings
end CatScript
