import CatScript.Fault
import CatScript.Scope
import CatScript.Ty

/-! # Symbols

What the names of a program stand for: variables have types and nested scopes, functions have
signatures and one table.  The first function of a name keeps it. -/
set_option autoImplicit false
namespace CatScript

structure Signature where
  params : List Ty
  returns : Ty
deriving DecidableEq

/-- The variables in scope and the functions of the program. -/
structure Symbols where
  scopes : Scopes Ty
  functions : Scope Signature

namespace Symbols

def empty : Symbols := ⟨.empty, []⟩

def enter (symbols : Symbols) : Symbols :=
  { symbols with scopes := symbols.scopes.push }

/-- Closes the innermost scope, which may not be the global one. -/
def leave (symbols : Symbols) : Except Fault Symbols :=
  match symbols.scopes.pop? with
  | some scopes => .ok { symbols with scopes }
  | none => .error .globalScopePopped

def typeOf? (symbols : Symbols) (name : String) : Option Ty :=
  symbols.scopes.find? name

def declaredHere (symbols : Symbols) (name : String) : Bool :=
  (symbols.scopes.innermost.find? name).isSome

def declare (symbols : Symbols) (name : String) (ty : Ty) : Symbols :=
  { symbols with scopes := symbols.scopes.declare name ty }

/-- Adds a function unless there is one of the name, and tells whether it was added. -/
def register (symbols : Symbols) (name : String) (signature : Signature) : Bool × Symbols :=
  match symbols.functions.find? name with
  | some _ => (false, symbols)
  | none => (true, { symbols with functions := symbols.functions.bind name signature })

def function? (symbols : Symbols) (name : String) : Option Signature :=
  symbols.functions.find? name

theorem leave_enter (symbols : Symbols) : symbols.enter.leave = .ok symbols := rfl

end Symbols
end CatScript
