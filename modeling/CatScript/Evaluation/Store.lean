import CatScript.Evaluation.Error
import CatScript.Scope

/-! # The store

What evaluation changes: the variables in their scopes and the printed text.  What `inScope` and
`inCall` do to the scopes is undone at their end, also when the evaluation in them fails. -/
set_option autoImplicit false
namespace CatScript

structure Store where
  scopes : Scopes Value
  output : String

/-- A step of evaluation: it changes the store and gives a result or fails. -/
abbrev Eval := EStateM EvalError Store

/-- How a statement ends: the next one follows, or the function returns. -/
inductive Flow where
  | normal
  | returned (value : Value)

namespace Store

def onScopes (change : Scopes Value → Scopes Value) (store : Store) : Store :=
  { store with scopes := change store.scopes }

def print (value : Value) (store : Store) : Store :=
  { store with output := store.output ++ value.text ++ "\n" }

end Store

namespace Evaluation

def print (value : Value) : Eval Unit :=
  modify (Store.print value)

def load (name : String) : Eval Value := do
  match (← get).scopes.find? name with
  | some value => return value
  | none => throw (.undefinedVariable name)

def declare (name : String) (value : Value) : Eval Unit :=
  modify (Store.onScopes (Scopes.declare name value))

/-- Changes the variable of a name in the innermost scope that has it. -/
def assign (name : String) (value : Value) : Eval Unit := do
  match (← get).scopes.assign? name value with
  | some scopes => modify fun store => { store with scopes }
  | none => throw (.undefinedVariable name)

/-- Evaluates, and then changes the scopes, whether the evaluation fails or not. -/
def thenAlways {α : Type} (body : Eval α) (change : Scopes Value → Scopes Value) : Eval α :=
  fun store =>
    match body store with
    | .ok result after => .ok result (after.onScopes change)
    | .error cause after => .error cause (after.onScopes change)

def inScope {α : Type} (body : Eval α) : Eval α := do
  modify (Store.onScopes Scopes.push)
  thenAlways body Scopes.pop

/-- Evaluates with `bound` and the outermost scope alone in sight. -/
def inCall {α : Type} (bound : Scope Value) (body : Eval α) : Eval α := do
  let saved := (← get).scopes.nested
  modify (Store.onScopes fun scopes => { scopes with nested := [bound] })
  thenAlways body fun scopes => { scopes with nested := saved }

/-- Does `act` with each of the items until one of them returns. -/
def eachItem {m : Type → Type} [Monad m] (act : Value → m Flow) : List Value → m Flow
  | [] => pure .normal
  | item :: rest => do
    match ← act item with
    | .normal => eachItem act rest
    | .returned value => return .returned value

end Evaluation
end CatScript
