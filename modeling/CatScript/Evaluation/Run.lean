import CatScript.Evaluation.Store
import CatScript.Tree.Basic

/-! # Evaluation

A program is evaluated by walking its tree.  A block has a scope of its own; a function sees its
parameters and the global variables.  Evaluation is defined by recursion on the tree, and calls by
recursion on the number of calls that may still nest, so every evaluation ends.

The walk is the same whatever is kept track of besides the store, and so it is carried out in any
monad with the operations of an `Evaluator`.  Programs run in `Eval`, which keeps track of nothing
else. -/
set_option autoImplicit false
namespace CatScript

structure Definition where
  name : String
  params : List Parameter
  returns : Ty
  body : List (Stmt Info)

/-- What it takes to evaluate programs in a monad. -/
class Evaluator (m : Type → Type) where
  /-- Takes a step that changes nothing but the store. -/
  lift {α : Type} : Eval α → m α
  /-- Takes the step that evaluates an expression. -/
  seeing : Expr Info → m Value → m Value
  /-- Evaluates in a scope of its own. -/
  inScope {α : Type} : m α → m α
  /-- Carries out a call with `bound` and the outermost scope alone in sight. -/
  inCall {α : Type} (bound : Scope Value) : m α → m α

instance : Evaluator Eval where
  lift step := step
  seeing _ step := step
  inScope := Evaluation.inScope
  inCall := Evaluation.inCall

open Evaluator (lift seeing)

/-- How a call is carried out once its arguments are bound. -/
abbrev Invoke (m : Type → Type) := Definition → Scope Value → m Value

/-- Where the variable of a loop is declared: in the scope around the loop, which keeps it, or in a
scope of the loop's own. -/
inductive LoopRule where
  | around | own
deriving DecidableEq

def LoopRule.enclose {m : Type → Type} [Evaluator m] (rule : LoopRule) (loop : m Flow) : m Flow :=
  match rule with
  | around => loop
  | own => Evaluator.inScope loop

namespace Evaluation

/-- How many calls may nest. -/
def maxCallDepth : Nat := 256

def asInteger (operation : Operation) : Value → Eval Int64
  | .integer value => pure value
  | .null => throw (.nullOperand operation)
  | other => throw (.typeMismatch .integer other.sort)

def asBoolean (operation : Operation) : Value → Eval Bool
  | .boolean value => pure value
  | .null => throw (.nullOperand operation)
  | other => throw (.typeMismatch .boolean other.sort)

/-- The value as a variable of type `ty?` stores it: `int` and `bool` have no room for `null`. -/
def stored (ty? : Option Ty) (value : Value) : Eval Value :=
  match value, ty? with
  | .null, some ty => if ty.isPrimitive then throw .nullReference else pure .null
  | value, _ => pure value

def operationOf : BinaryOp → Operation
  | .add => .addition
  | .sub => .subtraction
  | .mul => .multiplication
  | .div => .division

/-- The value of an operator on integers; results wrap around, division rounds towards zero. -/
def arithmetic (op : BinaryOp) (left right : Value) : Eval Value := do
  let a ← asInteger (operationOf op) left
  let b ← asInteger (operationOf op) right
  match op with
  | .add => return .integer (a + b)
  | .sub => return .integer (a - b)
  | .mul => return .integer (a * b)
  | .div => if b = 0 then throw .divisionByZero else return .integer (a / b)

def related (op : ComparisonOp) (a b : Int64) : Bool :=
  match op with
  | .less => a < b
  | .lessEqual => a ≤ b
  | .greater => b < a
  | .greaterEqual => b ≤ a

variable {m : Type → Type} [Monad m] [Evaluator m]

section Trees
variable (functions : Scope Definition) (invoke : Invoke m)

mutual

def expression : Expr Info → m Value
  | .identifier info name => seeing (.identifier info name) (lift (load name))
  | .integer info value => seeing (.integer info value) (pure (.integer value))
  | .string info text => seeing (.string info text) (pure (.string text))
  | .boolean info value => seeing (.boolean info value) (pure (.boolean value))
  | .null info => seeing (.null info) (pure .null)
  | .list info items => seeing (.list info items) do
    return .list (← expressions items)
  | .parenthesized info inner => seeing (.parenthesized info inner) (expression inner)
  | .unary info op operand => seeing (.unary info op operand) do
    let value ← expression operand
    match op with
    | .negate => return .integer (-(← lift (asInteger .negation value)))
    | .not => return .boolean !(← lift (asBoolean .negation value))
  | .binary info op left right => seeing (.binary info op left right) do
    let a ← expression left
    let b ← expression right
    if op = .add ∧ info.ty = some .string then return .string (a.text ++ b.text)
    else lift (arithmetic op a b)
  | .comparison info op left right => seeing (.comparison info op left right) do
    let a ← lift (asInteger .comparison (← expression left))
    let b ← lift (asInteger .comparison (← expression right))
    return .boolean (related op a b)
  | .equality info op left right => seeing (.equality info op left right) do
    let a ← expression left
    let b ← expression right
    match op with
    | .equal => return .boolean (a.equal b)
    | .notEqual => return .boolean !a.equal b
  | .call info name args => seeing (.call info name args) <|
    match functions.find? name with
    | none => lift (throw (.undefinedFunction name))
    | some definition => do
      if definition.params.length ≠ args.length then
        lift (throw (.arityMismatch name definition.params.length args.length))
      invoke definition (← arguments definition.params args [])
  | .broken _ text => lift (throw (.brokenSyntax text))

def expressions : List (Expr Info) → m (List Value)
  | [] => pure []
  | e :: rest => do
    let value ← expression e
    return value :: (← expressions rest)

/-- Evaluates arguments in order and binds the parameters to them on top of `bound`. -/
def arguments : List Parameter → List (Expr Info) → (bound : Scope Value) → m (Scope Value)
  | param :: params, arg :: args, bound => do
    let value ← lift (stored (some param.ty) (← expression arg))
    arguments params args (bound.bind param.name value)
  | _, _, bound => pure bound

end

variable (rule : LoopRule)

mutual

def statement : Stmt Info → m Flow
  | .declaration info name _ value => do
    let value ← lift (stored info.ty (← expression functions invoke value))
    lift (declare name value)
    return .normal
  | .assignment info name value => do
    let value ← lift (stored info.ty (← expression functions invoke value))
    lift (assign name value)
    return .normal
  | .function .. => pure .normal
  | .ifThen _ condition thenBody => do
    if ← lift (asBoolean .condition (← expression functions invoke condition)) then
      Evaluator.inScope (statements thenBody)
    else return .normal
  | .ifThenElse _ condition thenBody elseBody => do
    if ← lift (asBoolean .condition (← expression functions invoke condition)) then
      Evaluator.inScope (statements thenBody)
    else Evaluator.inScope (statements elseBody)
  | .loop info name iterable body => do
    match ← expression functions invoke iterable with
    | .list items =>
      rule.enclose (eachItem (fun item => do
        lift (declare name (← lift (stored info.ty item)))
        Evaluator.inScope (statements body)) items)
    | other => lift (throw (.notIterable other.sort))
  | .print _ value => do
    lift (print (← expression functions invoke value))
    return .normal
  | .call _ value => do
    let _ ← expression functions invoke value
    return .normal
  | .returning _ none => pure (.returned .null)
  | .returning _ (some value) => do
    return .returned (← expression functions invoke value)
  | .broken _ text => lift (throw (.brokenSyntax text))
  | .bare value => do
    let _ ← expression functions invoke value
    return .normal

/-- Carries out statements in order until one of them returns. -/
def statements : List (Stmt Info) → m Flow
  | [] => pure .normal
  | s :: rest => do
    match ← statement s with
    | .normal => statements rest
    | .returned value => return .returned value

end
end Trees

def invokeWithin (rule : LoopRule) (functions : Scope Definition) : (room : Nat) → Invoke m
  | 0, _, _ => lift (throw (.callDepthExceeded maxCallDepth))
  | room + 1, definition, bound => do
    let body := statements functions (invokeWithin rule functions room) rule definition.body
    match ← Evaluator.inCall bound body with
    | .normal => return .null
    | .returned value => lift (stored (some definition.returns) value)

/-- The functions among the statements of a program; the first of a name counts. -/
def definitions (functions : Scope Definition) : List (Stmt Info) → Scope Definition
  | [] => functions
  | .function _ name params returns body :: rest =>
    match functions.find? name with
    | some _ => definitions functions rest
    | none => definitions (functions.bind name ⟨name, params, returns, body⟩) rest
  | _ :: rest => definitions functions rest

/-- Evaluates a program: an expression is evaluated and printed, statements are carried out. -/
def program (rule : LoopRule) : Program Info → m Unit
  | .expression _ body => do
    lift (print (← expression [] (invokeWithin rule [] maxCallDepth) body))
  | .statements _ body => do
    let functions := definitions [] body
    let _ ← statements functions (invokeWithin rule functions maxCallDepth) rule body

/-- Evaluates the program of an arena, if there is one.  The variable of a loop stays in the scope
around the loop. -/
def program? : Option (Program Info) → Eval Unit
  | none => throw .missingProgram
  | some p => program .around p

end Evaluation
end CatScript
