import CatScript.Tree.Basic
import CatScript.Tree.Surroundings
import CatScript.Typing.Symbols

/-! # Typing

Typing gives every node of a tree its type and reports what does not fit.  It never stops early: a
name without a meaning counts as an `object`, and what is no expression has no type and is not
compared with anything.  The only fault is a node that has a type already. -/
set_option autoImplicit false
namespace CatScript

namespace Info

def flag (problem : Problem) (info : Info) : Info :=
  { info with errors := info.errors ++ [⟨problem, info.span⟩] }

def flagIf (wrong : Bool) (problem : Problem) (info : Info) : Info :=
  if wrong then info.flag problem else info

def settle (ty : Ty) (info : Info) : Except Fault Info :=
  if info.ty.isSome then .error (.typeSetTwice info.id) else .ok { info with ty := some ty }

end Info

namespace Typing

/-- An expression after typing, with the type of its value; what is no expression has none. -/
structure Typed where
  ty : Option Ty
  expr : Expr Info

namespace Typed

def flagIf (wrong : Bool) (problem : Problem) (typed : Typed) : Typed :=
  { typed with expr := typed.expr.adjust (·.flagIf wrong problem) }

def expect (ty : Ty) (typed : Typed) : Typed :=
  typed.flagIf (typed.ty.any (· != ty)) .incompatibleTypes

/-- Requires a value that may be stored where `target` is expected. -/
def fit (target : Ty) (typed : Typed) : Typed :=
  typed.flagIf (typed.ty.any fun ty => !target.accepts ty) .incompatibleTypes

/-- Requires a value: a call that returns nothing has none. -/
def asValue (typed : Typed) : Typed :=
  typed.flagIf (typed.ty == some .void) .incompatibleTypes

end Typed

def settled (ty : Ty) (info : Info) (build : Info → Expr Info) : Except Fault Typed := do
  return ⟨some ty, build (← info.settle ty)⟩

/-- The type of the elements of a list literal: one that covers all of them. -/
def component (items : List Typed) : Ty :=
  match items.filterMap Typed.ty with
  | [] => .object
  | first :: rest => rest.foldl Ty.join first

/-- Requires each argument to fit its parameter; those left over are not looked at. -/
def fitAll : List Typed → List Ty → List (Expr Info)
  | arg :: args, param :: params => (arg.fit param).expr :: fitAll args params
  | args, _ => args.map Typed.expr

def operandType : UnaryOp → Ty
  | .negate => .int
  | .not => .boolean

mutual

def expression (symbols : Symbols) : Expr Info → Except Fault Typed
  | .broken info text => pure ⟨none, .broken info text⟩
  | .identifier info name =>
    match symbols.typeOf? name with
    | some ty => settled ty info (.identifier · name)
    | none => settled .object (info.flag .unknownName) (.identifier · name)
  | .integer info value => settled .int info (.integer · value)
  | .string info text => settled .string info (.string · text)
  | .boolean info value => settled .boolean info (.boolean · value)
  | .null info => settled .null info .null
  | .list info items => do
    let items := (← expressions symbols items).map Typed.asValue
    settled (.list (component items)) info (.list · (items.map Typed.expr))
  | .parenthesized info inner => do
    let inner ← expression symbols inner
    settled (inner.ty.getD .object) info (.parenthesized · inner.expr)
  | .unary info op operand => do
    let operand ← expression symbols operand
    settled (operandType op) info (.unary · op (operand.expect (operandType op)).expr)
  | .binary info op left right => do
    let left ← expression symbols left
    let right ← expression symbols right
    if op = .add ∧ (left.ty = some .string ∨ right.ty = some .string) then
      settled .string info (.binary · op left.asValue.expr right.asValue.expr)
    else
      settled .int info (.binary · op (left.expect .int).expr (right.expect .int).expr)
  | .comparison info op left right => do
    let left ← expression symbols left
    let right ← expression symbols right
    settled .boolean info (.comparison · op (left.expect .int).expr (right.expect .int).expr)
  | .equality info op left right => do
    let left ← expression symbols left
    let right ← expression symbols right
    settled .boolean info (.equality · op left.asValue.expr right.asValue.expr)
  | .call info name args => do
    let args ← expressions symbols args
    match symbols.function? name with
    | none =>
      settled .object (info.flag .unknownName) (.call · name (args.map Typed.expr))
    | some signature =>
      let info := info.flagIf (signature.params.length != args.length) .argMismatch
      settled signature.returns info (.call · name (fitAll args signature.params))

def expressions (symbols : Symbols) : List (Expr Info) → Except Fault (List Typed)
  | [] => pure []
  | e :: rest => do
    let first ← expression symbols e
    return first :: (← expressions symbols rest)

end

mutual

/-- Whether a statement ends in a `return` on every path. -/
def returns : Stmt Info → Bool
  | .returning _ _ => true
  | .ifThenElse _ _ thenBody elseBody => alwaysReturns thenBody && alwaysReturns elseBody
  | _ => false

def alwaysReturns : List (Stmt Info) → Bool
  | [] => false
  | s :: rest => returns s || alwaysReturns rest

end

def declaredType (ty? value : Option Ty) : Ty :=
  match ty?, value with
  | some declared, _ => declared
  | none, none | none, some .null | none, some .void => .object
  | none, some inferred => inferred

/-- Binds the parameters of a function, each name once, and counts the names given again. -/
def bindParameters (symbols : Symbols) : List Parameter → Symbols × Nat
  | [] => (symbols, 0)
  | param :: rest =>
    if symbols.declaredHere param.name then
      let (symbols, again) := bindParameters symbols rest
      (symbols, again + 1)
    else bindParameters (symbols.declare param.name param.ty) rest

def flagTimes (problem : Problem) : Nat → Info → Info
  | 0, info => info
  | times + 1, info => flagTimes problem times (info.flag problem)

def returning (expected : Option Ty) (info : Info) (value : Option Typed) : Info × Option Typed :=
  match expected, value with
  | none, value => (info, value)
  | some .void, some value => (info.flag .incompatibleTypes, some value)
  | some expected, some value => (info, some (value.fit expected))
  | some expected, none => (info.flagIf (expected != .void) .incompatibleTypes, none)

mutual

def statement (around : Surroundings) (symbols : Symbols) :
    Stmt Info → Except Fault (Symbols × Stmt Info)
  | .declaration info name ty? value => do
    let value := (← expression symbols value).asValue
    let misfit := ty?.any fun ty => value.ty.any fun given => !ty.accepts given
    let ty := declaredType ty? value.ty
    let again := symbols.declaredHere name
    let info := (info.flagIf misfit .incompatibleTypes).flagIf again .duplicateName
    let symbols := if again then symbols else symbols.declare name ty
    return (symbols, .declaration (← info.settle ty) name ty? value.expr)
  | .assignment info name value => do
    let value ← expression symbols value
    match symbols.typeOf? name with
    | some ty =>
      return (symbols, .assignment (← info.settle ty) name (value.fit ty).expr)
    | none =>
      let info := info.flag .unknownName
      return (symbols, .assignment (← info.settle .object) name value.expr)
  | .function info name params returnType body => do
    let info := info.flagIf (!around.topLevel) .nestedFunction
    let (inner, again) := bindParameters symbols.enter params
    let info := flagTimes .duplicateName again info
    let missing := returnType != .void && !alwaysReturns body
    let (_, body) ← statements (.ofFunction returnType) inner body
    let info := info.flagIf missing .missingReturnStatement
    return (symbols, .function (← info.settle returnType) name params returnType body)
  | .ifThen info condition thenBody => do
    let condition := (← expression symbols condition).expect .boolean
    let (_, thenBody) ← statements around.inside symbols.enter thenBody
    return (symbols, .ifThen (← info.settle .void) condition.expr thenBody)
  | .ifThenElse info condition thenBody elseBody => do
    let condition := (← expression symbols condition).expect .boolean
    let (_, thenBody) ← statements around.inside symbols.enter thenBody
    let (_, elseBody) ← statements around.inside symbols.enter elseBody
    return (symbols, .ifThenElse (← info.settle .void) condition.expr thenBody elseBody)
  | .loop info name iterable body => do
    let iterable ← expression symbols iterable
    let component? := iterable.ty.bind Ty.component?
    let ty := component?.getD .object
    let info := info.flagIf (symbols.typeOf? name).isSome .duplicateName
    let info :=
      if iterable.ty.isSome && component?.isNone then
        { info with errors := info.errors ++ [⟨.incompatibleTypes, info.span.startPoint⟩] }
      else info
    let (_, body) ← statements around.inside (symbols.enter.declare name ty) body
    return (symbols, .loop (← info.settle ty) name iterable.expr body)
  | .print info value => do
    let value := (← expression symbols value).asValue
    return (symbols, .print (← info.settle .void) value.expr)
  | .call info value => do
    let value ← expression symbols value
    return (symbols, .call (← info.settle .void) value.expr)
  | .returning info none => do
    let (info, _) := returning (← around.returnType) info none
    return (symbols, .returning (← info.settle .void) none)
  | .returning info (some value) => do
    let value ← expression symbols value
    let (info, value) := returning (← around.returnType) info (some value)
    return (symbols, .returning (← info.settle .void) (value.map Typed.expr))
  | .broken info text => do
    return (symbols, .broken (← info.settle .void) text)
  | .bare value => pure (symbols, .bare value)

def statements (around : Surroundings) (symbols : Symbols) :
    List (Stmt Info) → Except Fault (Symbols × List (Stmt Info))
  | [] => pure (symbols, [])
  | s :: rest => do
    let (symbols, first) ← statement around symbols s
    let (symbols, rest) ← statements around symbols rest
    return (symbols, first :: rest)

end

/-- Adds the functions among the statements of a program, so that they can be called before they
are defined. -/
def register (symbols : Symbols) : List (Stmt Info) → Symbols × List (Stmt Info)
  | [] => (symbols, [])
  | .function info name params returnType body :: rest =>
    let (added, symbols) := symbols.register name ⟨params.map Parameter.ty, returnType⟩
    let (symbols, rest) := register symbols rest
    (symbols, .function (info.flagIf (!added) .duplicateName) name params returnType body :: rest)
  | s :: rest =>
    let (symbols, rest) := register symbols rest
    (symbols, s :: rest)

/-- Types a program.  `returnType` is the return type of a function around the whole program. -/
def program (returnType : Except Fault (Option Ty)) : Program Info → Except Fault (Program Info)
  | .expression info body => do
    let body ← expression .empty body
    return .expression (← info.settle .void) body.expr
  | .statements info body => do
    let (symbols, body) := register .empty body
    let (_, body) ← statements (.ofProgram returnType) symbols body
    return .statements (← info.settle .void) body

end Typing
end CatScript
