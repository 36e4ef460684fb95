import CatScript.Arena.Validate

/-! # Typing in place

The checker as it goes over the nodes of an arena: all its functions share one arena, into which
they write the type and the problems of each node when they know them, and one table of symbols,
whose scopes `enter` opens and `leave` closes.  They go from node to node by place, and never look
at a tree.  A place without a node, a second type for a node and a scope too many that is closed are
faults.  As in the parser, a function is given how many calls may be open at once, and has no result
if it needs more. -/
set_option autoImplicit false
namespace CatScript
open Typing (operandType declaredType)

/-- What the functions of the checker share. -/
structure Checker where
  arena : Arena
  symbols : Symbols

/-- A step of the checker.  There is no result where more calls are needed than are allowed. -/
abbrev Checking := StateT Checker (ExceptT Fault Option)

namespace Checking
variable {β : Type}

def stop : Checking β := fun _ => none

def ask (question : Arena → Except Fault β) : Checking β := fun checker =>
  some ((question checker.arena).map fun b => (b, checker))

def write (work : Arena → Except Fault Arena) : Checking Unit := fun checker =>
  some ((work checker.arena).map fun arena => ((), { checker with arena }))

def rename (work : Symbols → Except Fault Symbols) : Checking Unit := fun checker =>
  some ((work checker.symbols).map fun symbols => ((), { checker with symbols }))

section Nodes

def kindAt (id : NodeId) : Checking NodeKind :=
  ask fun arena => do return (← arena.node id).kind

def parentAt (id : NodeId) : Checking (Option NodeId) :=
  ask fun arena => do return (← arena.node id).parent

def reportAt (at? : Span → Span) (id : NodeId) (problem : Problem) : Checking Unit :=
  write fun arena => do
    let node ← arena.node id
    arena.report id ⟨problem, at? node.span⟩

def reportAtIf (wrong : Bool) (at? : Span → Span) (id : NodeId) (problem : Problem) :
    Checking Unit :=
  if wrong then reportAt at? id problem else return ()

def report (id : NodeId) (problem : Problem) : Checking Unit :=
  reportAt (fun span => span) id problem

def reportIf (wrong : Bool) (id : NodeId) (problem : Problem) : Checking Unit :=
  reportAtIf wrong (fun span => span) id problem

def settle (id : NodeId) (ty : Ty) : Checking Unit :=
  write fun arena => arena.setTy id ty

def typed (id : NodeId) (ty : Ty) : Checking (Option Ty) := do
  settle id ty
  return some ty

def expect (ty : Ty) (id : NodeId) (given? : Option Ty) : Checking Unit :=
  reportIf (given?.any (· != ty)) id .incompatibleTypes

def fit (target : Ty) (id : NodeId) (given? : Option Ty) : Checking Unit :=
  reportIf (given?.any fun ty => !target.accepts ty) id .incompatibleTypes

/-- Requires a value: a call that returns nothing has none. -/
def asValue (id : NodeId) (given? : Option Ty) : Checking Unit :=
  reportIf (given? == some .void) id .incompatibleTypes

def functionFrom : Option NodeId → (calls : Nat) → Checking (Option NodeId)
  | _, 0 => stop
  | none, _ + 1 => return none
  | some id, calls + 1 => do
    match ← kindAt id with
    | .function .. => return some id
    | _ => functionFrom (← parentAt id) calls

def returnTypeAround (id : NodeId) (calls : Nat) : Checking (Option Ty) := do
  match ← functionFrom (← parentAt id) calls with
  | none => return none
  | some function =>
    match ← kindAt function with
    | .function _ _ returns _ => return some returns
    | _ => return none

end Nodes

section Names

def symbols : Checking Symbols := do
  return (← get).symbols

def enter : Checking Unit :=
  rename fun symbols => .ok symbols.enter

def leave : Checking Unit :=
  rename Symbols.leave

def declare (name : String) (ty : Ty) : Checking Unit :=
  rename fun symbols => .ok (symbols.declare name ty)

/-- Adds a function unless there is one of the name, and tells whether it was added. -/
def register (name : String) (signature : Signature) : Checking Bool := fun checker =>
  let (added, symbols) := checker.symbols.register name signature
  some (.ok (added, { checker with symbols }))

def bindParameters (id : NodeId) : List Parameter → Checking Unit
  | [] => return ()
  | param :: rest => do
    if (← symbols).declaredHere param.name then report id .duplicateName
    else declare param.name param.ty
    bindParameters id rest

end Names

section Expressions

def joined (component? : Option Ty) (ty : Ty) : Ty :=
  match component? with
  | some component => component.join ty
  | none => ty

/-- Requires each argument to fit its parameter; those left over are not looked at. -/
def fitAll : List NodeId → List (Option Ty) → List Ty → Checking Unit
  | arg :: args, given? :: types, param :: params => do
    fit param arg given?
    fitAll args types params
  | _, _, _ => return ()

mutual

/-- Types the expression at a place.  Where no expression stands nothing is done. -/
def expression : NodeId → (calls : Nat) → Checking (Option Ty)
  | _, 0 => stop
  | id, calls + 1 => do
    match ← kindAt id with
    | .identifier name =>
      match (← symbols).typeOf? name with
      | some ty => typed id ty
      | none =>
        report id .unknownName
        typed id .object
    | .integer _ => typed id .int
    | .string _ => typed id .string
    | .boolean _ => typed id .boolean
    | .null => typed id .null
    | .list ids =>
      let component? ← items none ids calls
      typed id (.list (component?.getD .object))
    | .parenthesized inner =>
      let given? ← expression inner calls
      typed id (given?.getD .object)
    | .unary op operand =>
      let given? ← expression operand calls
      expect (operandType op) operand given?
      typed id (operandType op)
    | .binary op left right =>
      let left? ← expression left calls
      let right? ← expression right calls
      if op = .add ∧ (left? = some .string ∨ right? = some .string) then
        asValue left left?
        asValue right right?
        typed id .string
      else
        expect .int left left?
        expect .int right right?
        typed id .int
    | .comparison _ left right =>
      let left? ← expression left calls
      let right? ← expression right calls
      expect .int left left?
      expect .int right right?
      typed id .boolean
    | .equality _ left right =>
      let left? ← expression left calls
      let right? ← expression right calls
      asValue left left?
      asValue right right?
      typed id .boolean
    | .call name args =>
      let types ← arguments args calls
      match (← symbols).function? name with
      | none =>
        report id .unknownName
        typed id .object
      | some signature =>
        reportIf (signature.params.length != args.length) id .argMismatch
        fitAll args types signature.params
        typed id signature.returns
    | _ => return none

def items : Option Ty → List NodeId → (calls : Nat) → Checking (Option Ty)
  | _, _, 0 => stop
  | component?, [], _ + 1 => return component?
  | component?, item :: rest, calls + 1 => do
    match ← expression item calls with
    | none => items component? rest calls
    | some ty =>
      asValue item (some ty)
      items (some (joined component? ty)) rest calls

def arguments : List NodeId → (calls : Nat) → Checking (List (Option Ty))
  | _, 0 => stop
  | [], _ + 1 => return []
  | arg :: rest, calls + 1 => do
    let first ← expression arg calls
    return first :: (← arguments rest calls)

end

end Expressions

section Statements

mutual

def returns : NodeId → (calls : Nat) → Checking Bool
  | _, 0 => stop
  | id, calls + 1 => do
    match ← kindAt id with
    | .returning _ => return true
    | .ifThenElse _ thenBody elseBody =>
      if ← alwaysReturns thenBody calls then alwaysReturns elseBody calls else return false
    | _ => return false

def alwaysReturns : List NodeId → (calls : Nat) → Checking Bool
  | _, 0 => stop
  | [], _ + 1 => return false
  | id :: rest, calls + 1 => do
    if ← returns id calls then return true else alwaysReturns rest calls

end

/-- Whether a function has to return a value and need not come to a `return`. -/
def lacksReturn (returnType : Ty) (body : List NodeId) (calls : Nat) : Checking Bool := do
  if returnType = .void then return false else return !(← alwaysReturns body calls)

def declaration (id : NodeId) (name : String) (ty? given? : Option Ty) : Checking Ty := do
  let misfit := ty?.any fun ty => given?.any fun given => !ty.accepts given
  reportIf misfit id .incompatibleTypes
  let ty := declaredType ty? given?
  if (← symbols).declaredHere name then report id .duplicateName else declare name ty
  return ty

def returning (id : NodeId) : (expected? : Option Ty) → (value : Option NodeId) →
    (given? : Option Ty) → Checking Unit
  | none, _, _ => return ()
  | some .void, some _, _ => report id .incompatibleTypes
  | some expected, some value, given? => fit expected value given?
  | some expected, none, _ => reportIf (expected != .void) id .incompatibleTypes

mutual

/-- Types the statement at a place.  Where no statement stands nothing is done. -/
def statement : NodeId → (calls : Nat) → Checking Unit
  | _, 0 => stop
  | id, calls + 1 => do
    match ← kindAt id with
    | .declaration name ty? value =>
      let given? ← expression value calls
      asValue value given?
      let ty ← declaration id name ty? given?
      settle id ty
    | .assignment name value =>
      let given? ← expression value calls
      match (← symbols).typeOf? name with
      | some ty =>
        fit ty value given?
        settle id ty
      | none =>
        report id .unknownName
        settle id .object
    | .function _ params returnType body =>
      let topLevel ← ask fun arena => arena.isTopLevel id
      reportIf (!topLevel) id .nestedFunction
      enter
      bindParameters id params
      statements body calls
      leave
      let missing ← lacksReturn returnType body calls
      reportIf missing id .missingReturnStatement
      settle id returnType
    | .ifThen condition thenBody =>
      let given? ← expression condition calls
      expect .boolean condition given?
      block thenBody calls
      settle id .void
    | .ifThenElse condition thenBody elseBody =>
      let given? ← expression condition calls
      expect .boolean condition given?
      block thenBody calls
      block elseBody calls
      settle id .void
    | .loop name iterable body =>
      let given? ← expression iterable calls
      let component? := given?.bind Ty.component?
      enter
      reportIf ((← symbols).typeOf? name).isSome id .duplicateName
      reportAtIf (given?.isSome && component?.isNone) Span.startPoint id .incompatibleTypes
      declare name (component?.getD .object)
      statements body calls
      leave
      settle id (component?.getD .object)
    | .print value =>
      let given? ← expression value calls
      asValue value given?
      settle id .void
    | .callStatement value =>
      let _ ← expression value calls
      settle id .void
    | .returning value =>
      let given? ← match value with
        | some value => expression value calls
        | none => pure none
      let expected? ← returnTypeAround id calls
      returning id expected? value given?
      settle id .void
    | .brokenStatement _ => settle id .void
    | _ => return ()

def block : List NodeId → (calls : Nat) → Checking Unit
  | _, 0 => stop
  | ids, calls + 1 => do
    enter
    statements ids calls
    leave

def statements : List NodeId → (calls : Nat) → Checking Unit
  | _, 0 => stop
  | [], _ + 1 => return ()
  | id :: rest, calls + 1 => do
    statement id calls
    statements rest calls

end

end Statements

section Programs

/-- Adds the functions among the statements of a program, so that they can be called before they
are defined. -/
def registerAll : List NodeId → Checking Unit
  | [] => return ()
  | id :: rest => do
    match ← kindAt id with
    | .function name params returns _ =>
      let added ← register name ⟨params.map Parameter.ty, returns⟩
      reportIf (!added) id .duplicateName
    | _ => pure ()
    registerAll rest

def program (calls : Nat) : Checking Unit := do
  match (← get).arena.root with
  | none => return ()
  | some root =>
    match ← kindAt root with
    | .expressionProgram body =>
      let _ ← expression body calls
      settle root .void
    | .statementProgram body =>
      registerAll body
      statements body calls
      settle root .void
    | _ => return ()

end Programs
end Checking
end CatScript
