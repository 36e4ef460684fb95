import CatScript.Code.Instruction
import CatScript.Tree.Basic
import CatScript.Tree.Surroundings

/-! # Generating code

The variables declared directly in a program become fields of the program object; every other
variable gets a slot of its own.  Integers and truth values stay unboxed until they meet a place for
references.  Code is generated piece by piece: each expression and statement gives its own list of
instructions, and only the next free label and slot and the names of the slots are handed on. -/
set_option autoImplicit false
namespace CatScript

/-- Why a tree has no code. -/
inductive CompileError where
  | missingProgram
  | brokenSyntax (text : String)
  | untyped (node : Nat)
  | undefinedVariable (name : String)
  | undefinedFunction (name : String)
deriving DecidableEq

def CompileError.message : CompileError → String
  | .missingProgram => "Program has no root node"
  | .brokenSyntax text => "Cannot compile syntax error at '" ++ text ++ "'"
  | .untyped node => "Node " ++ toString node ++ " has no resolved type"
  | .undefinedVariable name => "Undefined variable '" ++ name ++ "'"
  | .undefinedFunction name => "Undefined function '" ++ name ++ "'"

/-- How generating code can end early: the tree has none, or it is put together wrongly. -/
inductive CompileStop where
  | error (error : CompileError)
  | fault (fault : Fault)
deriving DecidableEq

structure Local where
  slot : Slot
  ty : Ty
deriving DecidableEq

/-- What names stand for throughout a program: variables that are fields, and functions. -/
structure Globals where
  fields : Scope Ty
  functions : Scope (List Parameter × Ty)

abbrev Labels := StateT Label (Except CompileStop)

/-- What a statement hands on to the next: the next free label and slot, and the local variables. -/
structure Frame where
  label : Label
  slot : Slot
  locals : Scopes Local

abbrev Frames := StateT Frame (Except CompileStop)

namespace Generation

def failWith {α : Type} (error : CompileError) : Except CompileStop α :=
  .error (.error error)

def typeOf (info : Info) : Except CompileStop Ty :=
  match info.ty with
  | some ty => .ok ty
  | none => failWith (.untyped info.id)

def freshLabel : Labels Label :=
  modifyGet fun label => (label, label + 1)

/-- The code that makes a value of one type, on top of the stack, a value of another: integers are
boxed, references are checked and unboxed as the types ask for. -/
def coerce (source target : Ty) : List Instruction :=
  match Primitive.of? source, Primitive.of? target with
  | some boxed, none => [.box boxed]
  | none, some unboxed => [.checkCast target, .unbox unboxed]
  | none, none => if target.accepts source then [] else [.checkCast target]
  | some _, some _ => []

def load (home : Local) : Instruction :=
  if home.ty.isPrimitive then .loadInt home.slot else .loadRef home.slot

def store (home : Local) : Instruction :=
  if home.ty.isPrimitive then .storeInt home.slot else .storeRef home.slot

/-- Stores into a field, whose object is below the value on the stack. -/
def putField (name : String) (ty : Ty) : Instruction :=
  .putField name (.of ty)

def negation : List Instruction :=
  [.pushInt 1, .xor]

/-- Leaves one for the two integers on top of the stack if they are so related, and zero if not. -/
def relation (condition : Condition) : Labels (List Instruction) := do
  let yes ← freshLabel
  let done ← freshLabel
  return [.jumpIf condition yes, .pushInt 0, .jump done, .label yes, .pushInt 1, .label done]

def ordering : ComparisonOp → Condition
  | .less => .less
  | .lessEqual => .lessEqual
  | .greater => .greater
  | .greaterEqual => .greaterEqual

def sameness : EqualityOp → Condition
  | .equal => .equal
  | .notEqual => .notEqual

def arithmetic : BinaryOp → Instruction
  | .add => .add
  | .sub => .sub
  | .mul => .mul
  | .div => .div

section Expressions
variable (globals : Globals) (locals : Scopes Local)

mutual

/-- The code that leaves the value of an expression on the stack, kept as its type asks for. -/
def expression : Expr Info → Labels (List Instruction)
  | .identifier _ name =>
    match locals.find? name, globals.fields.find? name with
    | some home, _ => pure [load home]
    | none, some ty => pure [.loadRef 0, .getField name (.of ty)]
    | none, none => failWith (.undefinedVariable name)
  | .integer _ value => pure [.pushInt value]
  | .string _ text => pure [.pushString text]
  | .boolean _ value => pure [.pushInt (if value then 1 else 0)]
  | .null _ => pure [.pushNull]
  | .list _ items => do return .newList :: (← listItems items)
  | .parenthesized _ inner => expression inner
  | .unary _ op operand => do
    let code ← expression operand
    match op with
    | .negate => return code ++ [.neg]
    | .not => return code ++ negation
  | .binary info op left right => do
    let joins ← if op = .add then do pure ((← typeOf info) == .string) else pure false
    let a ← expression left
    let a ← if joins then do pure (a ++ coerce (← typeOf left.mark) .object) else pure a
    let b ← expression right
    let b ← if joins then do pure (b ++ coerce (← typeOf right.mark) .object) else pure b
    if joins then
      return a ++ .invoke .stringValueOf :: b ++ [.invoke .stringValueOf, .invoke .stringConcat]
    else return a ++ b ++ [arithmetic op]
  | .comparison _ op left right => do
    let a ← expression left
    let b ← expression right
    return a ++ b ++ (← relation (ordering op))
  | .equality _ op left right => do
    let ty ← typeOf left.mark
    let direct ← if ty.isPrimitive then do pure (ty == (← typeOf right.mark)) else pure false
    let a ← expression left
    let b ← expression right
    if direct then return a ++ b ++ (← relation (sameness op))
    else
      let same := a ++ coerce ty .object ++ b ++ coerce (← typeOf right.mark) .object ++
        [.invoke .objectsEquals]
      return if op = .notEqual then same ++ negation else same
  | .call _ name args =>
    match globals.functions.find? name with
    | none => failWith (.undefinedFunction name)
    | some (params, returns) => do
      let code ← arguments args params
      return .loadRef 0 :: code ++ [.call name args.length (returns != .void)]
  | .broken _ text => failWith (.brokenSyntax text)

/-- The code that adds the values of expressions to the list on top of the stack. -/
def listItems : List (Expr Info) → Labels (List Instruction)
  | [] => pure []
  | item :: rest => do
    let code ← expression item
    let boxing := coerce (← typeOf item.mark) .object
    let more ← listItems rest
    return .dup :: code ++ boxing ++ [.invoke .listAdd, .pop] ++ more

/-- The code that leaves arguments on the stack, kept as the parameters ask for; arguments without a
parameter have none. -/
def arguments : List (Expr Info) → List Parameter → Labels (List Instruction)
  | arg :: args, param :: params => do
    let code ← expression arg
    let coercion := coerce (← typeOf arg.mark) param.ty
    let more ← arguments args params
    return code ++ coercion ++ more
  | _, _ => pure []

end

/-- The code that leaves the value of an expression on the stack, kept as `target` asks for. -/
def value (target : Ty) (e : Expr Info) : Labels (List Instruction) := do
  let code ← expression globals locals e
  return code ++ coerce (← typeOf e.mark) target

end Expressions

def withLocals {α : Type} (generate : Scopes Local → Labels α) : Frames α := fun frame => do
  let (result, label) ← (generate frame.locals).run frame.label
  return (result, { frame with label })

def freshSlot : Frames Slot :=
  modifyGet fun frame => (frame.slot, { frame with slot := frame.slot + 1 })

def declareLocal (name : String) (ty : Ty) : Frames Local := do
  let home : Local := ⟨← freshSlot, ty⟩
  modify fun frame => { frame with locals := frame.locals.declare name home }
  return home

def inScope {α : Type} (generate : Frames α) : Frames α := do
  modify fun frame => { frame with locals := frame.locals.push }
  let result ← generate
  modify fun frame => { frame with locals := frame.locals.pop }
  return result

/-- The return type of the function around a statement; there is none for the main routine. -/
def returnType (around : Surroundings) : Except CompileStop Ty :=
  match around.returnType with
  | .ok ty? => .ok (ty?.getD .void)
  | .error fault => .error (.fault fault)

/-- The loop over an iterator in `slot`, whose items `body` works on. -/
def iteration (slot : Slot) (start done : Label) (body : List Instruction) : List Instruction :=
  [.label start, .loadRef slot, .invoke .iteratorHasNext, .jumpIfZero done, .loadRef slot,
    .invoke .iteratorNext] ++ body ++ [.jump start, .label done]

section Statements
variable (globals : Globals)

mutual

def statement (around : Surroundings) : Stmt Info → Frames (List Instruction)
  | .declaration info name _ e => do
    let ty ← typeOf info
    let code ← withLocals fun locals => value globals locals ty e
    if around.topLevel then return .loadRef 0 :: code ++ [putField name ty]
    else return code ++ [store (← declareLocal name ty)]
  | .assignment _ name e => do
    match (← get).locals.find? name, globals.fields.find? name with
    | some home, _ =>
      let code ← withLocals fun locals => value globals locals home.ty e
      return code ++ [store home]
    | none, some ty =>
      let code ← withLocals fun locals => value globals locals ty e
      return .loadRef 0 :: code ++ [putField name ty]
    | none, none => failWith (.undefinedVariable name)
  | .function .. => pure []
  | .ifThen _ condition thenBody => do
    let otherwise ← withLocals fun _ => freshLabel
    let done ← withLocals fun _ => freshLabel
    let test ← withLocals fun locals => expression globals locals condition
    let thenCode ← inScope (statements around.inside thenBody)
    return test ++ .jumpIfZero otherwise :: thenCode ++
      [.jump done, .label otherwise, .label done]
  | .ifThenElse _ condition thenBody elseBody => do
    let otherwise ← withLocals fun _ => freshLabel
    let done ← withLocals fun _ => freshLabel
    let test ← withLocals fun locals => expression globals locals condition
    let thenCode ← inScope (statements around.inside thenBody)
    let elseCode ← inScope (statements around.inside elseBody)
    return test ++ .jumpIfZero otherwise :: thenCode ++
      [.jump done, .label otherwise] ++ elseCode ++ [.label done]
  | .loop info name iterable body => do
    let ty ← typeOf info
    let start ← withLocals fun _ => freshLabel
    let done ← withLocals fun _ => freshLabel
    let items ← withLocals fun locals => expression globals locals iterable
    let iterator ← freshSlot
    let bodyCode ← inScope do
      let home ← declareLocal name ty
      let code ← inScope (statements around.inside body)
      pure (coerce .object ty ++ store home :: code)
    return items ++ [.invoke .listIterator, .storeRef iterator] ++
      iteration iterator start done bodyCode
  | .print _ e => do
    let code ← withLocals fun locals => value globals locals .object e
    return .loadRef 0 :: code ++ [.invoke .print]
  | .call _ e => do
    let code ← withLocals fun locals => expression globals locals e
    return if (← typeOf e.mark) = .void then code else code ++ [.pop]
  | .returning _ none => do
    let _ ← returnType around
    return [.returnVoid]
  | .returning _ (some e) => do
    let ty ← returnType around
    let code ← withLocals fun locals => value globals locals ty e
    return code ++ [if ty.isPrimitive then .returnInt else .returnRef]
  | .broken _ text => failWith (.brokenSyntax text)
  | .bare e => withLocals fun locals => expression globals locals e

def statements (around : Surroundings) : List (Stmt Info) → Frames (List Instruction)
  | [] => pure []
  | s :: rest => do
    let code ← statement around s
    return code ++ (← statements around rest)

end
end Statements

/-- The frame at the start of a routine: slot 0 holds the program object. -/
def Frame.initial : Frame := ⟨0, 1, .empty⟩

def declareParameters : List Parameter → Frames Unit
  | [] => pure ()
  | param :: rest => do
    let _ ← declareLocal param.name param.ty
    declareParameters rest

def routine (globals : Globals) (params : List Parameter) (returns : Ty) (body : List (Stmt Info)) :
    Except CompileStop Routine := do
  let generate : Frames (List Instruction) := do
    declareParameters params
    inScope (statements globals (.ofFunction returns) body)
  let (code, frame) ← generate.run Frame.initial
  let code := if returns = .void then code ++ [.returnVoid] else code
  return ⟨params.map Parameter.ty, returns, code, frame.slot⟩

def fields : List (Stmt Info) → Except CompileStop (List (String × Ty))
  | [] => pure []
  | .declaration info name _ _ :: rest => do
    let ty ← typeOf info
    return (name, ty) :: (← fields rest)
  | _ :: rest => fields rest

/-- The functions of a program by name; the last of a name counts. -/
def functions (found : Scope (List Parameter × Ty)) : List (Stmt Info) →
    Scope (List Parameter × Ty)
  | [] => found
  | .function _ name params returns _ :: rest => functions (found.bind name (params, returns)) rest
  | _ :: rest => functions found rest

def routines (globals : Globals) (found : Scope Routine) : List (Stmt Info) →
    Except CompileStop (Scope Routine)
  | [] => pure found
  | .function _ name params returns body :: rest => do
    let code ← routine globals params returns body
    routines globals (found.bind name code) rest
  | _ :: rest => routines globals found rest

def mainRoutine (code : List Instruction) (slots : Nat) : Routine :=
  ⟨[], .void, code ++ [.returnVoid], slots⟩

def program (returnType : Except Fault (Option Ty)) : Program Info → Except CompileStop Executable
  | .expression _ body => do
    let (code, _) ← (expression ⟨[], []⟩ .empty body).run 0
    let ty ← typeOf body.mark
    let boxing := if ty = .void then [.pushNull] else coerce ty .object
    return ⟨[], [], mainRoutine (.loadRef 0 :: code ++ boxing ++ [.invoke .print]) 1⟩
  | .statements _ body => do
    let declared ← fields body
    let globals : Globals :=
      { fields := declared.foldl (fun scope field => scope.bind field.1 field.2) []
        functions := functions [] body }
    let compiled ← routines globals [] body
    let (code, frame) ← (statements globals (.ofProgram returnType) body).run Frame.initial
    return {
      fields := declared.map fun field => ⟨field.1, .of field.2⟩
      routines := compiled
      main := mainRoutine code frame.slot }

end Generation
end CatScript
