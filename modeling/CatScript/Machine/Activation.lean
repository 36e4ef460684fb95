import CatScript.Machine.Heap
import CatScript.Machine.Link

/-! # Activations

A routine at work has code that is left, a stack and local slots of its own; the fields, the heap
and the printed text belong to all routines together.  An instruction changes them and leads on to
the next one, to a call, or to the end of the routine. -/
set_option autoImplicit false
namespace CatScript

/-- What routines share: the fields of the program object, the heap and the printed text. -/
structure Shared where
  fields : Scope Operand
  heap : Heap
  output : String

abbrev Act := EStateM MachineError Shared

/-- A routine at work: the code that is left, the stack with its top first, and the local slots. -/
structure Activation where
  routine : LinkedRoutine
  code : List Instruction
  stack : List Operand
  locals : Array Operand

/-- What follows an instruction: the next one, a call whose result the caller waits for or drops, or
the end of the routine with or without a result. -/
inductive Progress where
  | next (activation : Activation)
  | call (name : String) (arguments : List Operand) (returns : Bool) (caller : Activation)
  | done (result : Option Operand)

namespace Activation

def asInt : Operand → Act Int64
  | .int value => pure value
  | .ref object => throw (.notInteger object.sort)

def asRef : Operand → Act Object
  | .ref object => pure object
  | .int _ => throw .notReference

def pop : List Operand → Act (Operand × List Operand)
  | [] => throw .stackUnderflow
  | operand :: rest => pure (operand, rest)

def popInt (stack : List Operand) : Act (Int64 × List Operand) := do
  let (operand, rest) ← pop stack
  return (← asInt operand, rest)

def popRef (stack : List Operand) : Act (Object × List Operand) := do
  let (operand, rest) ← pop stack
  return (← asRef operand, rest)

def expectProgram : Object → Act Unit
  | .program => pure ()
  | .null => throw .nullReference
  | other => throw (.classCast "program" other.sort)

def expectList : Object → Act Nat
  | .list place => pure place
  | .null => throw .nullReference
  | other => throw (.classCast "List" other.sort)

def expectIterator : Object → Act Nat
  | .iterator place => pure place
  | .null => throw .nullReference
  | other => throw (.classCast "Iterator" other.sort)

def expectKept (descriptor : Descriptor) (operand : Operand) : Act Operand :=
  match descriptor with
  | .int => do return .int (← asInt operand)
  | .reference => do return .ref (← asRef operand)

def flag (value : Bool) : Operand :=
  .int (if value then 1 else 0)

def holds (condition : Condition) (left right : Int64) : Bool :=
  match condition with
  | .equal => left == right
  | .notEqual => left != right
  | .less => left < right
  | .lessEqual => left ≤ right
  | .greater => right < left
  | .greaterEqual => right ≤ left

def onHeap {α : Type} (change : Heap → α × Heap) : Act α :=
  modifyGet fun shared =>
    let (result, heap) := change shared.heap
    (result, { shared with heap })

def modifyHeap (change : Heap → Heap) : Act Unit :=
  modify fun shared => { shared with heap := change shared.heap }

def binary (operation : Int64 → Int64 → Act Int64) (stack : List Operand) : Act (List Operand) := do
  let (right, rest) ← popInt stack
  let (left, rest) ← popInt rest
  return .int (← operation left right) :: rest

/-- Division rounds towards zero. -/
def divide (left right : Int64) : Act Int64 :=
  if right = 0 then throw .divisionByZero else pure (left / right)

def unbox (primitive : Primitive) (object : Object) : Act Int64 :=
  match primitive, object with
  | .int, .integer value => pure value
  | .boolean, .boolean value => pure (if value then 1 else 0)
  | _, .null => throw .nullReference
  | primitive, other => throw (.classCast primitive.tag other.sort)

def box (primitive : Primitive) (value : Int64) : Object :=
  match primitive with
  | .int => .integer value
  | .boolean => .boolean (value != 0)

def concat : Object → Object → Act Object
  | .string left, .string right => pure (.string (left ++ right))
  | .string _, right => throw (.classCast "String" right.sort)
  | left, _ => throw (.classCast "String" left.sort)

def invoke (method : Method) (stack : List Operand) : Act (List Operand) := do
  match method with
  | .listAdd =>
    let (item, rest) ← popRef stack
    let (list, rest) ← popRef rest
    let place ← expectList list
    modifyHeap (·.add place item)
    return .int 1 :: rest
  | .listIterator =>
    let (list, rest) ← popRef stack
    let place ← expectList list
    return .ref (← onHeap (·.newIterator place)) :: rest
  | .iteratorHasNext =>
    let (iterator, rest) ← popRef stack
    let heap := (← get).heap
    let state := heap.iteration (← expectIterator iterator)
    return flag (state.position < (heap.items state.list).size) :: rest
  | .iteratorNext =>
    let (iterator, rest) ← popRef stack
    let heap := (← get).heap
    let place ← expectIterator iterator
    let state := heap.iteration place
    match (heap.items state.list)[state.position]? with
    | none => throw .iteratorExhausted
    | some item =>
      modifyHeap (·.advance place)
      return .ref item :: rest
  | .stringValueOf =>
    let (object, rest) ← popRef stack
    return .ref (.string ((← get).heap.text object)) :: rest
  | .stringConcat =>
    let (right, rest) ← popRef stack
    let (left, rest) ← popRef rest
    return .ref (← concat left right) :: rest
  | .objectsEquals =>
    let (right, rest) ← popRef stack
    let (left, rest) ← popRef rest
    return flag ((← get).heap.same left right) :: rest
  | .print =>
    let (object, rest) ← popRef stack
    let (target, rest) ← popRef rest
    expectProgram target
    modify fun shared =>
      { shared with output := shared.output ++ shared.heap.text object ++ "\n" }
    return rest

def load (locals : Array Operand) (slot : Slot) : Act Operand :=
  match locals[slot]? with
  | some operand => pure operand
  | none => throw (.invalidSlot slot)

def store (locals : Array Operand) (slot : Slot) (operand : Operand) : Act (Array Operand) :=
  if slot < locals.size then pure (locals.setIfInBounds slot operand)
  else throw (.invalidSlot slot)

def jump (activation : Activation) (label : Label) : Act Progress :=
  match activation.routine.target? label with
  | some code => pure (.next { activation with code })
  | none => throw (.undefinedLabel label)

/-- Carries out an instruction, which is already taken from the code that is left. -/
def step (instruction : Instruction) (activation : Activation) : Act Progress := do
  let stack := activation.stack
  let withStack (stack : List Operand) : Progress := .next { activation with stack }
  match instruction with
  | .pushInt value => return withStack (.int value :: stack)
  | .pushString text => return withStack (.ref (.string text) :: stack)
  | .pushNull => return withStack (.ref .null :: stack)
  | .loadInt slot => return withStack (.int (← asInt (← load activation.locals slot)) :: stack)
  | .loadRef slot => return withStack (.ref (← asRef (← load activation.locals slot)) :: stack)
  | .storeInt slot =>
    let (value, stack) ← popInt stack
    return .next { activation with stack, locals := ← store activation.locals slot (.int value) }
  | .storeRef slot =>
    let (object, stack) ← popRef stack
    return .next { activation with stack, locals := ← store activation.locals slot (.ref object) }
  | .getField name descriptor =>
    let (target, stack) ← popRef stack
    expectProgram target
    match (← get).fields.find? name with
    | none => throw (.undefinedField name)
    | some operand => return withStack ((← expectKept descriptor operand) :: stack)
  | .putField name descriptor =>
    let (operand, stack) ← pop stack
    let operand ← expectKept descriptor operand
    let (target, stack) ← popRef stack
    expectProgram target
    match (← get).fields.find? name with
    | none => throw (.undefinedField name)
    | some _ =>
      modify fun shared => { shared with fields := shared.fields.bind name operand }
      return withStack stack
  | .add => return withStack (← binary (fun a b => pure (a + b)) stack)
  | .sub => return withStack (← binary (fun a b => pure (a - b)) stack)
  | .mul => return withStack (← binary (fun a b => pure (a * b)) stack)
  | .div => return withStack (← binary divide stack)
  | .xor => return withStack (← binary (fun a b => pure (a ^^^ b)) stack)
  | .neg =>
    let (value, stack) ← popInt stack
    return withStack (.int (-value) :: stack)
  | .jumpIf condition label =>
    let (right, stack) ← popInt stack
    let (left, stack) ← popInt stack
    if holds condition left right then jump { activation with stack } label
    else return withStack stack
  | .jumpIfZero label =>
    let (value, stack) ← popInt stack
    if value = 0 then jump { activation with stack } label else return withStack stack
  | .jump label => jump activation label
  | .label _ => return .next activation
  | .dup =>
    let (operand, _) ← pop stack
    return withStack (operand :: stack)
  | .pop =>
    let (_, stack) ← pop stack
    return withStack stack
  | .newList => return withStack (.ref (← onHeap Heap.newList) :: stack)
  | .invoke method => return withStack (← invoke method stack)
  | .call name argc returns =>
    if stack.length < argc + 1 then throw .stackUnderflow
    return .call name (stack.take (argc + 1)).reverse returns
      { activation with stack := stack.drop (argc + 1) }
  | .checkCast ty =>
    let (object, _) ← popRef stack
    if object.isInstance ty then return withStack stack
    else throw (.classCast ty.name object.sort)
  | .box primitive =>
    let (value, stack) ← popInt stack
    return withStack (.ref (box primitive value) :: stack)
  | .unbox primitive =>
    let (object, stack) ← popRef stack
    return withStack (.int (← unbox primitive object) :: stack)
  | .returnInt =>
    let (value, _) ← popInt stack
    return .done (some (.int value))
  | .returnRef =>
    let (object, _) ← popRef stack
    return .done (some (.ref object))
  | .returnVoid => return .done none

def advance (activation : Activation) : Act Progress :=
  match activation.code with
  | [] => throw .missingReturn
  | instruction :: code => step instruction { activation with code }

/-- A routine at its start: the arguments are in the first slots, the other slots hold `null`. -/
def start (routine : LinkedRoutine) (arguments : List Operand) : Activation :=
  { routine
    code := routine.code
    stack := []
    locals := (arguments ++
      List.replicate (routine.maxLocals - arguments.length) (Operand.ref .null)).toArray }

/-- Goes on after a call: its result is on the stack if the caller waits for one. -/
def resume (caller : Activation) (returns : Bool) (result : Option Operand) : Act Activation :=
  match returns, result with
  | true, some operand => pure { caller with stack := operand :: caller.stack }
  | true, none => throw .missingReturn
  | false, _ => pure caller

end Activation
end CatScript
