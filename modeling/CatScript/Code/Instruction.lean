import CatScript.Scope
import CatScript.Ty

/-! # Instructions

The code of a stack machine: routines that work on a stack of integers and references, and an
executable made of fields, routines and a main routine. -/
set_option autoImplicit false
namespace CatScript

/-- The number of a local variable of a routine. -/
abbrev Slot := Nat

/-- The name of a place in the code of one routine. -/
abbrev Label := Nat

/-- How a field is kept: `int` and `bool` as an integer, everything else as a reference. -/
inductive Descriptor where
  | int | reference
deriving DecidableEq

def Descriptor.of (ty : Ty) : Descriptor :=
  if ty.isPrimitive then .int else .reference

/-- The types whose values are kept as integers. -/
inductive Primitive where
  | int | boolean
deriving DecidableEq

def Primitive.of? : Ty → Option Primitive
  | .int => some .int
  | .boolean => some .boolean
  | _ => none

inductive Condition where
  | equal | notEqual | less | lessEqual | greater | greaterEqual
deriving DecidableEq

inductive Method where
  | listAdd | listIterator | iteratorHasNext | iteratorNext
  | stringValueOf | stringConcat | objectsEquals | print
deriving DecidableEq

/-- An instruction.  A call finds the program object and `argc` arguments on the stack, and leaves
the result there if it `returns` one. -/
inductive Instruction where
  | pushInt (value : Int64)
  | pushString (text : String)
  | pushNull
  | loadInt (slot : Slot)
  | storeInt (slot : Slot)
  | loadRef (slot : Slot)
  | storeRef (slot : Slot)
  | getField (name : String) (descriptor : Descriptor)
  | putField (name : String) (descriptor : Descriptor)
  | add | sub | mul | div | neg | xor
  | jumpIf (condition : Condition) (label : Label)
  | jumpIfZero (label : Label)
  | jump (label : Label)
  | label (label : Label)
  | dup | pop
  | newList
  | invoke (method : Method)
  | call (name : String) (argc : Nat) (returns : Bool)
  | checkCast (ty : Ty)
  | box (primitive : Primitive)
  | unbox (primitive : Primitive)
  | returnInt | returnRef | returnVoid
deriving DecidableEq

def Instruction.target? : Instruction → Option Label
  | .jumpIf _ place | .jumpIfZero place | .jump place => some place
  | _ => none

structure Field where
  name : String
  descriptor : Descriptor
deriving DecidableEq

/-- A piece of code with the number of its local slots.  Slot 0 holds the program object and the
next slots hold the arguments. -/
structure Routine where
  params : List Ty
  returns : Ty
  code : List Instruction
  maxLocals : Nat
deriving DecidableEq

structure Executable where
  fields : List Field
  routines : Scope Routine
  main : Routine

end CatScript
