import CatScript.Code.Listing
import CatScript.Machine.Error

/-! # Linking

Linking finds the place of every label, once before a program runs.  The place of a label is the
code from there on; of several labels of one name the last counts. -/
set_option autoImplicit false
namespace CatScript

/-- A routine with the places of its labels. -/
structure LinkedRoutine where
  params : Nat
  maxLocals : Nat
  code : List Instruction
  labels : List (Label × List Instruction)

structure LinkedProgram where
  fields : List Field
  routines : Scope LinkedRoutine
  main : LinkedRoutine

namespace LinkedRoutine

/-- The places of the labels in a piece of code, in front of those in `found`. -/
def labelsOf (found : List (Label × List Instruction)) : List Instruction →
    List (Label × List Instruction)
  | [] => found
  | .label label :: rest => labelsOf ((label, .label label :: rest) :: found) rest
  | _ :: rest => labelsOf found rest

def target? (linked : LinkedRoutine) (label : Label) : Option (List Instruction) :=
  linked.labels.lookup label

/-- The first label that code jumps to without having it. -/
def missing? (labels : List (Label × List Instruction)) (code : List Instruction) : Option Label :=
  (code.filterMap Instruction.target?).find? fun label => (labels.lookup label).isNone

def ofRoutine (routine : Routine) : Except MachineError LinkedRoutine :=
  let labels := labelsOf [] routine.code
  match missing? labels routine.code with
  | some label => .error (.undefinedLabel label)
  | none => .ok ⟨routine.params.length, routine.maxLocals, routine.code, labels⟩

def ofRoutines : Scope Routine → Except MachineError (Scope LinkedRoutine)
  | [] => .ok []
  | (name, routine) :: rest => do
    let linked ← ofRoutine routine
    return (name, linked) :: (← ofRoutines rest)

end LinkedRoutine

/-- The executable with its labels placed: its routines in the order of their names, then the main
routine. -/
def Executable.link (executable : Executable) : Except MachineError LinkedProgram := do
  let routines ← LinkedRoutine.ofRoutines (sortByName executable.routines)
  let main ← LinkedRoutine.ofRoutine executable.main
  return ⟨executable.fields, routines, main⟩

end CatScript
