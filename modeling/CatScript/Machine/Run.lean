import CatScript.Machine.Activation

/-! # Running code

A run goes from one configuration to the next: the routine at work, the callers that wait for it,
and what all of them share.  How many callers may wait is limited.  Code can jump backwards, so a
run is followed for a given number of steps; a run that has not ended by then is still `running`,
and more steps never change how a run has ended (`run_add`). -/
set_option autoImplicit false
namespace CatScript

/-- A caller that waits for a routine to end: whether it wants the result, and where it goes on. -/
structure Waiting where
  returns : Bool
  caller : Activation

/-- A point of a run: the routine at work, the callers, the latest first, what they share, and the
calls so far with their depths, the latest first. -/
structure Configuration where
  current : Activation
  callers : List Waiting
  shared : Shared
  calls : List (String × Nat)

inductive Status where
  | running (configuration : Configuration)
  | finished (configuration : Configuration)
  | failed (error : MachineError) (configuration : Configuration)

namespace Machine

/-- How many callers may wait. -/
def maxCallDepth : Nat := 256

/-- The routine that a call starts, if the program has it and it takes the arguments, the program
object among them, and if not too many callers wait. -/
def callee (program : LinkedProgram) (depth : Nat) (name : String) (arguments : List Operand) :
    Except MachineError Activation :=
  match program.routines.find? name with
  | none => .error (.undefinedFunction name)
  | some routine =>
    if arguments.length ≠ routine.params + 1 then
      .error (.arityMismatch name routine.params (arguments.length - 1))
    else if maxCallDepth ≤ depth then .error (.callDepthExceeded maxCallDepth)
    else .ok (.start routine arguments)

def enter (program : LinkedProgram) (configuration : Configuration) (name : String)
    (arguments : List Operand) (waiting : Waiting) : Status :=
  let depth := configuration.callers.length
  match callee program depth name arguments with
  | .error error => .failed error configuration
  | .ok current =>
    .running { configuration with
      current
      callers := waiting :: configuration.callers
      calls := (name, depth) :: configuration.calls }

/-- Ends the routine at work and goes on with its caller, or ends the run if there is none. -/
def leave (configuration : Configuration) (result : Option Operand) : Status :=
  match configuration.callers with
  | [] => .finished configuration
  | waiting :: callers =>
    match (waiting.caller.resume waiting.returns result).run configuration.shared with
    | .ok current shared => .running { configuration with current, callers, shared }
    | .error error shared => .failed error { configuration with shared }

def step (program : LinkedProgram) : Configuration → Status
  | ⟨current, callers, shared, calls⟩ =>
    match current.advance.run shared with
    | .error error shared => .failed error ⟨current, callers, shared, calls⟩
    | .ok (.next next) shared => .running ⟨next, callers, shared, calls⟩
    | .ok (.call name arguments returns caller) shared =>
      enter program ⟨current, callers, shared, calls⟩ name arguments ⟨returns, caller⟩
    | .ok (.done result) shared => leave ⟨current, callers, shared, calls⟩ result

/-- Follows a run for at most `fuel` instructions. -/
def run (program : LinkedProgram) : (fuel : Nat) → Configuration → Status
  | 0, configuration => .running configuration
  | fuel + 1, configuration =>
    match step program configuration with
    | .running next => run program fuel next
    | ended => ended

/-- What a field holds before anything is stored in it. -/
def defaultOf : Descriptor → Operand
  | .int => .int 0
  | .reference => .ref .null

/-- The start of a run: all fields hold their defaults and the main routine is at work, with the
program object as its argument.  What it prints goes after `output`. -/
def start (program : LinkedProgram) (output : String) : Configuration :=
  { current := .start program.main [.ref .program]
    callers := []
    shared :=
      { fields := program.fields.foldl (fun scope field =>
          scope.bind field.name (defaultOf field.descriptor)) []
        heap := .empty
        output }
    calls := [] }

theorem run_add (program : LinkedProgram) (fuel more : Nat) (configuration : Configuration) :
    run program (fuel + more) configuration =
      match run program fuel configuration with
      | .running next => run program more next
      | ended => ended := by
  induction fuel generalizing configuration with
  | zero => rw [Nat.zero_add]; rfl
  | succ fuel ih =>
    rw [Nat.succ_add]
    simp only [run]
    cases step program configuration with
    | running next => exact ih next
    | finished last => rfl
    | failed error last => rfl

end Machine
end CatScript
