import CatScript.Arena.Compile
import CatScript.Evaluation.Run
import CatScript.Machine.Run

/-! # Engines

The two ways to run the program of an arena: walking its tree, or generating code and running that
on the machine.  Preparing a program and running it are kept apart, so that a prepared program can
run any number of times. -/
set_option autoImplicit false
namespace CatScript

inductive Engine where
  | interpreter | vm
deriving DecidableEq

/-- Why a program does not run, or does not run to its end. -/
inductive EngineError where
  | evaluation (error : EvalError)
  | compilation (error : CompileError)
  | machine (error : MachineError)
deriving DecidableEq

def EngineError.message : EngineError → String
  | .evaluation error => error.message
  | .compilation error => error.message
  | .machine error => error.message

/-- What keeps a program from its end: an error, a tree put together wrongly, or the bound on the
number of instructions. -/
inductive EngineStop where
  | error (error : EngineError)
  | fault (fault : Fault)
  | outOfFuel
deriving DecidableEq

def EngineStop.message : EngineStop → String
  | .error cause => cause.message
  | .fault cause => cause.message
  | .outOfFuel => "Too many instructions"

inductive Prepared where
  | tree (program : Option (Program Info))
  | code (program : LinkedProgram)

/-- What a run leaves behind: the printed text, how it ended, and the calls of routines with their
depths, in order. -/
structure Ending where
  output : String
  result : Except EngineStop Unit
  calls : List (String × Nat)

namespace Engine

def all : List Engine := [.interpreter, .vm]

def name : Engine → String
  | .interpreter => "interpreter"
  | .vm => "vm"

def find? (name : String) : Option Engine :=
  all.find? fun engine => engine.name == name

def stopOfCompile : CompileStop → EngineStop
  | .error error => .error (.compilation error)
  | .fault fault => .fault fault

def link (executable : Executable) : Except EngineStop Prepared :=
  match executable.link with
  | .ok program => .ok (.code program)
  | .error error => .error (.error (.machine error))

def prepare (engine : Engine) (arena : Arena) : Except EngineStop Prepared :=
  match engine with
  | .interpreter =>
    match arena.program? with
    | .ok program => .ok (.tree program)
    | .error fault => .error (.fault fault)
  | .vm =>
    match arena.compile with
    | .ok executable => link executable
    | .error stop => .error (stopOfCompile stop)

end Engine

namespace Ending

/-- How a run of the machine has ended, or that it has not. -/
def ofStatus : Status → Ending
  | .finished last => ⟨last.shared.output, .ok (), last.calls.reverse⟩
  | .failed cause last =>
    ⟨last.shared.output, .error (.error (.machine cause)), last.calls.reverse⟩
  | .running last => ⟨last.shared.output, .error .outOfFuel, last.calls.reverse⟩

end Ending

namespace Prepared

/-- Runs a program for at most `fuel` instructions if it is code; it appends what it prints to
`output`. -/
def run (prepared : Prepared) (fuel : Nat) (output : String) : Ending :=
  match prepared with
  | .tree program =>
    match (Evaluation.program? program).run ⟨.empty, output⟩ with
    | .ok _ store => ⟨store.output, .ok (), []⟩
    | .error cause store => ⟨store.output, .error (.error (.evaluation cause)), []⟩
  | .code program => .ofStatus (Machine.run program fuel (Machine.start program output))

/-- More instructions than any run carries out in a lifetime. -/
def patience : Nat := 1000000000000000000

/-- Runs a program several times, each time on what it has printed so far; the last run counts. -/
def runTimes (prepared : Prepared) : (times : Nat) → Ending → Ending
  | 0, ending => ending
  | times + 1, ending => runTimes prepared times (prepared.run patience ending.output)

def runOnce (prepared : Prepared) : Ending :=
  prepared.run patience ""

end Prepared
end CatScript
