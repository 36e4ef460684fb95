import CatScript.Arena.Validate
import CatScript.Engine
import CatScript.Log

/-! # The journal

The log records of the stages that a text passes on its way to a run. -/
set_option autoImplicit false
namespace CatScript.Journal

mutual

/-- The records of reading a statement, inside the function of the given name. -/
def readingOf (function : String) : Stmt Mark → List Record
  | .function _ name _ _ body =>
    ⟨.trace, "parsing body of function " ++ name⟩ :: readingOfAll name body
  | .ifThen _ _ thenBody => readingOfAll function thenBody
  | .ifThenElse _ _ thenBody elseBody =>
    readingOfAll function thenBody ++ readingOfAll function elseBody
  | .loop _ _ _ body => readingOfAll function body
  | .returning _ _ => [⟨.trace, "return in function " ++ function⟩]
  | _ => []

def readingOfAll (function : String) : List (Stmt Mark) → List Record
  | [] => []
  | s :: rest => readingOf function s ++ readingOfAll function rest

end

def reading (tokens : Nat) (program : Program Mark) : List Record :=
  ⟨.trace, "lexed " ++ toString tokens ++ " tokens"⟩ ::
    match program with
    | .expression _ _ => [⟨.debug, "parsed input as an expression program"⟩]
    | .statements _ body =>
      readingOfAll "" body ++
        [⟨.debug, "parsed " ++ toString body.length ++ " top-level statements"⟩]

mutual

def typingOf : Stmt Mark → List Record
  | .function _ name _ _ body => ⟨.trace, "validating function " ++ name⟩ :: typingOfAll body
  | .ifThen _ _ thenBody => typingOfAll thenBody
  | .ifThenElse _ _ thenBody elseBody => typingOfAll thenBody ++ typingOfAll elseBody
  | .loop _ _ _ body => typingOfAll body
  | _ => []

def typingOfAll : List (Stmt Mark) → List Record
  | [] => []
  | s :: rest => typingOf s ++ typingOfAll rest

end

def typing (program : Program Mark) (problems : Nat) : List Record :=
  (match program with
    | .expression _ _ => []
    | .statements _ body => typingOfAll body) ++
    [⟨.debug, "validation finished with " ++ toString problems ++ " diagnostics"⟩]

def rejecting (problems : Nat) : Record :=
  ⟨.debug, "frontend rejected program with " ++ toString problems ++ " diagnostics"⟩

def accepting (arena : Arena) : Record :=
  ⟨.info, "program validated, " ++ toString arena.size ++ " nodes"⟩

def compiling (executable : Executable) : Record :=
  ⟨.debug, "compiled " ++ toString executable.fields.length ++ " fields, " ++
    toString executable.routines.length ++ " functions, " ++
    toString executable.main.code.length ++ " main instructions"⟩

def linking (executable : Executable) : Record :=
  ⟨.debug, "vm linking " ++ toString executable.routines.length ++ " functions and " ++
    toString executable.fields.length ++ " fields"⟩

def functionCount (arena : Arena) : Nat :=
  match arena.program? with
  | .ok (some (.statements _ body)) => (Evaluation.definitions [] body).length
  | _ => 0

def preparing (engine : Engine) (arena : Arena) : List Record :=
  match engine with
  | .interpreter =>
    [⟨.debug, "interpreter prepared " ++ toString (functionCount arena) ++ " functions"⟩]
  | .vm =>
    match arena.compile with
    | .ok executable => [compiling executable, linking executable]
    | .error _ => []

def running (engine : Engine) (ending : Ending) : List Record :=
  (ending.calls.map fun call =>
    ⟨.trace, "vm call " ++ call.1 ++ " at depth " ++ toString call.2⟩) ++
    match ending.result with
    | .ok _ => []
    | .error stop => [⟨.warn, engine.name ++ " backend failed: " ++ stop.message⟩]

end CatScript.Journal
