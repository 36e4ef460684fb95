import CatScript.Command.Input
import CatScript.Command.Journal
import CatScript.Command.Options

/-! # Carrying out a command

A command reads a text, checks it, and lists its code or runs it.  What comes of it is a report: the
text for the standard output, the log records, and the failure, if there is one. -/
set_option autoImplicit false
namespace CatScript

structure Report where
  output : String
  records : List Record
  failure : Option String

namespace Report

def code (report : Report) : Nat :=
  if report.failure.isSome then 1 else 0

def complaint (report : Report) : String :=
  match report.failure with
  | none => ""
  | some message => "Error: " ++ message ++ "\n"

def failed (records : List Record) (message : String) : Report :=
  ⟨"", records, some message⟩

def after (records : List Record) (report : Report) : Report :=
  { report with records := records ++ report.records }

end Report

namespace Command

def run (engine : String) (arena : Arena) : Report :=
  match Engine.find? engine with
  | none => .failed [] ("Unknown backend '" ++ engine ++ "'")
  | some engine =>
    let prepared := Journal.preparing engine arena
    match engine.prepare arena with
    | .error stop => .failed prepared stop.message
    | .ok program =>
      let ending := program.runOnce
      let failure := match ending.result with
        | .ok _ => none
        | .error stop => some stop.message
      ⟨ending.output, prepared ++ Journal.running engine ending, failure⟩

def list (arena : Arena) : Report :=
  match arena.compile with
  | .ok executable => ⟨executable.listing, [Journal.compiling executable], none⟩
  | .error stop => .failed [] (Engine.stopOfCompile stop).message

def execute (options : Options) (source : String) : Report :=
  let program := Grammar.parse source
  let reading := Journal.reading (Token.scan source).length program
  let checked := do
    let arena ← (Arena.ofProgram program).validate
    return (arena, ← arena.diagnostics)
  match checked with
  | .error fault => .failed reading fault.message
  | .ok (arena, diagnostics) =>
    let typing := reading ++ Journal.typing program diagnostics.length
    if diagnostics.isEmpty then
      let report := if options.listing then list arena else run options.engine arena
      report.after (typing ++ [Journal.accepting arena])
    else
      .failed (typing ++ [Journal.rejecting diagnostics.length]) (Arena.rejection diagnostics)

/-- Carries out a command line.  `read` gives the text of a file, or of the standard input where no
path is given; `setting` names the level of log records. -/
def invoke (read : Option String → Except ReadFailure String) (setting : Option String)
    (args : List String) : Report :=
  match Options.parse args with
  | .error error => .failed [] error.message
  | .ok options =>
    match read options.path with
    | .error failure => .failed [] failure.message
    | .ok source =>
      let report := execute options source
      { report with records := Record.upTo (options.level setting) report.records }

end Command
end CatScript
