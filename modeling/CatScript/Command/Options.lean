import CatScript.Engine
import CatScript.Log

/-! # Options

What the arguments of the command line ask for. -/
set_option autoImplicit false
namespace CatScript

inductive UsageError where
  | missingEngine (option : String)
  | unknownOption (option : String)
  | secondInput
deriving DecidableEq

def UsageError.message : UsageError → String
  | .missingEngine option => "Missing backend name after " ++ option
  | .unknownOption option => "Unknown option '" ++ option ++ "'"
  | .secondInput => "Only one input file is supported"

/-- What the command line asks for: the engine by its name, a listing instead of a run, detailed log
records, and a file to read instead of the standard input. -/
structure Options where
  engine : String
  listing : Bool
  verbose : Bool
  path : Option String
deriving DecidableEq

namespace Options

def default : Options := ⟨Engine.interpreter.name, false, false, none⟩

/-- Reads arguments on top of the options read so far. -/
def parseFrom (options : Options) : List String → Except UsageError Options
  | [] => .ok options
  | arg :: rest =>
    if arg = "--backend" ∨ arg = "-b" then
      match rest with
      | [] => .error (.missingEngine arg)
      | engine :: rest => parseFrom { options with engine } rest
    else if arg = "--dump-bytecode" then parseFrom { options with listing := true } rest
    else if arg = "--verbose" ∨ arg = "-v" then parseFrom { options with verbose := true } rest
    else if arg.toList.head? = some '-' then .error (.unknownOption arg)
    else if options.path.isSome then .error .secondInput
    else parseFrom { options with path := some arg } rest

def parse (args : List String) : Except UsageError Options :=
  parseFrom default args

/-- The level of log records to write, where `setting` names one unless the command line does. -/
def level (options : Options) (setting : Option String) : Level :=
  if options.verbose then .debug else (setting.bind Level.parse?).getD .warn

end Options
end CatScript
