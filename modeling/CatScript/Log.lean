import CatScript.Text.Blank

/-! # Log records

Records have a level, and only those up to a chosen level are written. -/
set_option autoImplicit false
namespace CatScript

/-- A level of detail; `off` writes nothing. -/
inductive Level where
  | off | error | warn | info | debug | trace
deriving DecidableEq

namespace Level

def all : List Level := [.off, .error, .warn, .info, .debug, .trace]

def name : Level → String
  | .off => "OFF"
  | .error => "ERROR"
  | .warn => "WARN"
  | .info => "INFO"
  | .debug => "DEBUG"
  | .trace => "TRACE"

def detail : Level → Nat
  | .off => 0
  | .error => 1
  | .warn => 2
  | .info => 3
  | .debug => 4
  | .trace => 5

/-- The level that a name stands for.  White space around it and the case of ASCII letters do not
matter. -/
def parse? (name : String) : Option Level :=
  let word := (Text.trim name.toList).map Char.toUpper
  all.find? fun level => level.name.toList == word

end Level

structure Record where
  level : Level
  message : String
deriving DecidableEq

def Record.upTo (level : Level) (records : List Record) : List Record :=
  records.filter fun record => record.level.detail ≤ level.detail

end CatScript
