import CatScript.Machine.Object

/-! # Errors of the machine

What can go wrong when code is linked or run. -/
set_option autoImplicit false
namespace CatScript

/-- Why a run of the machine ends early. -/
inductive MachineError where
  | stackUnderflow
  | notInteger (got : ObjectSort)
  | notReference
  | nullReference
  | classCast (expected : String) (got : ObjectSort)
  | divisionByZero
  | invalidSlot (slot : Nat)
  | undefinedField (name : String)
  | undefinedFunction (name : String)
  | arityMismatch (name : String) (expected found : Nat)
  | undefinedLabel (label : Nat)
  | iteratorExhausted
  | callDepthExceeded (limit : Nat)
  | missingReturn
deriving DecidableEq

def MachineError.message : MachineError → String
  | .stackUnderflow => "Stack underflow"
  | .notInteger got => "Expected int on the stack, got " ++ got.name
  | .notReference => "Expected reference on the stack, got int"
  | .nullReference => "Null reference"
  | .classCast expected got => "Cannot cast " ++ got.name ++ " to " ++ expected
  | .divisionByZero => "Division by zero"
  | .invalidSlot slot => "Local slot " ++ toString slot ++ " out of range"
  | .undefinedField name => "Undefined field '" ++ name ++ "'"
  | .undefinedFunction name => "Undefined function '" ++ name ++ "'"
  | .arityMismatch name expected found =>
    "Function '" ++ name ++ "' expected " ++ toString expected ++ " arguments, got " ++
      toString found
  | .undefinedLabel label => "Undefined label " ++ toString label
  | .iteratorExhausted => "Iterator exhausted"
  | .callDepthExceeded limit => "Call depth exceeded " ++ toString limit
  | .missingReturn => "Code block ended without a return"

end CatScript
