import CatScript.Evaluation.Value

/-! # Errors of evaluation

What can go wrong when the tree of a program is evaluated. -/
set_option autoImplicit false
namespace CatScript

inductive Operation where
  | negation | addition | subtraction | multiplication | division | comparison | condition
deriving DecidableEq

def Operation.name : Operation → String
  | .negation => "negation"
  | .addition => "addition"
  | .subtraction => "subtraction"
  | .multiplication => "multiplication"
  | .division => "division"
  | .comparison => "comparison"
  | .condition => "if condition"

/-- Why an evaluation ends early. -/
inductive EvalError where
  | divisionByZero
  | nullReference
  | nullOperand (operation : Operation)
  | typeMismatch (expected got : ValueSort)
  | notIterable (got : ValueSort)
  | undefinedVariable (name : String)
  | undefinedFunction (name : String)
  | arityMismatch (name : String) (expected found : Nat)
  | callDepthExceeded (limit : Nat)
  | brokenSyntax (text : String)
  | missingProgram
deriving DecidableEq

def EvalError.message : EvalError → String
  | .divisionByZero => "Division by zero"
  | .nullReference => "Null reference"
  | .nullOperand operation => "Null value used in " ++ operation.name
  | .typeMismatch expected got => "Expected " ++ expected.name ++ ", got " ++ got.name
  | .notIterable got => "Cannot iterate over " ++ got.name
  | .undefinedVariable name => "Undefined variable '" ++ name ++ "'"
  | .undefinedFunction name => "Undefined function '" ++ name ++ "'"
  | .arityMismatch name expected found =>
    "Function '" ++ name ++ "' expected " ++ toString expected ++ " arguments, got " ++
      toString found
  | .callDepthExceeded limit => "Call depth exceeded " ++ toString limit
  | .brokenSyntax text => "Cannot execute syntax error at '" ++ text ++ "'"
  | .missingProgram => "Program has no root node"

end CatScript
