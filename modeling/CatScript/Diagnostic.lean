import CatScript.Span

/-! # Diagnostics

The problems that a program's text can have, each reported with the span it concerns. -/
set_option autoImplicit false
namespace CatScript

inductive Problem where
  | unexpectedToken
  | unterminatedList
  | unterminatedArgList
  | unknownName
  | duplicateName
  | incompatibleTypes
  | argMismatch
  | missingReturnStatement
  | nestedFunction
deriving DecidableEq, Inhabited

namespace Problem

def message : Problem → String
  | .unexpectedToken => "Unexpected token"
  | .unterminatedList => "Unterminated list"
  | .unterminatedArgList => "Unterminated argument list"
  | .unknownName => "Unknown name"
  | .duplicateName => "Duplicate name"
  | .incompatibleTypes => "Incompatible types"
  | .argMismatch => "Argument count mismatch"
  | .missingReturnStatement => "Missing return statement"
  | .nestedFunction => "Functions may only be defined at the top level"

/-- Whether the problem is one of form, found without regard to names and types. -/
def isSyntactic : Problem → Bool
  | .unexpectedToken | .unterminatedList | .unterminatedArgList => true
  | _ => false

end Problem

structure Diagnostic where
  problem : Problem
  span : Span
deriving DecidableEq, Inhabited

def Diagnostic.message (diagnostic : Diagnostic) : String :=
  diagnostic.problem.message ++ " at line " ++ toString diagnostic.span.line ++ ", column " ++
    toString diagnostic.span.column

end CatScript
