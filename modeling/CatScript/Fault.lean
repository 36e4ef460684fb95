/-! # Faults

A fault is a misuse of a data structure by its caller: no text of a program leads to one. -/
set_option autoImplicit false
namespace CatScript

/-- A misuse of an arena or of a symbol table. -/
inductive Fault where
  | attachedTwice (node : Nat)
  | typeSetTwice (node : Nat)
  | typeNotSet (node : Nat)
  | globalScopePopped
  | outOfRange (size index : Nat)
deriving DecidableEq

def Fault.message : Fault → String
  | .attachedTwice node => "node NodeId(" ++ toString node ++ ") attached twice"
  | .typeSetTwice node => "type of node NodeId(" ++ toString node ++ ") set twice"
  | .typeNotSet node => "type of node NodeId(" ++ toString node ++ ") read before validation"
  | .globalScopePopped => "cannot pop the global scope"
  | .outOfRange size index =>
    "index out of bounds: the len is " ++ toString size ++ " but the index is " ++ toString index

end CatScript
