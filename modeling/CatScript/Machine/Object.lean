import CatScript.Ty

/-! # Objects

What the machine's references refer to.  Lists and iterators are shared: a reference to one is its
place in the heap. -/
set_option autoImplicit false
namespace CatScript

inductive Object where
  | null
  | program
  | integer (value : Int64)
  | boolean (value : Bool)
  | string (text : String)
  | list (place : Nat)
  | iterator (place : Nat)
deriving DecidableEq, Inhabited

inductive ObjectSort where
  | null | program | integer | boolean | string | list | iterator
deriving DecidableEq

def ObjectSort.name : ObjectSort → String
  | .null => "null"
  | .program => "program"
  | .integer => "Integer"
  | .boolean => "Boolean"
  | .string => "String"
  | .list => "List"
  | .iterator => "Iterator"

namespace Object

def sort : Object → ObjectSort
  | null => .null
  | program => .program
  | integer _ => .integer
  | boolean _ => .boolean
  | string _ => .string
  | list _ => .list
  | iterator _ => .iterator

/-- Whether a cast to a type lets the object through.  `null` passes every cast, and what a list
holds is not looked at. -/
def isInstance : Object → Ty → Bool
  | null, _ | _, .object => true
  | integer _, .int | boolean _, .boolean | string _, .string | list _, .list _ => true
  | _, _ => false

end Object

/-- An entry of the stack, a slot or a field: an unboxed integer or a reference. -/
inductive Operand where
  | int (value : Int64)
  | ref (object : Object)
deriving DecidableEq, Inhabited

end CatScript
