/-! # Types

The static types of the language: six simple ones and lists of any type.  `accepts` says when a
value of one type may stand where another is expected, `join` gives a type for values of two. -/
set_option autoImplicit false
namespace CatScript

inductive Ty where
  | int | string | boolean | object | void | null
  | list (component : Ty)
deriving DecidableEq, Inhabited

namespace Ty

/-- The type that a name other than `list` stands for in an annotation. -/
def ofName? (name : String) : Option Ty :=
  match name with
  | "int" => some .int
  | "string" => some .string
  | "bool" => some .boolean
  | "object" => some .object
  | _ => none

def component? : Ty → Option Ty
  | .list component => some component
  | _ => none

/-- Whether a value of type `source` may be stored where `target` is expected. -/
def accepts : (target source : Ty) → Bool
  | .void, source => source == .void
  | _, .void => false
  | _, .null => true
  | .object, _ => true
  | .list target, .list source => accepts target source
  | target, source => target == source

/-- The wider of two types, or `object` when neither accepts the other. -/
def join (a b : Ty) : Ty :=
  if a.accepts b then a else if b.accepts a then b else .object

/-- Whether values of the type are kept unboxed on the machine's stack. -/
def isPrimitive : Ty → Bool
  | .int | .boolean => true
  | _ => false

def name : Ty → String
  | .int => "int"
  | .string => "string"
  | .boolean => "bool"
  | .object => "object"
  | .void => "void"
  | .null => "null"
  | .list component => "list<" ++ component.name ++ ">"

def tag : Ty → String
  | .int => "Int"
  | .string => "String"
  | .boolean => "Boolean"
  | .object => "Object"
  | .void => "Void"
  | .null => "Null"
  | .list component => "List(" ++ component.tag ++ ")"

theorem accepts_self (ty : Ty) : ty.accepts ty = true := by
  induction ty <;> simp_all [accepts]

theorem join_self (ty : Ty) : ty.join ty = ty := by
  simp [join, accepts_self]

end Ty
end CatScript
