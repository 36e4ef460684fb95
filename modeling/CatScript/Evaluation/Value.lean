import CatScript.Text.Decimal

/-! # Values

What expressions evaluate to.  `Value.equal_iff` says that comparing two values decides whether they
are the same. -/
set_option autoImplicit false
namespace CatScript

inductive Value where
  | integer (value : Int64)
  | boolean (value : Bool)
  | string (text : String)
  | list (items : List Value)
  | null
deriving Inhabited

inductive ValueSort where
  | integer | boolean | string | list | null
deriving DecidableEq

def ValueSort.name : ValueSort → String
  | .integer => "int"
  | .boolean => "bool"
  | .string => "string"
  | .list => "list"
  | .null => "null"

namespace Value

def sort : Value → ValueSort
  | integer _ => .integer
  | boolean _ => .boolean
  | string _ => .string
  | list _ => .list
  | null => .null

mutual

/-- The value as it is printed. -/
def text : Value → String
  | integer value => Text.decimal value
  | boolean value => Text.truth value
  | string text => text
  | list items => "[" ++ ", ".intercalate (texts items) ++ "]"
  | null => "null"

def texts : List Value → List String
  | [] => []
  | value :: rest => value.text :: texts rest

end

mutual

def equal : Value → Value → Bool
  | integer a, integer b => a == b
  | boolean a, boolean b => a == b
  | string a, string b => a == b
  | list a, list b => equalAll a b
  | null, null => true
  | _, _ => false

def equalAll : List Value → List Value → Bool
  | [], [] => true
  | a :: as, b :: bs => equal a b && equalAll as bs
  | _, _ => false

end

mutual

theorem equal_iff (a b : Value) : a.equal b = true ↔ a = b := by
  cases a <;> cases b <;> simp [equal]
  rename_i a b
  exact equalAll_iff a b

theorem equalAll_iff (a b : List Value) : equalAll a b = true ↔ a = b := by
  cases a with
  | nil => cases b <;> simp [equalAll]
  | cons x xs =>
    cases b with
    | nil => simp [equalAll]
    | cons y ys => simp [equalAll, equal_iff x y, equalAll_iff xs ys]

end

theorem texts_eq_map (values : List Value) : texts values = values.map text := by
  induction values with
  | nil => rfl
  | cons value rest ih => simp [texts, ih]

end Value
end CatScript
