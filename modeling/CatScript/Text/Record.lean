/-! # Records as text

How listings and descriptions write a kind with its parts: `Kind(part)`, or `Kind` with named parts
in braces. -/
set_option autoImplicit false
namespace CatScript.Text

/-- A kind with parts that have no names. -/
def wrapped (kind : String) (parts : List String) : String :=
  kind ++ "(" ++ ", ".intercalate parts ++ ")"

def record (kind : String) (parts : List (String × String)) : String :=
  kind ++ " \x7b " ++ ", ".intercalate (parts.map fun part => part.1 ++ ": " ++ part.2) ++ " \x7d"

def sequence (parts : List String) : String :=
  "[" ++ ", ".intercalate parts ++ "]"

def optional : Option String → String
  | none => "None"
  | some text => wrapped "Some" [text]

/-- `text` with blanks in front, up to the given length. -/
def alignRight (length : Nat) (text : String) : String :=
  String.ofList (List.replicate (length - text.length) ' ') ++ text

end CatScript.Text
