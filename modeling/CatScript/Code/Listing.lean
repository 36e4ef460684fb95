import CatScript.Code.Instruction
import CatScript.Text.Decimal
import CatScript.Text.Quoted
import CatScript.Text.Record

/-! # Listings

The text of an executable: its fields, its routines in the order of their names, and the main
routine, each with its numbered instructions. -/
set_option autoImplicit false
namespace CatScript
open Text

def Descriptor.tag : Descriptor → String
  | .int => "Int"
  | .reference => "Reference"

def Primitive.tag : Primitive → String
  | .int => "Int"
  | .boolean => "Boolean"

def Condition.tag : Condition → String
  | .equal => "Equal"
  | .notEqual => "NotEqual"
  | .less => "Less"
  | .lessEqual => "LessEqual"
  | .greater => "Greater"
  | .greaterEqual => "GreaterEqual"

def Method.tag : Method → String
  | .listAdd => "ListAdd"
  | .listIterator => "ListIterator"
  | .iteratorHasNext => "IteratorHasNext"
  | .iteratorNext => "IteratorNext"
  | .stringValueOf => "StringValueOf"
  | .stringConcat => "StringConcat"
  | .objectsEquals => "ObjectsEquals"
  | .print => "Print"

def labelTag (label : Label) : String :=
  wrapped "Label" [toString label]

def fieldTag (kind name : String) (descriptor : Descriptor) : String :=
  record kind [("name", quote name), ("descriptor", descriptor.tag)]

def Instruction.tag : Instruction → String
  | .pushInt value => wrapped "IConst" [decimal value]
  | .pushString text => wrapped "Ldc" [quote text]
  | .pushNull => "AConstNull"
  | .loadInt slot => wrapped "ILoad" [toString slot]
  | .storeInt slot => wrapped "IStore" [toString slot]
  | .loadRef slot => wrapped "ALoad" [toString slot]
  | .storeRef slot => wrapped "AStore" [toString slot]
  | .getField name descriptor => fieldTag "GetField" name descriptor
  | .putField name descriptor => fieldTag "PutField" name descriptor
  | .add => "IAdd"
  | .sub => "ISub"
  | .mul => "IMul"
  | .div => "IDiv"
  | .neg => "INeg"
  | .xor => "IXor"
  | .jumpIf condition place => wrapped "IfICmp" [condition.tag, labelTag place]
  | .jumpIfZero place => wrapped "IfEq" [labelTag place]
  | .jump place => wrapped "Goto" [labelTag place]
  | .label place => wrapped "Label" [labelTag place]
  | .dup => "Dup"
  | .pop => "Pop"
  | .newList => "NewList"
  | .invoke method => wrapped "Invoke" [method.tag]
  | .call name argc returns =>
    record "InvokeFunction"
      [("name", quote name), ("argc", toString argc), ("returns", truth returns)]
  | .checkCast ty => wrapped "CheckCast" [ty.tag]
  | .box primitive => wrapped "Box" [primitive.tag]
  | .unbox primitive => wrapped "Unbox" [primitive.tag]
  | .returnInt => "IReturn"
  | .returnRef => "AReturn"
  | .returnVoid => "Return"

/-- The lines of the instructions, numbered from `index` on. -/
def listCode (index : Nat) : List Instruction → String
  | [] => ""
  | instruction :: rest =>
    "  " ++ alignRight 4 (toString index) ++ ": " ++ instruction.tag ++ "\n" ++
      listCode (index + 1) rest

def Routine.localsTag (routine : Routine) : String :=
  " [locals: " ++ toString routine.maxLocals ++ "]\n"

def Routine.listing (name : String) (routine : Routine) : String :=
  "function " ++ wrapped name (routine.params.map Ty.name) ++ " : " ++ routine.returns.name ++
    routine.localsTag ++ listCode 0 routine.code

def insertByName {α : Type} (entry : String × α) : List (String × α) → List (String × α)
  | [] => [entry]
  | other :: rest =>
    if entry.1 < other.1 then entry :: other :: rest else other :: insertByName entry rest

/-- The entries in the order of their names, which is that of the code points. -/
def sortByName {α : Type} : List (String × α) → List (String × α)
  | [] => []
  | entry :: rest => insertByName entry (sortByName rest)

def Executable.listing (executable : Executable) : String :=
  String.join (executable.fields.map fun field =>
      "field " ++ field.name ++ ": " ++ field.descriptor.tag ++ "\n") ++
    String.join ((sortByName executable.routines).map fun entry => entry.2.listing entry.1) ++
    "main" ++ executable.main.localsTag ++ listCode 0 executable.main.code

end CatScript
