import CatScript.Tree.Basic
import CatScript.Text.Quoted
import CatScript.Text.Record

/-! # Descriptions of misplaced nodes

The text that stands for a statement or a program where an expression belongs: its kind, what it
holds, and its parts by their places in an arena. -/
set_option autoImplicit false
namespace CatScript
open Text

def Info.describe (info : Info) : String :=
  wrapped "NodeId" [toString info.id]

def Stmt.describeAll (body : List (Stmt Info)) : String :=
  sequence (body.map fun s => s.mark.describe)

def Parameter.describe (param : Parameter) : String :=
  record "Parameter" [("name", quote param.name), ("ty", param.ty.tag)]

/-- A statement by its kind and the places of its parts. -/
def Stmt.describe (s : Stmt Info) : String :=
  let kind := match s with
    | .declaration _ name ty? value =>
      record "Variable" [("name", quote name), ("explicit_type", optional (ty?.map Ty.tag)),
        ("value", value.mark.describe)]
    | .assignment _ name value =>
      record "Assignment" [("name", quote name), ("value", value.mark.describe)]
    | .function _ name params returns body =>
      wrapped "Function" [record "FunctionDefinition" [("name", quote name),
        ("params", sequence (params.map Parameter.describe)), ("return_type", returns.tag),
        ("body", describeAll body)]]
    | .ifThen _ condition thenBody =>
      record "If" [("condition", condition.mark.describe), ("then_body", describeAll thenBody),
        ("else_body", optional none)]
    | .ifThenElse _ condition thenBody elseBody =>
      record "If" [("condition", condition.mark.describe), ("then_body", describeAll thenBody),
        ("else_body", optional (some (describeAll elseBody)))]
    | .loop _ name iterable body =>
      record "For" [("variable", quote name), ("iterable", iterable.mark.describe),
        ("body", describeAll body)]
    | .print _ value => wrapped "Print" [value.mark.describe]
    | .call _ value => wrapped "Call" [value.mark.describe]
    | .returning _ value => wrapped "Return" [optional (value.map fun e => e.mark.describe)]
    | .broken _ text => wrapped "SyntaxError" [quote text]
    | .bare value => value.mark.describe
  wrapped "Statement" [kind]

def Program.describe (p : Program Info) : String :=
  let kind := match p with
    | .expression _ body => wrapped "Expression" [body.mark.describe]
    | .statements _ body => wrapped "Statements" [Stmt.describeAll body]
  wrapped "Program" [kind]

end CatScript
