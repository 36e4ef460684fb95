import CatScript.Arena.Basic
import CatScript.Tree.Describe
import CatScript.Tree.Marks

/-! # The tree of an arena

The view of an arena is the tree that its nodes make, each marked with what the arena knows of it.
Where a node of another sort stands in the place of an expression the view has a `broken` one that
describes it.  `adopt` writes what the marks of a tree say back into the arena. -/
set_option autoImplicit false
namespace CatScript

inductive Subtree where
  | expression (e : Expr Info)
  | statement (s : Stmt Info)
  | program (p : Program Info)

namespace Subtree

def asExpr : Subtree → Expr Info
  | expression e => e
  | statement s => .broken s.mark s.describe
  | program p => .broken p.mark p.describe

def asStmt : Subtree → Stmt Info
  | statement s => s
  | other => .bare other.asExpr

def program? : Subtree → Option (Program Info)
  | program p => some p
  | _ => none

end Subtree

namespace Arena

/-- The tree under a node with the given mark, when `below` holds the trees of the nodes before
it. -/
def viewOf (below : Array Subtree) (info : Info) (kind : NodeKind) : Subtree :=
  let expr (id : NodeId) : Expr Info :=
    match below[id]? with
    | some tree => tree.asExpr
    | none => .broken ⟨id, default, [], none⟩ ""
  let stmt (id : NodeId) : Stmt Info :=
    match below[id]? with
    | some tree => tree.asStmt
    | none => .bare (expr id)
  match kind with
  | .expressionProgram body => .program (.expression info (expr body))
  | .statementProgram body => .program (.statements info (body.map stmt))
  | .identifier name => .expression (.identifier info name)
  | .integer value => .expression (.integer info value)
  | .string text => .expression (.string info text)
  | .boolean value => .expression (.boolean info value)
  | .null => .expression (.null info)
  | .list items => .expression (.list info (items.map expr))
  | .parenthesized inner => .expression (.parenthesized info (expr inner))
  | .unary op operand => .expression (.unary info op (expr operand))
  | .binary op left right => .expression (.binary info op (expr left) (expr right))
  | .comparison op left right => .expression (.comparison info op (expr left) (expr right))
  | .equality op left right => .expression (.equality info op (expr left) (expr right))
  | .call name args => .expression (.call info name (args.map expr))
  | .brokenExpression text => .expression (.broken info text)
  | .declaration name ty? value =>
    .statement (.declaration info name ty? (expr value))
  | .assignment name value => .statement (.assignment info name (expr value))
  | .function name params returns body =>
    .statement (.function info name params returns (body.map stmt))
  | .ifThen condition thenBody =>
    .statement (.ifThen info (expr condition) (thenBody.map stmt))
  | .ifThenElse condition thenBody elseBody =>
    .statement (.ifThenElse info (expr condition) (thenBody.map stmt) (elseBody.map stmt))
  | .loop name iterable body => .statement (.loop info name (expr iterable) (body.map stmt))
  | .print value => .statement (.print info (expr value))
  | .callStatement value => .statement (.call info (expr value))
  | .returning value => .statement (.returning info (value.map expr))
  | .brokenStatement text => .statement (.broken info text)

def views (arena : Arena) : Array Subtree :=
  arena.nodes.foldl
    (fun below node =>
      below.push (viewOf below ⟨below.size, node.span, node.errors, node.ty⟩ node.kind))
    #[]

/-- The program of an arena: the tree under its root, if that is a program. -/
def program? (arena : Arena) : Except Fault (Option (Program Info)) :=
  match arena.root with
  | none => .ok none
  | some root =>
    match arena.views[root]? with
    | some tree => .ok tree.program?
    | none => .error (.outOfRange arena.size root)

/-- The return type of the innermost function around a node. -/
def returnTypeAround (arena : Arena) (id : NodeId) : Except Fault (Option Ty) := do
  match ← arena.enclosingFunction id with
  | none => return none
  | some function =>
    match (← arena.node function).kind with
    | .function _ _ returns _ => return some returns
    | _ => return none

def record (arena : Arena) (info : Info) : Arena :=
  let write (node : Node) : Node := { node with errors := info.errors, ty := info.ty }
  { arena with nodes := arena.nodes.modify info.id write }

/-- Writes what the marks of a program say into the arena. -/
def adopt (arena : Arena) (program : Program Info) : Arena :=
  program.marks.foldl record arena

end Arena
end CatScript
