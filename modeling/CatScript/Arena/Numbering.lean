import CatScript.Arena.Basic
import CatScript.Grammar.Program

/-! # Numbering a tree

A tree goes into an arena from the bottom up: the parts of a node in the order of the source, then
the node itself.  So the places of the nodes are their numbers in the post-order of the tree. -/
set_option autoImplicit false
namespace CatScript

def Arena.append (kind : NodeKind) (mark : Mark) : StateM Arena NodeId :=
  modifyGet (Arena.place kind mark)

mutual

/-- Appends the nodes of an expression and gives its place. -/
def Expr.store : Expr Mark → StateM Arena NodeId
  | .identifier mark name => Arena.append (.identifier name) mark
  | .integer mark value => Arena.append (.integer value) mark
  | .string mark text => Arena.append (.string text) mark
  | .boolean mark value => Arena.append (.boolean value) mark
  | .null mark => Arena.append .null mark
  | .list mark items => do Arena.append (.list (← Expr.storeAll items)) mark
  | .parenthesized mark inner => do Arena.append (.parenthesized (← inner.store)) mark
  | .unary mark op operand => do Arena.append (.unary op (← operand.store)) mark
  | .binary mark op left right => do
    Arena.append (.binary op (← left.store) (← right.store)) mark
  | .comparison mark op left right => do
    Arena.append (.comparison op (← left.store) (← right.store)) mark
  | .equality mark op left right => do
    Arena.append (.equality op (← left.store) (← right.store)) mark
  | .call mark name args => do Arena.append (.call name (← Expr.storeAll args)) mark
  | .broken mark text => Arena.append (.brokenExpression text) mark

def Expr.storeAll : List (Expr Mark) → StateM Arena (List NodeId)
  | [] => pure []
  | e :: rest => do
    let id ← e.store
    return id :: (← Expr.storeAll rest)

end

mutual

def Stmt.store : Stmt Mark → StateM Arena NodeId
  | .declaration mark name ty? value => do
    Arena.append (.declaration name ty? (← value.store)) mark
  | .assignment mark name value => do Arena.append (.assignment name (← value.store)) mark
  | .function mark name params returns body => do
    Arena.append (.function name params returns (← Stmt.storeAll body)) mark
  | .ifThen mark condition thenBody => do
    Arena.append (.ifThen (← condition.store) (← Stmt.storeAll thenBody)) mark
  | .ifThenElse mark condition thenBody elseBody => do
    Arena.append
      (.ifThenElse (← condition.store) (← Stmt.storeAll thenBody) (← Stmt.storeAll elseBody)) mark
  | .loop mark name iterable body => do
    Arena.append (.loop name (← iterable.store) (← Stmt.storeAll body)) mark
  | .print mark value => do Arena.append (.print (← value.store)) mark
  | .call mark value => do Arena.append (.callStatement (← value.store)) mark
  | .returning mark none => Arena.append (.returning none) mark
  | .returning mark (some value) => do Arena.append (.returning (some (← value.store))) mark
  | .broken mark text => Arena.append (.brokenStatement text) mark
  | .bare value => value.store

def Stmt.storeAll : List (Stmt Mark) → StateM Arena (List NodeId)
  | [] => pure []
  | s :: rest => do
    let id ← s.store
    return id :: (← Stmt.storeAll rest)

end

def Program.store : Program Mark → StateM Arena NodeId
  | .expression mark body => do Arena.append (.expressionProgram (← body.store)) mark
  | .statements mark body => do Arena.append (.statementProgram (← Stmt.storeAll body)) mark

namespace Arena

def ofProgram (program : Program Mark) : Arena :=
  let (root, arena) := program.store.run empty
  arena.setRoot root

def parse (source : String) : Arena :=
  ofProgram (Grammar.parse source)

def parseExpression (source : String) : Arena :=
  ofProgram (Grammar.parseExpression source)

end Arena
end CatScript
