import CatScript.Tree.Basic

/-! # The marks of a tree

The marks of a tree in a row: a node's own before those of its parts (`Expr.head?_marks`,
`Stmt.head?_marks`), and the parts in the order of the source. -/
set_option autoImplicit false
namespace CatScript

variable {α : Type}

mutual

/-- The marks of an expression and its parts. -/
def Expr.marks : Expr α → List α
  | .identifier mark _ | .integer mark _ | .string mark _ | .boolean mark _ | .null mark
  | .broken mark _ => [mark]
  | .list mark items => mark :: Expr.marksAll items
  | .parenthesized mark inner => mark :: inner.marks
  | .unary mark _ operand => mark :: operand.marks
  | .binary mark _ left right | .comparison mark _ left right | .equality mark _ left right =>
    mark :: (left.marks ++ right.marks)
  | .call mark _ args => mark :: Expr.marksAll args

def Expr.marksAll : List (Expr α) → List α
  | [] => []
  | e :: rest => e.marks ++ Expr.marksAll rest

end

mutual

def Stmt.marks : Stmt α → List α
  | .declaration mark _ _ value | .assignment mark _ value | .print mark value
  | .call mark value => mark :: value.marks
  | .function mark _ _ _ body => mark :: Stmt.marksAll body
  | .ifThen mark condition thenBody => mark :: (condition.marks ++ Stmt.marksAll thenBody)
  | .ifThenElse mark condition thenBody elseBody =>
    mark :: (condition.marks ++ Stmt.marksAll thenBody ++ Stmt.marksAll elseBody)
  | .loop mark _ iterable body => mark :: (iterable.marks ++ Stmt.marksAll body)
  | .returning mark none => [mark]
  | .returning mark (some value) => mark :: value.marks
  | .broken mark _ => [mark]
  | .bare value => value.marks

def Stmt.marksAll : List (Stmt α) → List α
  | [] => []
  | s :: rest => s.marks ++ Stmt.marksAll rest

end

def Program.marks : Program α → List α
  | .expression mark body => mark :: body.marks
  | .statements mark body => mark :: Stmt.marksAll body

theorem Expr.head?_marks (e : Expr α) : e.marks.head? = some e.mark := by
  cases e <;> simp [marks, mark]

theorem Expr.marks_eq_cons (e : Expr α) : e.marks = e.mark :: e.marks.tail := by
  cases e <;> rfl

theorem Expr.marks_adjust (change : α → α) (e : Expr α) :
    (e.adjust change).marks = change e.mark :: e.marks.tail := by
  cases e <;> rfl

theorem Stmt.head?_marks (s : Stmt α) : s.marks.head? = some s.mark := by
  cases s with
  | returning mark value => cases value <;> simp [marks, Stmt.mark]
  | bare value => simp [marks, Stmt.mark, Expr.head?_marks]
  | _ => simp [marks, Stmt.mark]

end CatScript
