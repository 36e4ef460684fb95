import CatScript.Arena.Report
import CatScript.Arena.View
import CatScript.Proofs.Tree.Whole

/-! # The rows of a tree

A tree whose marks say where its nodes stand is a list of rows, one for each node, a node's own
before those of its parts.  The rows carry the marks of the tree in their order (`Program.rows_marks`)
and change with them (`Program.rows_map`). -/
set_option autoImplicit false
namespace CatScript

/-- What an arena knows of a node, and what the node is. -/
abbrev Row := Info × NodeKind

def Expr.ids (items : List (Expr Info)) : List NodeId :=
  items.map fun e => e.mark.id

def Stmt.ids (body : List (Stmt Info)) : List NodeId :=
  body.map fun s => s.mark.id

mutual

def Expr.rows : Expr Info → List Row
  | .identifier info name => [(info, .identifier name)]
  | .integer info value => [(info, .integer value)]
  | .string info text => [(info, .string text)]
  | .boolean info value => [(info, .boolean value)]
  | .null info => [(info, .null)]
  | .list info items => (info, .list (Expr.ids items)) :: Expr.rowsAll items
  | .parenthesized info inner => (info, .parenthesized inner.mark.id) :: inner.rows
  | .unary info op operand => (info, .unary op operand.mark.id) :: operand.rows
  | .binary info op left right =>
    (info, .binary op left.mark.id right.mark.id) :: (left.rows ++ right.rows)
  | .comparison info op left right =>
    (info, .comparison op left.mark.id right.mark.id) :: (left.rows ++ right.rows)
  | .equality info op left right =>
    (info, .equality op left.mark.id right.mark.id) :: (left.rows ++ right.rows)
  | .call info name args => (info, .call name (Expr.ids args)) :: Expr.rowsAll args
  | .broken info text => [(info, .brokenExpression text)]

def Expr.rowsAll : List (Expr Info) → List Row
  | [] => []
  | e :: rest => e.rows ++ Expr.rowsAll rest

end

mutual

def Stmt.rows : Stmt Info → List Row
  | .declaration info name ty? value => (info, .declaration name ty? value.mark.id) :: value.rows
  | .assignment info name value => (info, .assignment name value.mark.id) :: value.rows
  | .function info name params returns body =>
    (info, .function name params returns (Stmt.ids body)) :: Stmt.rowsAll body
  | .ifThen info condition thenBody =>
    (info, .ifThen condition.mark.id (Stmt.ids thenBody)) ::
      (condition.rows ++ Stmt.rowsAll thenBody)
  | .ifThenElse info condition thenBody elseBody =>
    (info, .ifThenElse condition.mark.id (Stmt.ids thenBody) (Stmt.ids elseBody)) ::
      (condition.rows ++ Stmt.rowsAll thenBody ++ Stmt.rowsAll elseBody)
  | .loop info name iterable body =>
    (info, .loop name iterable.mark.id (Stmt.ids body)) :: (iterable.rows ++ Stmt.rowsAll body)
  | .print info value => (info, .print value.mark.id) :: value.rows
  | .call info value => (info, .callStatement value.mark.id) :: value.rows
  | .returning info none => [(info, .returning none)]
  | .returning info (some value) => (info, .returning (some value.mark.id)) :: value.rows
  | .broken info text => [(info, .brokenStatement text)]
  | .bare value => value.rows

def Stmt.rowsAll : List (Stmt Info) → List Row
  | [] => []
  | s :: rest => s.rows ++ Stmt.rowsAll rest

end

def Program.rows : Program Info → List Row
  | .expression info body => (info, .expressionProgram body.mark.id) :: body.rows
  | .statements info body => (info, .statementProgram (Stmt.ids body)) :: Stmt.rowsAll body

section Marks

mutual

theorem Expr.rows_marks : (e : Expr Info) → e.rows.map Prod.fst = e.marks
  | .identifier .. | .integer .. | .string .. | .boolean .. | .null _ | .broken .. => rfl
  | .list _ items | .call _ _ items => by
    simp only [Expr.rows, Expr.marks, List.map_cons, Expr.rowsAll_marks items]
  | .parenthesized _ inner | .unary _ _ inner => by
    simp only [Expr.rows, Expr.marks, List.map_cons, Expr.rows_marks inner]
  | .binary _ _ left right | .comparison _ _ left right | .equality _ _ left right => by
    simp only [Expr.rows, Expr.marks, List.map_cons, List.map_append, Expr.rows_marks left,
      Expr.rows_marks right]

theorem Expr.rowsAll_marks : (items : List (Expr Info)) →
    (Expr.rowsAll items).map Prod.fst = Expr.marksAll items
  | [] => rfl
  | e :: rest => by
    simp only [Expr.rowsAll, Expr.marksAll, List.map_append, Expr.rows_marks e,
      Expr.rowsAll_marks rest]

end

mutual

theorem Stmt.rows_marks : (s : Stmt Info) → s.rows.map Prod.fst = s.marks
  | .declaration _ _ _ value | .assignment _ _ value | .print _ value | .call _ value
  | .returning _ (some value) => by
    simp only [Stmt.rows, Stmt.marks, List.map_cons, Expr.rows_marks value]
  | .bare value => by simp only [Stmt.rows, Stmt.marks, Expr.rows_marks value]
  | .function _ _ _ _ body => by
    simp only [Stmt.rows, Stmt.marks, List.map_cons, Stmt.rowsAll_marks body]
  | .ifThen _ condition body | .loop _ _ condition body => by
    simp only [Stmt.rows, Stmt.marks, List.map_cons, List.map_append, Expr.rows_marks condition,
      Stmt.rowsAll_marks body]
  | .ifThenElse _ condition thenBody elseBody => by
    simp only [Stmt.rows, Stmt.marks, List.map_cons, List.map_append, Expr.rows_marks condition,
      Stmt.rowsAll_marks thenBody, Stmt.rowsAll_marks elseBody]
  | .returning _ none | .broken .. => rfl

theorem Stmt.rowsAll_marks : (body : List (Stmt Info)) →
    (Stmt.rowsAll body).map Prod.fst = Stmt.marksAll body
  | [] => rfl
  | s :: rest => by
    simp only [Stmt.rowsAll, Stmt.marksAll, List.map_append, Stmt.rows_marks s,
      Stmt.rowsAll_marks rest]

end

theorem Program.rows_marks (p : Program Info) : p.rows.map Prod.fst = p.marks := by
  cases p with
  | expression info body =>
    simp only [Program.rows, Program.marks, List.map_cons, Expr.rows_marks]
  | statements info body =>
    simp only [Program.rows, Program.marks, List.map_cons, Stmt.rowsAll_marks]

end Marks

section Kinds

mutual

theorem Expr.isExpression_of_mem : (e : Expr Info) → ∀ row ∈ e.rows, row.2.isExpression = true
  | .identifier .. | .integer .. | .string .. | .boolean .. | .null _ | .broken .. =>
    List.forall_mem_singleton.2 rfl
  | .list _ items | .call _ _ items =>
    List.forall_mem_cons.2 ⟨rfl, Expr.isExpression_of_mem_all items⟩
  | .parenthesized _ inner | .unary _ _ inner =>
    List.forall_mem_cons.2 ⟨rfl, Expr.isExpression_of_mem inner⟩
  | .binary _ _ left right | .comparison _ _ left right | .equality _ _ left right =>
    List.forall_mem_cons.2 ⟨rfl, List.forall_mem_append.2
      ⟨Expr.isExpression_of_mem left, Expr.isExpression_of_mem right⟩⟩

theorem Expr.isExpression_of_mem_all : (items : List (Expr Info)) →
    ∀ row ∈ Expr.rowsAll items, row.2.isExpression = true
  | [] => List.forall_mem_nil _
  | e :: rest => List.forall_mem_append.2
    ⟨Expr.isExpression_of_mem e, Expr.isExpression_of_mem_all rest⟩

end

end Kinds

section Map
variable {f : Info → Info}

theorem Expr.ids_map (hid : ∀ info, (f info).id = info.id) (items : List (Expr Info)) :
    Expr.ids (Expr.mapAll f items) = Expr.ids items := by
  induction items with
  | nil => rfl
  | cons e rest ih =>
    simp only [Expr.ids, Expr.mapAll, List.map_cons, Expr.mark_map, hid] at ih ⊢
    rw [ih]

theorem Stmt.ids_map (hid : ∀ info, (f info).id = info.id) (body : List (Stmt Info)) :
    Stmt.ids (Stmt.mapAll f body) = Stmt.ids body := by
  induction body with
  | nil => rfl
  | cons s rest ih =>
    simp only [Stmt.ids, Stmt.mapAll, List.map_cons, Stmt.mark_map, hid] at ih ⊢
    rw [ih]

mutual

theorem Expr.rows_map (hid : ∀ info, (f info).id = info.id) :
    (e : Expr Info) → (e.map f).rows = e.rows.map (Prod.map f id)
  | .identifier .. | .integer .. | .string .. | .boolean .. | .null _ | .broken .. => rfl
  | .list _ items | .call _ _ items => by
    simp only [Expr.map, Expr.rows, List.map_cons, Prod.map, id, Expr.ids_map hid,
      Expr.rowsAll_map hid items]
  | .parenthesized _ inner | .unary _ _ inner => by
    simp only [Expr.map, Expr.rows, List.map_cons, Prod.map, id, Expr.mark_map, hid,
      Expr.rows_map hid inner]
  | .binary _ _ left right | .comparison _ _ left right | .equality _ _ left right => by
    simp only [Expr.map, Expr.rows, List.map_cons, List.map_append, Prod.map, id, Expr.mark_map,
      hid, Expr.rows_map hid left, Expr.rows_map hid right]

theorem Expr.rowsAll_map (hid : ∀ info, (f info).id = info.id) :
    (items : List (Expr Info)) →
    Expr.rowsAll (Expr.mapAll f items) = (Expr.rowsAll items).map (Prod.map f id)
  | [] => rfl
  | e :: rest => by
    simp only [Expr.mapAll, Expr.rowsAll, List.map_append, Expr.rows_map hid e,
      Expr.rowsAll_map hid rest]

end

mutual

theorem Stmt.rows_map (hid : ∀ info, (f info).id = info.id) :
    (s : Stmt Info) → (s.map f).rows = s.rows.map (Prod.map f id)
  | .declaration _ _ _ value | .assignment _ _ value | .print _ value | .call _ value
  | .returning _ (some value) => by
    simp only [Stmt.map, Stmt.rows, List.map_cons, Prod.map, id, Expr.mark_map, hid,
      Expr.rows_map hid value]
  | .bare value => by simp only [Stmt.map, Stmt.rows, Expr.rows_map hid value]
  | .function _ _ _ _ body => by
    simp only [Stmt.map, Stmt.rows, List.map_cons, Prod.map, id, Stmt.ids_map hid,
      Stmt.rowsAll_map hid body]
  | .ifThen _ condition body | .loop _ _ condition body => by
    simp only [Stmt.map, Stmt.rows, List.map_cons, List.map_append, Prod.map, id, Expr.mark_map,
      hid, Stmt.ids_map hid, Expr.rows_map hid condition, Stmt.rowsAll_map hid body]
  | .ifThenElse _ condition thenBody elseBody => by
    simp only [Stmt.map, Stmt.rows, List.map_cons, List.map_append, Prod.map, id, Expr.mark_map,
      hid, Stmt.ids_map hid, Expr.rows_map hid condition, Stmt.rowsAll_map hid thenBody,
      Stmt.rowsAll_map hid elseBody]
  | .returning _ none | .broken .. => rfl

theorem Stmt.rowsAll_map (hid : ∀ info, (f info).id = info.id) :
    (body : List (Stmt Info)) →
    Stmt.rowsAll (Stmt.mapAll f body) = (Stmt.rowsAll body).map (Prod.map f id)
  | [] => rfl
  | s :: rest => by
    simp only [Stmt.mapAll, Stmt.rowsAll, List.map_append, Stmt.rows_map hid s,
      Stmt.rowsAll_map hid rest]

end

theorem Program.rows_map (hid : ∀ info, (f info).id = info.id) (p : Program Info) :
    (p.map f).rows = p.rows.map (Prod.map f id) := by
  cases p with
  | expression info body =>
    simp only [Program.map, Program.rows, List.map_cons, Prod.map, id, Expr.mark_map, hid,
      Expr.rows_map hid body]
  | statements info body =>
    simp only [Program.map, Program.rows, List.map_cons, Prod.map, id, Stmt.ids_map hid,
      Stmt.rowsAll_map hid body]

end Map
end CatScript
