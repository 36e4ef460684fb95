import Mathlib.Data.List.Basic
import CatScript.Proofs.Arena.Rows

/-! # What an arena shows

A tree stands in an arena when each of its rows is there, with parts below the whole (`Stands`).
What an arena shows of a node depends on the nodes below it alone (`grown`), so it shows a tree that
stands there (`Program.seen`), and reports what the marks of the tree report (`Program.report`). -/
set_option autoImplicit false
namespace CatScript

/-- A row is in the arena, and the parts of its node come before the node. -/
structure Stands (arena : Arena) (row : Row) : Prop where
  node : ∃ parent, arena.nodes[row.1.id]? =
    some ⟨row.2, row.1.span, parent, row.1.errors, row.1.ty⟩
  below : ∀ child ∈ row.2.children, child < row.1.id

section Growing
variable {α β : Type} {g : Array β → α → β}

theorem getElem?_grow_old (xs : List α) (below : Array β) {i : Nat} (h : i < below.size) :
    (xs.foldl (fun below x => below.push (g below x)) below)[i]? = below[i]? := by
  induction xs generalizing below with
  | nil => rfl
  | cons x rest ih =>
    rw [List.foldl_cons, ih _ (by rw [Array.size_push]; omega), Array.getElem?_push_lt h,
      Array.getElem?_eq_getElem h]

theorem size_grow (xs : List α) (below : Array β) :
    (xs.foldl (fun below x => below.push (g below x)) below).size = below.size + xs.length := by
  induction xs generalizing below with
  | nil => rfl
  | cons x rest ih =>
    rw [List.foldl_cons, ih, Array.size_push, List.length_cons]
    omega

/-- In a row that grows by what `g` makes of each element and of all that is there already, a place
holds what `g` makes of the places before it. -/
theorem grown {xs : Array α} {i : Nat} {x : α} (h : xs[i]? = some x) :
    ∃ below : Array β, below.size = i ∧
      (∀ j < i, below[j]? = (xs.foldl (fun below x => below.push (g below x)) #[])[j]?) ∧
      (xs.foldl (fun below x => below.push (g below x)) #[])[i]? = some (g below x) := by
  obtain ⟨first, last, hxs, hfirst⟩ : ∃ first last, xs.toList = first ++ x :: last ∧
      first.length = i := by
    obtain ⟨hlt, rfl⟩ := Array.getElem?_eq_some_iff.1 h
    refine ⟨xs.toList.take i, xs.toList.drop (i + 1), ?_, ?_⟩
    · rw [← Array.getElem_toList, ← List.drop_eq_getElem_cons, List.take_append_drop]
    · rw [List.length_take, Array.length_toList]
      omega
  have hsize : (first.foldl (fun below x => below.push (g below x)) #[]).size = i := by
    rw [size_grow, hfirst]
    simp only [List.size_toArray, List.length_nil, Nat.zero_add]
  rw [← Array.foldl_toList, hxs, List.foldl_append, List.foldl_cons]
  generalize first.foldl (fun below x => below.push (g below x)) #[] = below at hsize ⊢
  refine ⟨below, hsize, fun j hj => ?_, ?_⟩
  · rw [getElem?_grow_old _ _ (by rw [Array.size_push]; omega),
      Array.getElem?_push_lt (by omega), Array.getElem?_eq_getElem (by omega)]
  · rw [getElem?_grow_old _ _ (by rw [Array.size_push]; omega), Array.getElem?_push,
      if_pos hsize.symm]

end Growing

variable {arena : Arena}

theorem Stands.report {row : Row} (h : Stands arena row) :
    arena.reports[row.1.id]? =
      some (row.1.errors ++ row.2.children.flatMap fun child => arena.reports[child]?.getD []) := by
  obtain ⟨parent, hnode⟩ := h.node
  obtain ⟨below, hsize, hbelow, hreport⟩ := grown (g := Arena.reportOf) hnode
  refine hreport.trans (congrArg some ?_)
  refine congrArg (row.1.errors ++ ·) (List.flatMap_congr fun child hchild => ?_)
  exact congrArg (·.getD []) (hbelow child (h.below child hchild))

def StandAll (arena : Arena) (rows : List Row) : Prop :=
  ∀ row ∈ rows, Stands arena row

theorem StandAll.head {row : Row} {rows : List Row} (h : StandAll arena (row :: rows)) :
    Stands arena row :=
  h row List.mem_cons_self

theorem StandAll.tail {row : Row} {rows : List Row} (h : StandAll arena (row :: rows)) :
    StandAll arena rows := by
  intro other hother
  exact h other (List.mem_cons_of_mem row hother)

theorem StandAll.left {rows others : List Row} (h : StandAll arena (rows ++ others)) :
    StandAll arena rows := by
  intro row hrow
  exact h row (List.mem_append_left others hrow)

theorem StandAll.right {rows others : List Row} (h : StandAll arena (rows ++ others)) :
    StandAll arena others := by
  intro row hrow
  exact h row (List.mem_append_right rows hrow)

section Views

def exprAt (below : Array Subtree) (id : NodeId) : Expr Info :=
  match below[id]? with
  | some tree => tree.asExpr
  | none => .broken ⟨id, default, [], none⟩ ""

def stmtAt (below : Array Subtree) (id : NodeId) : Stmt Info :=
  match below[id]? with
  | some tree => tree.asStmt
  | none => .bare (exprAt below id)

def Expr.Seen (arena : Arena) (e : Expr Info) : Prop :=
  arena.views[e.mark.id]? = some (.expression e)

def Stmt.Seen (arena : Arena) (s : Stmt Info) : Prop :=
  ∃ tree, arena.views[s.mark.id]? = some tree ∧ tree.asStmt = s

/-- The arena shows a row as `below` tells, which tells what it shows of the parts. -/
structure Shown (arena : Arena) (below : Array Subtree) (row : Row) : Prop where
  view : arena.views[row.1.id]? = some (Arena.viewOf below row.1 row.2)
  parts : ∀ child ∈ row.2.children, below[child]? = arena.views[child]?

theorem Stands.shown {row : Row} (h : Stands arena row) : ∃ below, Shown arena below row := by
  obtain ⟨parent, hnode⟩ := h.node
  obtain ⟨below, hsize, hbelow, hview⟩ := grown
    (g := fun below node =>
      Arena.viewOf below ⟨below.size, node.span, node.errors, node.ty⟩ node.kind)
    hnode
  rw [hsize] at hview
  exact ⟨below, hview, fun child hchild => hbelow child (h.below child hchild)⟩

namespace Shown
variable {below : Array Subtree} {row : Row} (h : Shown arena below row)
include h

theorem expr {e : Expr Info} (he : e.Seen arena) (hmem : e.mark.id ∈ row.2.children) :
    exprAt below e.mark.id = e := by
  unfold exprAt
  rw [h.parts _ hmem, he]
  rfl

theorem stmt {s : Stmt Info} (hs : s.Seen arena) (hmem : s.mark.id ∈ row.2.children) :
    stmtAt below s.mark.id = s := by
  obtain ⟨tree, htree, hs⟩ := hs
  unfold stmtAt
  rw [h.parts _ hmem, htree]
  exact hs

theorem exprs {items : List (Expr Info)} (hitems : ∀ e ∈ items, e.Seen arena)
    (hmem : ∀ id ∈ Expr.ids items, id ∈ row.2.children) :
    (Expr.ids items).map (exprAt below) = items := by
  rw [Expr.ids, List.map_map]
  exact (List.map_congr_left fun e he =>
    h.expr (hitems e he) (hmem _ (List.mem_map_of_mem he))).trans (List.map_id _)

theorem stmts {body : List (Stmt Info)} (hbody : ∀ s ∈ body, s.Seen arena)
    (hmem : ∀ id ∈ Stmt.ids body, id ∈ row.2.children) :
    (Stmt.ids body).map (stmtAt below) = body := by
  rw [Stmt.ids, List.map_map]
  exact (List.map_congr_left fun s hs =>
    h.stmt (hbody s hs) (hmem _ (List.mem_map_of_mem hs))).trans (List.map_id _)

end Shown

mutual

theorem Expr.seen : (e : Expr Info) → StandAll arena e.rows → e.Seen arena
  | .identifier .., h | .integer .., h | .string .., h | .boolean .., h | .null _, h
  | .broken .., h => by
    obtain ⟨below, hshown⟩ := h.head.shown
    exact hshown.view
  | .list info items, h => by
    obtain ⟨below, hshown⟩ := h.head.shown
    have hitems := hshown.exprs (Expr.seenAll items h.tail) fun _ hid => hid
    exact hshown.view.trans
      (congrArg (fun items => some (Subtree.expression (.list info items))) hitems)
  | .call info name args, h => by
    obtain ⟨below, hshown⟩ := h.head.shown
    have hargs := hshown.exprs (Expr.seenAll args h.tail) fun _ hid => hid
    exact hshown.view.trans
      (congrArg (fun args => some (Subtree.expression (.call info name args))) hargs)
  | .parenthesized info inner, h => by
    obtain ⟨below, hshown⟩ := h.head.shown
    have hinner := hshown.expr (Expr.seen inner h.tail) List.mem_cons_self
    exact hshown.view.trans
      (congrArg (fun e => some (Subtree.expression (.parenthesized info e))) hinner)
  | .unary info op operand, h => by
    obtain ⟨below, hshown⟩ := h.head.shown
    have hoperand := hshown.expr (Expr.seen operand h.tail) List.mem_cons_self
    exact hshown.view.trans
      (congrArg (fun e => some (Subtree.expression (.unary info op e))) hoperand)
  | .binary info op left right, h => by
    obtain ⟨below, hshown⟩ := h.head.shown
    have hleft := hshown.expr (Expr.seen left h.tail.left) List.mem_cons_self
    have hright := hshown.expr (Expr.seen right h.tail.right)
      (List.mem_cons_of_mem _ List.mem_cons_self)
    exact hshown.view.trans
      (congrArg₂ (fun l r => some (Subtree.expression (.binary info op l r))) hleft hright)
  | .comparison info op left right, h => by
    obtain ⟨below, hshown⟩ := h.head.shown
    have hleft := hshown.expr (Expr.seen left h.tail.left) List.mem_cons_self
    have hright := hshown.expr (Expr.seen right h.tail.right)
      (List.mem_cons_of_mem _ List.mem_cons_self)
    exact hshown.view.trans
      (congrArg₂ (fun l r => some (Subtree.expression (.comparison info op l r))) hleft hright)
  | .equality info op left right, h => by
    obtain ⟨below, hshown⟩ := h.head.shown
    have hleft := hshown.expr (Expr.seen left h.tail.left) List.mem_cons_self
    have hright := hshown.expr (Expr.seen right h.tail.right)
      (List.mem_cons_of_mem _ List.mem_cons_self)
    exact hshown.view.trans
      (congrArg₂ (fun l r => some (Subtree.expression (.equality info op l r))) hleft hright)

theorem Expr.seenAll : (items : List (Expr Info)) → StandAll arena (Expr.rowsAll items) →
    ∀ e ∈ items, e.Seen arena
  | [], _ => fun _ he => (nomatch he)
  | e :: rest, h =>
    List.forall_mem_cons.2 ⟨Expr.seen e h.left, Expr.seenAll rest h.right⟩

end

theorem Stmt.Seen.of_view {s : Stmt Info} {tree : Subtree}
    (hview : arena.views[s.mark.id]? = some tree) (htree : tree = .statement s) : s.Seen arena :=
  ⟨tree, hview, by rw [htree]; rfl⟩

mutual

theorem Stmt.seen : (s : Stmt Info) → StandAll arena s.rows → s.Seen arena
  | .declaration info name ty? value, h => by
    obtain ⟨below, hshown⟩ := h.head.shown
    have hvalue := hshown.expr (Expr.seen value h.tail) List.mem_cons_self
    exact .of_view hshown.view
      (congrArg (fun e => Subtree.statement (.declaration info name ty? e)) hvalue)
  | .assignment info name value, h => by
    obtain ⟨below, hshown⟩ := h.head.shown
    have hvalue := hshown.expr (Expr.seen value h.tail) List.mem_cons_self
    exact .of_view hshown.view
      (congrArg (fun e => Subtree.statement (.assignment info name e)) hvalue)
  | .function info name params returns body, h => by
    obtain ⟨below, hshown⟩ := h.head.shown
    have hbody := hshown.stmts (Stmt.seenAll body h.tail) fun _ hid => hid
    exact .of_view hshown.view
      (congrArg (fun body => Subtree.statement (.function info name params returns body)) hbody)
  | .ifThen info condition thenBody, h => by
    obtain ⟨below, hshown⟩ := h.head.shown
    have hcondition := hshown.expr (Expr.seen condition h.tail.left) List.mem_cons_self
    have hthen := hshown.stmts (Stmt.seenAll thenBody h.tail.right)
      fun _ hid => List.mem_cons_of_mem _ hid
    exact .of_view hshown.view
      (congrArg₂ (fun e body => Subtree.statement (.ifThen info e body)) hcondition hthen)
  | .ifThenElse info condition thenBody elseBody, h => by
    obtain ⟨below, hshown⟩ := h.head.shown
    have hcondition := hshown.expr (Expr.seen condition h.tail.left.left) List.mem_cons_self
    have hthen := hshown.stmts (Stmt.seenAll thenBody h.tail.left.right)
      fun _ hid => List.mem_cons_of_mem _ (List.mem_append_left _ hid)
    have helse := hshown.stmts (Stmt.seenAll elseBody h.tail.right)
      fun _ hid => List.mem_cons_of_mem _ (List.mem_append_right _ hid)
    refine .of_view hshown.view ?_
    change Subtree.statement (.ifThenElse info (exprAt below condition.mark.id)
      ((Stmt.ids thenBody).map (stmtAt below)) ((Stmt.ids elseBody).map (stmtAt below))) = _
    rw [hcondition, hthen, helse]
  | .loop info name iterable body, h => by
    obtain ⟨below, hshown⟩ := h.head.shown
    have hiterable := hshown.expr (Expr.seen iterable h.tail.left) List.mem_cons_self
    have hbody := hshown.stmts (Stmt.seenAll body h.tail.right)
      fun _ hid => List.mem_cons_of_mem _ hid
    exact .of_view hshown.view
      (congrArg₂ (fun e body => Subtree.statement (.loop info name e body)) hiterable hbody)
  | .print info value, h => by
    obtain ⟨below, hshown⟩ := h.head.shown
    have hvalue := hshown.expr (Expr.seen value h.tail) List.mem_cons_self
    exact .of_view hshown.view (congrArg (fun e => Subtree.statement (.print info e)) hvalue)
  | .call info value, h => by
    obtain ⟨below, hshown⟩ := h.head.shown
    have hvalue := hshown.expr (Expr.seen value h.tail) List.mem_cons_self
    exact .of_view hshown.view (congrArg (fun e => Subtree.statement (.call info e)) hvalue)
  | .returning info none, h | .broken info _, h => by
    obtain ⟨below, hshown⟩ := h.head.shown
    exact .of_view hshown.view rfl
  | .returning info (some value), h => by
    obtain ⟨below, hshown⟩ := h.head.shown
    have hvalue := hshown.expr (Expr.seen value h.tail) List.mem_cons_self
    exact .of_view hshown.view
      (congrArg (fun e => Subtree.statement (.returning info (some e))) hvalue)
  | .bare value, h => ⟨.expression value, Expr.seen value h, rfl⟩

theorem Stmt.seenAll : (body : List (Stmt Info)) → StandAll arena (Stmt.rowsAll body) →
    ∀ s ∈ body, s.Seen arena
  | [], _ => fun _ hs => (nomatch hs)
  | s :: rest, h =>
    List.forall_mem_cons.2 ⟨Stmt.seen s h.left, Stmt.seenAll rest h.right⟩

end

theorem Program.seen (p : Program Info) (h : StandAll arena p.rows) :
    arena.views[p.mark.id]? = some (.program p) := by
  cases p with
  | expression info body =>
    obtain ⟨below, hshown⟩ := h.head.shown
    have hbody := hshown.expr (Expr.seen body h.tail) List.mem_cons_self
    exact hshown.view.trans
      (congrArg (fun e => some (Subtree.program (.expression info e))) hbody)
  | statements info body =>
    obtain ⟨below, hshown⟩ := h.head.shown
    have hbody := hshown.stmts (Stmt.seenAll body h.tail) fun _ hid => hid
    exact hshown.view.trans
      (congrArg (fun body => some (Subtree.program (.statements info body))) hbody)

end Views

section Reports

def troubles (rows : List Row) : List Diagnostic :=
  rows.flatMap fun row => row.1.errors

theorem troubles_append (rows others : List Row) :
    troubles (rows ++ others) = troubles rows ++ troubles others :=
  List.flatMap_append

def reportAt (arena : Arena) (id : NodeId) : List Diagnostic :=
  arena.reports[id]?.getD []

theorem Stands.report_eq {info : Info} {kind : NodeKind} {rest : List Row}
    (h : Stands arena (info, kind)) (hrest : kind.children.flatMap (reportAt arena) = troubles rest) :
    arena.reports[info.id]? = some (troubles ((info, kind) :: rest)) := by
  have hbelow : kind.children.flatMap (fun child => arena.reports[child]?.getD []) =
      troubles rest := hrest
  rw [h.report, hbelow]
  rfl

theorem reportAt_eq {id : NodeId} {report : List Diagnostic}
    (h : arena.reports[id]? = some report) : reportAt arena id = report := by
  rw [reportAt, h]
  rfl

mutual

theorem Expr.report : (e : Expr Info) → StandAll arena e.rows →
    arena.reports[e.mark.id]? = some (troubles e.rows)
  | .identifier .., h | .integer .., h | .string .., h | .boolean .., h | .null _, h
  | .broken .., h => h.head.report_eq rfl
  | .list _ items, h | .call _ _ items, h => h.head.report_eq (Expr.reportAll items h.tail)
  | .parenthesized _ inner, h | .unary _ _ inner, h => by
    refine h.head.report_eq ?_
    simp only [NodeKind.children, List.flatMap_cons, List.flatMap_nil, List.append_nil]
    exact reportAt_eq (Expr.report inner h.tail)
  | .binary _ _ left right, h | .comparison _ _ left right, h | .equality _ _ left right, h => by
    refine h.head.report_eq ?_
    simp only [NodeKind.children, List.flatMap_cons, List.flatMap_nil, List.append_nil,
      troubles_append]
    rw [reportAt_eq (Expr.report left h.tail.left), reportAt_eq (Expr.report right h.tail.right)]

theorem Expr.reportAll : (items : List (Expr Info)) → StandAll arena (Expr.rowsAll items) →
    (Expr.ids items).flatMap (reportAt arena) = troubles (Expr.rowsAll items)
  | [], _ => rfl
  | e :: rest, h => by
    have hrest := Expr.reportAll rest h.right
    simp only [Expr.ids, Expr.rowsAll, List.map_cons, List.flatMap_cons, troubles_append] at hrest ⊢
    rw [reportAt_eq (Expr.report e h.left), hrest]

end

mutual

theorem Stmt.report : (s : Stmt Info) → StandAll arena s.rows →
    arena.reports[s.mark.id]? = some (troubles s.rows)
  | .declaration _ _ _ value, h | .assignment _ _ value, h | .print _ value, h | .call _ value, h
  | .returning _ (some value), h => by
    refine h.head.report_eq ?_
    simp only [NodeKind.children, Option.toList, List.flatMap_cons, List.flatMap_nil,
      List.append_nil]
    exact reportAt_eq (Expr.report value h.tail)
  | .function _ _ _ _ body, h => h.head.report_eq (Stmt.reportAll body h.tail)
  | .ifThen _ condition body, h | .loop _ _ condition body, h => by
    refine h.head.report_eq ?_
    simp only [NodeKind.children, List.flatMap_cons, troubles_append]
    rw [reportAt_eq (Expr.report condition h.tail.left), Stmt.reportAll body h.tail.right]
  | .ifThenElse _ condition thenBody elseBody, h => by
    refine h.head.report_eq ?_
    simp only [NodeKind.children, List.flatMap_cons, List.flatMap_append, troubles_append,
      List.append_assoc]
    rw [reportAt_eq (Expr.report condition h.tail.left.left),
      Stmt.reportAll thenBody h.tail.left.right, Stmt.reportAll elseBody h.tail.right]
  | .returning _ none, h | .broken .., h => h.head.report_eq rfl
  | .bare value, h => Expr.report value h

theorem Stmt.reportAll : (body : List (Stmt Info)) → StandAll arena (Stmt.rowsAll body) →
    (Stmt.ids body).flatMap (reportAt arena) = troubles (Stmt.rowsAll body)
  | [], _ => rfl
  | s :: rest, h => by
    have hrest := Stmt.reportAll rest h.right
    simp only [Stmt.ids, Stmt.rowsAll, List.map_cons, List.flatMap_cons, troubles_append] at hrest ⊢
    rw [reportAt_eq (Stmt.report s h.left), hrest]

end

theorem Program.report (p : Program Info) (h : StandAll arena p.rows) :
    arena.reports[p.mark.id]? = some (troubles p.rows) := by
  cases p with
  | expression info body =>
    refine h.head.report_eq ?_
    simp only [NodeKind.children, List.flatMap_cons, List.flatMap_nil, List.append_nil]
    exact reportAt_eq (Expr.report body h.tail)
  | statements info body => exact h.head.report_eq (Stmt.reportAll body h.tail)

end Reports
end CatScript
