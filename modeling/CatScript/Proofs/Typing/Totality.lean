import Mathlib.Data.List.Forall2
import CatScript.Proofs.Arena.Rows
import CatScript.Proofs.Typing.Shape

/-! # Typing goes through

Typing a tree without types is no fault.  Every node of the tree gets a type but what could not be
read as an expression, and keeps what was reported of it (`Typing.program_total`). -/
set_option autoImplicit false
namespace CatScript

/-- Problems may have been added to what was known of a node, and nothing else is new. -/
structure Info.Grows (info now : Info) : Prop where
  id : now.id = info.id
  span : now.span = info.span
  ty : now.ty = info.ty
  errors : info.errors <+: now.errors

namespace Info.Grows
variable {info now : Info}

theorem refl (info : Info) : info.Grows info :=
  ⟨rfl, rfl, rfl, List.prefix_rfl⟩

theorem bare (h : info.Grows now) : now.bare = info.bare := by
  simp only [Info.bare, h.id, h.span]

theorem report (h : info.Grows now) (diagnostic : Diagnostic) :
    info.Grows { now with errors := now.errors ++ [diagnostic] } :=
  ⟨h.id, h.span, h.ty, h.errors.trans (List.prefix_append _ _)⟩

theorem reportIf (h : info.Grows now) (wrong : Bool) (diagnostic : Diagnostic) :
    info.Grows (if wrong then { now with errors := now.errors ++ [diagnostic] } else now) := by
  split
  · exact h.report diagnostic
  · exact h

theorem flag (h : info.Grows now) (problem : Problem) : info.Grows (now.flag problem) :=
  h.report _

theorem flagIf (h : info.Grows now) (wrong : Bool) (problem : Problem) :
    info.Grows (now.flagIf wrong problem) :=
  h.reportIf wrong _

theorem flagTimes (h : info.Grows now) (problem : Problem) (times : Nat) :
    info.Grows (Typing.flagTimes problem times now) := by
  induction times generalizing now with
  | zero => exact h
  | succ times ih => exact ih (h.flag problem)

theorem settle (h : info.Grows now) (hty : info.ty = none) (ty : Ty) :
    now.settle ty = .ok { now with ty := some ty } := by
  unfold Info.settle
  rw [h.ty, hty]
  rfl

end Info.Grows

/-- A node is typed unless it is no expression, and nothing that was reported of it is lost. -/
structure Checked (info : Info) (row : Row) : Prop where
  id : row.1.id = info.id
  errors : info.errors <+: row.1.errors
  ty : row.1.ty = none ↔ ∃ text, row.2 = .brokenExpression text

def CheckedAll (marks : List Info) (rows : List Row) : Prop :=
  List.Forall₂ Checked marks rows

def Untyped (marks : List Info) : Prop :=
  ∀ info ∈ marks, info.ty = none

section Checked
variable {info now : Info} {marks others : List Info} {rows more : List Row}

theorem Untyped.head (h : Untyped (info :: marks)) : info.ty = none :=
  h info List.mem_cons_self

theorem Untyped.tail (h : Untyped (info :: marks)) : Untyped marks := by
  intro other hother
  exact h other (List.mem_cons_of_mem info hother)

theorem Untyped.left (h : Untyped (marks ++ others)) : Untyped marks := by
  intro info hinfo
  exact h info (List.mem_append_left others hinfo)

theorem Untyped.right (h : Untyped (marks ++ others)) : Untyped others := by
  intro info hinfo
  exact h info (List.mem_append_right marks hinfo)

theorem CheckedAll.append (h : CheckedAll marks rows) (h' : CheckedAll others more) :
    CheckedAll (marks ++ others) (rows ++ more) :=
  List.rel_append h h'

theorem CheckedAll.settled (h : CheckedAll marks rows) (hgrows : info.Grows now) (ty : Ty)
    {kind : NodeKind} (hkind : ∀ text, kind ≠ .brokenExpression text) :
    CheckedAll (info :: marks) (({ now with ty := some ty }, kind) :: rows) := by
  refine List.Forall₂.cons ⟨hgrows.id, hgrows.errors, ?_⟩ h
  constructor
  · intro hnone
    cases hnone
  · rintro ⟨text, htext⟩
    exact absurd htext (hkind text)

/-- Problems that are added before a node is checked may have been there before. -/
theorem CheckedAll.of_grown (h : CheckedAll others rows)
    (hgrows : List.Forall₂ Info.Grows marks others) : CheckedAll marks rows := by
  induction hgrows generalizing rows with
  | nil => exact h
  | cons hfirst hrest ih =>
    cases h with
    | cons hchecked hothers =>
      refine List.Forall₂.cons ⟨?_, ?_, hchecked.ty⟩ (ih hothers)
      · exact hchecked.id.trans hfirst.id
      · exact hfirst.errors.trans hchecked.errors

theorem CheckedAll.row_of_mem (h : CheckedAll marks rows) (hinfo : info ∈ marks) :
    ∃ row ∈ rows, Checked info row := by
  induction h with
  | nil => cases hinfo
  | cons hfirst hrest ih =>
    rcases List.mem_cons.1 hinfo with rfl | hinfo
    · exact ⟨_, List.mem_cons_self, hfirst⟩
    · obtain ⟨row, hrow, hchecked⟩ := ih hinfo
      exact ⟨row, List.mem_cons_of_mem _ hrow, hchecked⟩

theorem CheckedAll.clean (h : CheckedAll marks rows) (hclean : ∀ row ∈ rows, row.1.errors = []) :
    ∀ info ∈ marks, info.errors = [] := by
  intro info hinfo
  obtain ⟨row, hrow, hchecked⟩ := h.row_of_mem hinfo
  have herrors := hchecked.errors
  rw [hclean row hrow] at herrors
  exact List.prefix_nil.1 herrors

theorem CheckedAll.flagHead (h : CheckedAll marks rows) (wrong : Bool) (problem : Problem) :
    CheckedAll marks (rows.modifyHead (Prod.map (·.flagIf wrong problem) id)) := by
  cases h with
  | nil => exact .nil
  | @cons info row marks rows hchecked hothers =>
    have hgrown := (Info.Grows.refl row.1).flagIf wrong problem
    refine List.Forall₂.cons ⟨?_, ?_, ?_⟩ hothers
    · exact hgrown.id.trans hchecked.id
    · exact hchecked.errors.trans hgrown.errors
    · exact (Eq.congr hgrown.ty rfl).trans hchecked.ty

theorem Expr.rows_adjust (change : Info → Info) (e : Expr Info) :
    (e.adjust change).rows = e.rows.modifyHead (Prod.map change id) := by
  cases e <;> simp [adjust, rows]

end Checked

namespace Typing

def Typed.Checks (e : Expr Info) (typed : Typed) : Prop :=
  CheckedAll e.marks typed.expr.rows

namespace Typed.Checks
variable {e : Expr Info} {typed : Typed}

theorem flagIf (h : Checks e typed) (wrong : Bool) (problem : Problem) :
    Checks e (typed.flagIf wrong problem) := by
  have hrows : (typed.flagIf wrong problem).expr.rows =
      typed.expr.rows.modifyHead (Prod.map (·.flagIf wrong problem) id) := Expr.rows_adjust _ _
  unfold Checks
  rw [hrows]
  exact CheckedAll.flagHead h wrong problem

theorem expect (h : Checks e typed) (ty : Ty) : Checks e (typed.expect ty) :=
  h.flagIf _ _

theorem fit (h : Checks e typed) (target : Ty) : Checks e (typed.fit target) :=
  h.flagIf _ _

theorem asValue (h : Checks e typed) : Checks e typed.asValue :=
  h.flagIf _ _

end Typed.Checks

section Lists
variable {items : List (Expr Info)} {values : List Typed}

theorem checks_asValue (h : List.Forall₂ Typed.Checks items values) :
    List.Forall₂ Typed.Checks items (values.map Typed.asValue) := by
  induction h with
  | nil => exact .nil
  | cons hfirst hrest ih => exact .cons hfirst.asValue ih

theorem checkedAll_rowsAll (h : List.Forall₂ Typed.Checks items values) :
    CheckedAll (Expr.marksAll items) (Expr.rowsAll (values.map Typed.expr)) := by
  induction h with
  | nil => exact .nil
  | cons hfirst hrest ih => exact CheckedAll.append hfirst ih

theorem checkedAll_fitAll (h : List.Forall₂ Typed.Checks items values) (params : List Ty) :
    CheckedAll (Expr.marksAll items) (Expr.rowsAll (fitAll values params)) := by
  induction h generalizing params with
  | nil => exact .nil
  | cons hfirst hrest ih =>
    cases params with
    | nil => exact CheckedAll.append hfirst (checkedAll_rowsAll hrest)
    | cons param params => exact CheckedAll.append (hfirst.fit param) (ih params)

end Lists

theorem exists_bind {ε α β : Type} {x : Except ε α} {f : α → Except ε β} {a : α} {P : β → Prop}
    (h : x = .ok a) (hf : ∃ b, f a = .ok b ∧ P b) : ∃ b, (x >>= f) = .ok b ∧ P b := by
  rw [h]
  exact hf

theorem settled_total {ty : Ty} {info now : Info} {build : Info → Expr Info} {marks : List Info}
    {rows : List Row} {kind : NodeKind} (hgrows : info.Grows now) (hty : info.ty = none)
    (hrows : ∀ mark, (build mark).rows = (mark, kind) :: rows)
    (hkind : ∀ text, kind ≠ .brokenExpression text) (h : CheckedAll marks rows) :
    ∃ typed, settled ty now build = .ok typed ∧
      CheckedAll (info :: marks) typed.expr.rows := by
  refine exists_bind (hgrows.settle hty ty) ⟨_, rfl, ?_⟩
  rw [hrows]
  exact h.settled hgrows ty hkind

mutual

/-- Typing an expression is no fault. -/
theorem expression_total (symbols : Symbols) : (e : Expr Info) → Untyped e.marks →
    ∃ typed, expression symbols e = .ok typed ∧ Typed.Checks e typed
  | .broken info text, h => by
    have hty := h.head
    refine ⟨⟨none, .broken info text⟩, rfl, List.Forall₂.cons ⟨rfl, List.prefix_rfl, ?_⟩ .nil⟩
    simp [hty]
  | .identifier info name, h => by
    rw [expression]
    cases symbols.typeOf? name with
    | none => exact settled_total ((Info.Grows.refl info).flag _) h.head (fun _ => rfl) nofun .nil
    | some ty => exact settled_total (.refl info) h.head (fun _ => rfl) nofun .nil
  | .integer info _, h | .string info _, h | .boolean info _, h | .null info, h =>
    settled_total (.refl info) h.head (fun _ => rfl) nofun .nil
  | .list info items, h => by
    obtain ⟨values, hvalues, hchecks⟩ := expressions_total symbols items h.tail
    have hrows := checkedAll_rowsAll (checks_asValue hchecks)
    exact exists_bind hvalues (settled_total (.refl info) h.head (fun _ => rfl) nofun hrows)
  | .parenthesized info inner, h => by
    obtain ⟨value, hvalue, hchecks⟩ := expression_total symbols inner h.tail
    exact exists_bind hvalue (settled_total (.refl info) h.head (fun _ => rfl) nofun hchecks)
  | .unary info op operand, h => by
    obtain ⟨value, hvalue, hchecks⟩ := expression_total symbols operand h.tail
    have hrows := hchecks.expect (operandType op)
    exact exists_bind hvalue (settled_total (.refl info) h.head (fun _ => rfl) nofun hrows)
  | .binary info op left right, h => by
    obtain ⟨a, ha, hleft⟩ := expression_total symbols left h.tail.left
    obtain ⟨b, hb, hright⟩ := expression_total symbols right h.tail.right
    refine exists_bind ha (exists_bind hb ?_)
    split
    · have hrows := hleft.asValue.append hright.asValue
      exact settled_total (.refl info) h.head (fun _ => rfl) nofun hrows
    · have hrows := (hleft.expect .int).append (hright.expect .int)
      exact settled_total (.refl info) h.head (fun _ => rfl) nofun hrows
  | .comparison info op left right, h => by
    obtain ⟨a, ha, hleft⟩ := expression_total symbols left h.tail.left
    obtain ⟨b, hb, hright⟩ := expression_total symbols right h.tail.right
    have hrows := (hleft.expect .int).append (hright.expect .int)
    refine exists_bind ha (exists_bind hb ?_)
    exact settled_total (.refl info) h.head (fun _ => rfl) nofun hrows
  | .equality info op left right, h => by
    obtain ⟨a, ha, hleft⟩ := expression_total symbols left h.tail.left
    obtain ⟨b, hb, hright⟩ := expression_total symbols right h.tail.right
    have hrows := hleft.asValue.append hright.asValue
    refine exists_bind ha (exists_bind hb ?_)
    exact settled_total (.refl info) h.head (fun _ => rfl) nofun hrows
  | .call info name args, h => by
    obtain ⟨values, hvalues, hchecks⟩ := expressions_total symbols args h.tail
    refine exists_bind hvalues ?_
    split
    · have hgrows := (Info.Grows.refl info).flag .unknownName
      have hrows := checkedAll_rowsAll hchecks
      exact settled_total hgrows h.head (fun _ => rfl) nofun hrows
    · rename_i signature hsignature
      have hgrows := (Info.Grows.refl info).flagIf
        (signature.params.length != values.length) .argMismatch
      have hrows := checkedAll_fitAll hchecks signature.params
      exact settled_total hgrows h.head (fun _ => rfl) nofun hrows

theorem expressions_total (symbols : Symbols) : (items : List (Expr Info)) →
    Untyped (Expr.marksAll items) → ∃ values, expressions symbols items = .ok values ∧
      List.Forall₂ Typed.Checks items values
  | [], _ => ⟨[], rfl, .nil⟩
  | e :: rest, h => by
    obtain ⟨first, hfirst, hchecks⟩ := expression_total symbols e h.left
    obtain ⟨others, hothers, hrest⟩ := expressions_total symbols rest h.right
    exact exists_bind hfirst (exists_bind hothers ⟨_, rfl, .cons hchecks hrest⟩)

end

theorem returning_checks (expected : Option Ty) (info : Info) {value : Expr Info} {typed : Typed}
    (h : Typed.Checks value typed) : ∃ now, info.Grows now ∧ ∃ kept, Typed.Checks value kept ∧
      returning expected info (some typed) = (now, some kept) := by
  have hrefl := Info.Grows.refl info
  cases expected with
  | none => exact ⟨info, hrefl, typed, h, rfl⟩
  | some ty =>
    cases ty with
    | void => exact ⟨_, hrefl.flag _, typed, h, rfl⟩
    | _ => exact ⟨info, hrefl, _, h.fit _, rfl⟩

theorem returning_grows (expected : Option Ty) (info : Info) :
    info.Grows (returning expected info none).1 := by
  have hrefl := Info.Grows.refl info
  unfold returning
  split
  · exact hrefl
  · exact hrefl.flag _
  · exact hrefl
  · exact hrefl.flagIf _ _

section Statements
variable {reported : Info → Prop}

def Goes {α : Type} (rows : α → List Row) (marks : List Info)
    (outcome : Except Fault (Symbols × α)) : Prop :=
  ∃ result, outcome = .ok result ∧ CheckedAll marks (rows result.2)

theorem Goes.settled {ty : Ty} {info now : Info} {symbols : Symbols} {build : Info → Stmt Info}
    {marks : List Info} {rows : List Row} {kind : NodeKind} (hgrows : info.Grows now)
    (hty : info.ty = none) (hrows : ∀ mark, (build mark).rows = (mark, kind) :: rows)
    (hkind : ∀ text, kind ≠ .brokenExpression text) (h : CheckedAll marks rows) :
    Goes Stmt.rows (info :: marks) do return (symbols, build (← now.settle ty)) := by
  refine exists_bind (hgrows.settle hty ty) ⟨_, rfl, ?_⟩
  dsimp only
  rw [hrows]
  exact h.settled hgrows ty hkind

mutual

/-- Typing a statement is no fault where it is known what a function around it returns. -/
theorem statement_total {inFunction : Bool} : (s : Stmt Info) → Untyped s.marks →
    s.Whole reported inFunction → {around : Surroundings} → {expected : Option Ty} →
    around.returnType = .ok expected → (symbols : Symbols) →
    Goes Stmt.rows s.marks (statement around symbols s)
  | .declaration info name ty? value, h, _, around, _, _, symbols => by
    obtain ⟨typed, htyped, hchecks⟩ := expression_total symbols value h.tail
    have hgrows := Info.Grows.refl info
    refine exists_bind htyped ?_
    exact Goes.settled ((hgrows.flagIf _ _).flagIf _ _) h.head (fun _ => rfl) nofun hchecks.asValue
  | .assignment info name value, h, _, around, _, _, symbols => by
    obtain ⟨typed, htyped, hchecks⟩ := expression_total symbols value h.tail
    have hgrows := Info.Grows.refl info
    refine exists_bind htyped ?_
    split
    · exact Goes.settled hgrows h.head (fun _ => rfl) nofun (hchecks.fit _)
    · exact Goes.settled (hgrows.flag _) h.head (fun _ => rfl) nofun hchecks
  | .function info name params returns body, h, hwhole, around, _, _, symbols => by
    obtain ⟨inner, hinner, hchecked⟩ := statements_total body h.tail hwhole.2.2
      (rfl : (Surroundings.ofFunction returns).returnType = _)
      (bindParameters symbols.enter params).1
    have hgrows := ((Info.Grows.refl info).flagIf (!around.topLevel) .nestedFunction).flagTimes
      .duplicateName (bindParameters symbols.enter params).2
    refine exists_bind hinner ?_
    exact Goes.settled (hgrows.flagIf _ _) h.head (fun _ => rfl) nofun hchecked
  | .ifThen info condition body, h, hwhole, around, expected, haround, symbols => by
    have hinside : around.inside.returnType = .ok expected := haround
    obtain ⟨typed, htyped, hchecks⟩ := expression_total symbols condition h.tail.left
    obtain ⟨inner, hinner, hchecked⟩ :=
      statements_total body h.tail.right hwhole.2 hinside symbols.enter
    refine exists_bind htyped (exists_bind hinner ?_)
    have hrows := (hchecks.expect .boolean).append hchecked
    exact Goes.settled (.refl info) h.head (fun _ => rfl) nofun hrows
  | .ifThenElse info condition thenBody elseBody, h, hwhole, around, expected, haround, symbols => by
    have hinside : around.inside.returnType = .ok expected := haround
    obtain ⟨typed, htyped, hchecks⟩ := expression_total symbols condition h.tail.left.left
    obtain ⟨first, hfirst, hthen⟩ :=
      statements_total thenBody h.tail.left.right hwhole.2.1 hinside symbols.enter
    obtain ⟨second, hsecond, helse⟩ :=
      statements_total elseBody h.tail.right hwhole.2.2 hinside symbols.enter
    refine exists_bind htyped (exists_bind hfirst (exists_bind hsecond ?_))
    have hrows := ((hchecks.expect .boolean).append hthen).append helse
    exact Goes.settled (.refl info) h.head (fun _ => rfl) nofun hrows
  | .loop info name iterable body, h, hwhole, around, expected, haround, symbols => by
    have hinside : around.inside.returnType = .ok expected := haround
    obtain ⟨typed, htyped, hchecks⟩ := expression_total symbols iterable h.tail.left
    refine exists_bind htyped ?_
    obtain ⟨inner, hinner, hchecked⟩ := statements_total body h.tail.right hwhole.2 hinside
      (symbols.enter.declare name ((typed.ty.bind Ty.component?).getD .object))
    refine exists_bind hinner ?_
    have hgrows := (Info.Grows.refl info).flagIf (symbols.typeOf? name).isSome .duplicateName
    exact Goes.settled (hgrows.reportIf _ _) h.head (fun _ => rfl) nofun (hchecks.append hchecked)
  | .print info value, h, _, around, _, _, symbols => by
    obtain ⟨typed, htyped, hchecks⟩ := expression_total symbols value h.tail
    refine exists_bind htyped ?_
    exact Goes.settled (.refl info) h.head (fun _ => rfl) nofun hchecks.asValue
  | .call info value, h, _, around, _, _, symbols => by
    obtain ⟨typed, htyped, hchecks⟩ := expression_total symbols value h.tail
    refine exists_bind htyped ?_
    exact Goes.settled (.refl info) h.head (fun _ => rfl) nofun hchecks
  | .returning info none, h, _, around, expected, haround, symbols => by
    refine exists_bind haround ?_
    exact Goes.settled (returning_grows expected info) h.head (fun _ => rfl) nofun .nil
  | .returning info (some value), h, _, around, expected, haround, symbols => by
    obtain ⟨typed, htyped, hchecks⟩ := expression_total symbols value h.tail
    obtain ⟨now, hgrows, kept, hkept, hreturning⟩ := returning_checks expected info hchecks
    refine exists_bind htyped (exists_bind haround ?_)
    dsimp only
    rw [hreturning]
    exact Goes.settled hgrows h.head (fun _ => rfl) nofun hkept
  | .broken info text, h, _, around, _, _, symbols =>
    Goes.settled (.refl info) h.head (fun _ => rfl) nofun .nil
  | .bare value, _, hwhole, _, _, _, _ => hwhole.elim

theorem statements_total {inFunction : Bool} : (body : List (Stmt Info)) →
    Untyped (Stmt.marksAll body) → Stmt.WholeAll reported inFunction body →
    {around : Surroundings} → {expected : Option Ty} → around.returnType = .ok expected →
    (symbols : Symbols) → Goes Stmt.rowsAll (Stmt.marksAll body) (statements around symbols body)
  | [], _, _, _, _, _, symbols => ⟨(symbols, []), rfl, .nil⟩
  | s :: rest, h, hwhole, around, _, haround, symbols => by
    obtain ⟨first, hfirst, hchecked⟩ := statement_total s h.left hwhole.1 haround symbols
    obtain ⟨others, hothers, hrest⟩ :=
      statements_total rest h.right hwhole.2 haround first.1
    exact exists_bind hfirst (exists_bind hothers ⟨_, rfl, hchecked.append hrest⟩)

end

/-- Adding the functions of a program to the symbols may report some of them, no more. -/
theorem register_grows (symbols : Symbols) (body : List (Stmt Info)) :
    List.Forall₂ Info.Grows (Stmt.marksAll body) (Stmt.marksAll (register symbols body).2) := by
  have hsame (marks : List Info) : List.Forall₂ Info.Grows marks marks :=
    List.forall₂_same.2 fun info _ => .refl info
  induction body generalizing symbols with
  | nil => exact .nil
  | cons s rest ih =>
    cases s with
    | function info name params returns body =>
      have hgrows := (Info.Grows.refl info).flagIf
      exact .cons (hgrows _ _) (List.rel_append (hsame (Stmt.marksAll body)) (ih _))
    | _ => exact List.rel_append (hsame _) (ih symbols)

theorem Untyped.grown {marks others : List Info} (h : Untyped marks)
    (hgrows : List.Forall₂ Info.Grows marks others) : Untyped others := by
  induction hgrows with
  | nil => exact h
  | cons hfirst hrest ih =>
    exact List.forall_mem_cons.2 ⟨hfirst.ty.trans h.head, ih h.tail⟩

theorem program_total {p : Program Info} (h : Untyped p.marks) (hwhole : p.Whole reported) :
    ∃ typed, program (.ok none) p = .ok typed ∧ CheckedAll p.marks typed.rows := by
  cases p with
  | expression info body =>
    obtain ⟨typed, htyped, hchecks⟩ := expression_total .empty body h.tail
    have hsettle := (Info.Grows.refl info).settle h.head .void
    refine exists_bind htyped (exists_bind hsettle ⟨_, rfl, ?_⟩)
    exact CheckedAll.settled hchecks (.refl info) .void nofun
  | statements info body =>
    have hgrows := register_grows .empty body
    have huntyped := Untyped.grown h.tail hgrows
    obtain ⟨inner, hinner, hchecked⟩ := statements_total (register .empty body).2 huntyped
      (register_whole .empty hwhole) (rfl : (Surroundings.ofProgram (.ok none)).returnType = _)
      (register .empty body).1
    have hsettle := (Info.Grows.refl info).settle h.head .void
    refine exists_bind hinner (exists_bind hsettle ⟨_, rfl, ?_⟩)
    exact CheckedAll.settled (hchecked.of_grown hgrows) (.refl info) .void nofun

end Statements

end Typing
end CatScript
