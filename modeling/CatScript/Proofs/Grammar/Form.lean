import CatScript.Proofs.Grammar.Closed
import CatScript.Tree.Marks

/-! # Problems of form

A reader knows nothing of names and types: whatever it reports of a node is a problem of form
(`Grammar.ofForm_program`). -/
set_option autoImplicit false
namespace CatScript

/-- All the problems are problems of form. -/
def OfForm (errors : List Diagnostic) : Prop :=
  ∀ diagnostic ∈ errors, diagnostic.problem.isSyntactic = true

def AllOfForm (marks : List Mark) : Prop :=
  ∀ mark ∈ marks, OfForm mark.errors

section
variable {errors more : List Diagnostic} {marks others : List Mark} {mark : Mark}

theorem OfForm.nil : OfForm [] := nofun

theorem OfForm.append (h : OfForm errors) (h' : OfForm more) : OfForm (errors ++ more) := by
  intro diagnostic hd
  rcases List.mem_append.1 hd with hd | hd
  · exact h diagnostic hd
  · exact h' diagnostic hd

theorem OfForm.unexpected (token : Token) : OfForm [Reader.unexpected token] :=
  List.forall_mem_singleton.2 rfl

theorem AllOfForm.cons (hmark : OfForm mark.errors) (h : AllOfForm marks) :
    AllOfForm (mark :: marks) :=
  List.forall_mem_cons.2 ⟨hmark, h⟩

theorem AllOfForm.single (h : OfForm mark.errors) : AllOfForm [mark] :=
  List.forall_mem_singleton.2 h

theorem AllOfForm.append (h : AllOfForm marks) (h' : AllOfForm others) :
    AllOfForm (marks ++ others) := by
  intro mark hmark
  rcases List.mem_append.1 hmark with hmark | hmark
  · exact h mark hmark
  · exact h' mark hmark

end

def Expr.OfForm (e : Expr Mark) : Prop :=
  AllOfForm e.marks

def Stmt.OfForm (s : Stmt Mark) : Prop :=
  AllOfForm s.marks

def Program.OfForm (p : Program Mark) : Prop :=
  AllOfForm p.marks

theorem Expr.ofForm_marksAll {items : List (Expr Mark)} (h : ∀ e ∈ items, e.OfForm) :
    AllOfForm (Expr.marksAll items) := by
  induction items with
  | nil => exact nofun
  | cons e rest ih =>
    obtain ⟨hfirst, hrest⟩ := List.forall_mem_cons.1 h
    exact AllOfForm.append hfirst (ih hrest)

theorem Stmt.ofForm_marksAll {body : List (Stmt Mark)} (h : ∀ s ∈ body, s.OfForm) :
    AllOfForm (Stmt.marksAll body) := by
  induction body with
  | nil => exact nofun
  | cons s rest ih =>
    obtain ⟨hfirst, hrest⟩ := List.forall_mem_cons.1 h
    exact AllOfForm.append hfirst (ih hrest)

namespace Grammar
open Reader

def Property.ofForm : Property where
  reports := OfForm
  type _ := True
  expr := Expr.OfForm
  stmt _ := Stmt.OfForm

theorem Property.ofForm_closed : Property.ofForm.Closed where
  clean := .nil
  append := .append
  unexpected := .unexpected
  unterminatedArgs _ := List.forall_mem_singleton.2 rfl
  unterminatedList _ := List.forall_mem_singleton.2 rfl
  typeName _ := trivial
  listType _ := trivial
  identifier := .single
  integer := .single
  string := .single
  boolean := .single
  null := .single
  list hmark hitems := .cons hmark (Expr.ofForm_marksAll hitems)
  parenthesized hmark hinner := .cons hmark hinner
  unary hmark hoperand := .cons hmark hoperand
  binary hmark hleft hright := .cons hmark (.append hleft hright)
  comparison hmark hleft hright := .cons hmark (.append hleft hright)
  equality hmark hleft hright := .cons hmark (.append hleft hright)
  call hmark hargs := .cons hmark (Expr.ofForm_marksAll hargs)
  strayExpression token := .single (.unexpected token)
  declaration hmark _ hvalue := .cons hmark hvalue
  assignment hmark hvalue := .cons hmark hvalue
  function hmark _ _ hbody := .cons hmark (Stmt.ofForm_marksAll hbody)
  ifThen hmark hcondition hthen := .cons hmark (.append hcondition (Stmt.ofForm_marksAll hthen))
  ifThenElse hmark hcondition hthen helse :=
    .cons hmark (.append (.append hcondition (Stmt.ofForm_marksAll hthen))
      (Stmt.ofForm_marksAll helse))
  loop hmark hiterable hbody := .cons hmark (.append hiterable (Stmt.ofForm_marksAll hbody))
  print hmark hvalue := .cons hmark hvalue
  callStatement hmark hvalue := .cons hmark hvalue
  returnNothing := .single
  returnValue hmark hvalue := .cons hmark hvalue
  strayStatement token := .single (.unexpected token)

theorem ofForm_of_program {p : Program Mark} (h : Property.ofForm.program p) : p.OfForm := by
  cases p with
  | expression mark body => exact .cons h.1 h.2
  | statements mark body => exact .cons h.1 (Stmt.ofForm_marksAll h.2)

theorem ofForm_expressionProgram : Yields expressionProgram Program.OfForm := by
  refine ⟨fun cursor => ?_⟩
  exact ofForm_of_program (Property.ofForm_closed.expressionProgram.run cursor)

/-- What is reported of a text that has just been read is a problem of form. -/
theorem ofForm_program : Yields program Program.OfForm := by
  refine ⟨fun cursor => ?_⟩
  exact ofForm_of_program (Property.ofForm_closed.program.run cursor)

end Grammar
end CatScript
