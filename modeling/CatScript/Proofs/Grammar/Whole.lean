import CatScript.Proofs.Grammar.Closed
import CatScript.Proofs.Tree.Whole

/-! # Trees of source texts

The tree of a text is whole (`Grammar.whole_parse`): each piece that starts nothing is reported
where it stands. -/
set_option autoImplicit false
namespace CatScript.Grammar
open Reader

def Reported (mark : Mark) : Prop :=
  mark.errors ≠ []

theorem wholeAll_of_mem {items : List (Expr Mark)} (h : ∀ e ∈ items, e.Whole Reported) :
    Expr.WholeAll Reported items := by
  induction items with
  | nil => simp only [Expr.WholeAll]
  | cons e rest ih =>
    obtain ⟨hfirst, hrest⟩ := List.forall_mem_cons.1 h
    simp only [Expr.WholeAll]
    exact ⟨hfirst, ih hrest⟩

theorem wholeAll_of_mem_body {inFunction : Bool} {body : List (Stmt Mark)}
    (h : ∀ s ∈ body, s.Whole Reported inFunction) : Stmt.WholeAll Reported inFunction body := by
  induction body with
  | nil => simp only [Stmt.WholeAll]
  | cons s rest ih =>
    obtain ⟨hfirst, hrest⟩ := List.forall_mem_cons.1 h
    simp only [Stmt.WholeAll]
    exact ⟨hfirst, ih hrest⟩

theorem ofName?_storable {name : String} {ty : Ty} (h : Ty.ofName? name = some ty) :
    ty.Storable := by
  unfold Ty.ofName? at h
  split at h <;> cases h <;> trivial

/-- Trees are whole and name types that can be stored, whatever is reported in them. -/
def Property.whole : Property where
  reports _ := True
  type := Ty.Storable
  expr := Expr.Whole Reported
  stmt inFunction := Stmt.Whole Reported inFunction

theorem Property.whole_closed : Property.whole.Closed where
  clean := trivial
  append _ _ := trivial
  unexpected _ := trivial
  unterminatedArgs _ := trivial
  unterminatedList _ := trivial
  typeName := ofName?_storable
  listType hty := hty
  identifier _ := by simp only [whole, Expr.Whole]
  integer _ := by simp only [whole, Expr.Whole]
  string _ := by simp only [whole, Expr.Whole]
  boolean _ := by simp only [whole, Expr.Whole]
  null _ := by simp only [whole, Expr.Whole]
  list _ hitems := by simpa only [whole, Expr.Whole] using wholeAll_of_mem hitems
  parenthesized _ hinner := by simpa only [whole, Expr.Whole] using hinner
  unary _ hoperand := by simpa only [whole, Expr.Whole] using hoperand
  binary _ hleft hright := by simpa only [whole, Expr.Whole] using ⟨hleft, hright⟩
  comparison _ hleft hright := by simpa only [whole, Expr.Whole] using ⟨hleft, hright⟩
  equality _ hleft hright := by simpa only [whole, Expr.Whole] using ⟨hleft, hright⟩
  call _ hargs := by simpa only [whole, Expr.Whole] using wholeAll_of_mem hargs
  strayExpression _ := by simp [whole, Expr.Whole, Reported]
  declaration _ hty hvalue := by simpa only [whole, Stmt.Whole] using ⟨hty, hvalue⟩
  assignment _ hvalue := by simpa only [whole, Stmt.Whole] using hvalue
  function _ hparams hreturns hbody := by
    simpa only [whole, Stmt.Whole] using ⟨hparams, hreturns, wholeAll_of_mem_body hbody⟩
  ifThen _ hcondition hthen := by
    simpa only [whole, Stmt.Whole] using ⟨hcondition, wholeAll_of_mem_body hthen⟩
  ifThenElse _ hcondition hthen helse := by
    simpa only [whole, Stmt.Whole] using
      ⟨hcondition, wholeAll_of_mem_body hthen, wholeAll_of_mem_body helse⟩
  loop _ hiterable hbody := by
    simpa only [whole, Stmt.Whole] using ⟨hiterable, wholeAll_of_mem_body hbody⟩
  print _ hvalue := by simpa only [whole, Stmt.Whole] using hvalue
  callStatement _ hvalue := by simpa only [whole, Stmt.Whole] using hvalue
  returnNothing _ := by simp only [whole, Stmt.Whole]
  returnValue _ hvalue := by simpa only [whole, Stmt.Whole, true_and] using hvalue
  strayStatement _ := by simp [whole, Stmt.Whole, Reported]

theorem whole_of_program {p : Program Mark} (h : Property.whole.program p) : p.Whole Reported := by
  cases p with
  | expression mark body => exact h.2
  | statements mark body => exact wholeAll_of_mem_body h.2

theorem whole_expressionProgram : Yields expressionProgram (Program.Whole Reported) := by
  refine ⟨fun cursor => ?_⟩
  exact whole_of_program (Property.whole_closed.expressionProgram.run cursor)

theorem whole_program : Yields program (Program.Whole Reported) := by
  refine ⟨fun cursor => ?_⟩
  exact whole_of_program (Property.whole_closed.program.run cursor)

/-- In the tree of a text, what could not be read is reported. -/
theorem whole_parse (source : String) : (parse source).Whole Reported :=
  whole_program.run _

end CatScript.Grammar
