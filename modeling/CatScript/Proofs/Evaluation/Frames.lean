import CatScript.Proofs.Evaluation.Steps
import CatScript.Proofs.Scope

/-! # Scopes after evaluation

However evaluation ends, it has closed the scopes that it has opened.  A statement may add names to
the innermost scope and to no other (`Evaluation.statement_restores`); an expression may change
variables of the outermost scope, but leaves the scopes inside it as they were and adds no name
(`Evaluation.expression_keeps`).  So it is with a call, whatever the body of the function does
(`Evaluation.invokeWithin_keeps`). -/
set_option autoImplicit false
namespace CatScript

variable {α β γ : Type}

namespace Scope

abbrev SameNames (s : Scope α) (t : Scope β) : Prop :=
  Match (fun _ _ => True) s t

theorem SameNames.refl (s : Scope α) : SameNames s s := by
  intro name
  cases s.find? name with
  | none => exact .none
  | some value => exact .some trivial

theorem SameNames.trans {s : Scope α} {t : Scope β} {u : Scope γ} (hst : SameNames s t)
    (htu : SameNames t u) : SameNames s u := by
  intro name
  cases hs : s.find? name with
  | none =>
    rw [(htu.none_iff name).1 ((hst.none_iff name).1 hs)]
    exact .none
  | some value =>
    obtain ⟨_, ht, -⟩ := hst.find_left hs
    obtain ⟨_, hu, -⟩ := htu.find_left ht
    rw [hu]
    exact .some trivial

theorem sameNames_bind {s : Scope α} {name : String} {old : α} (h : s.find? name = some old)
    (value : α) : SameNames s (s.bind name value) := by
  intro other
  rw [find?_bind]
  by_cases hname : name = other
  · rw [if_pos hname, ← hname, h]
    exact .some trivial
  · rw [if_neg hname]
    exact SameNames.refl s other

abbrev AllSameNames (s : List (Scope α)) (t : List (Scope β)) : Prop :=
  List.Forall₂ SameNames s t

theorem AllSameNames.refl (s : List (Scope α)) : AllSameNames s s := by
  refine List.forall₂_same.2 fun scope _ => ?_
  exact SameNames.refl scope

theorem AllSameNames.trans {s : List (Scope α)} {t : List (Scope β)} {u : List (Scope γ)}
    (hst : AllSameNames s t) (htu : AllSameNames t u) : AllSameNames s u := by
  induction hst generalizing u with
  | nil =>
    cases htu
    exact .nil
  | cons hfirst _ ih =>
    cases htu with
    | cons hnext hrest => exact .cons (hfirst.trans hnext) (ih hrest)

end Scope

namespace Scopes

/-- The scopes around the innermost one, the outermost last. -/
def around (scopes : Scopes α) : List (Scope α) :=
  match scopes.nested with
  | [] => []
  | _ :: rest => rest ++ [scopes.outermost]

/-- There are as many scopes as before, and those around the innermost one bind the same names. -/
structure Restored (before after : Scopes α) : Prop where
  count : after.nested.length = before.nested.length
  around : Scope.AllSameNames before.around after.around

/-- There are as many scopes as before, and all of them bind the same names. -/
structure Closed (before after : Scopes α) : Prop where
  nested : Scope.AllSameNames before.nested after.nested
  outermost : Scope.SameNames before.outermost after.outermost

/-- The nested scopes are as before, and the outermost one binds the same names. -/
structure Kept (before after : Scopes α) : Prop where
  nested : after.nested = before.nested
  outermost : Scope.SameNames before.outermost after.outermost

variable {before after : Scopes α}

theorem Kept.closed (h : Kept before after) : Closed before after :=
  ⟨h.nested ▸ Scope.AllSameNames.refl _, h.outermost⟩

theorem Closed.restored (h : Closed before after) : Restored before after := by
  obtain ⟨outermost, nested⟩ := before
  obtain ⟨outermost', nested'⟩ := after
  refine ⟨h.nested.length_eq.symm, ?_⟩
  have hnested : Scope.AllSameNames nested nested' := h.nested
  cases hnested with
  | nil => exact .nil
  | cons _ hrest => exact List.rel_append hrest (.cons h.outermost .nil)

instance : IsPreorder (Scopes α) Kept where
  refl _ := ⟨rfl, .refl _⟩
  trans _ _ _ h h' := ⟨h'.nested.trans h.nested, h.outermost.trans h'.outermost⟩

instance : IsPreorder (Scopes α) Closed where
  refl _ := ⟨.refl _, .refl _⟩
  trans _ _ _ h h' := ⟨h.nested.trans h'.nested, h.outermost.trans h'.outermost⟩

instance : IsPreorder (Scopes α) Restored where
  refl _ := ⟨rfl, .refl _⟩
  trans _ _ _ h h' := ⟨h'.count.trans h.count, h.around.trans h'.around⟩

theorem restored_declare (name : String) (value : α) (scopes : Scopes α) :
    Restored scopes (scopes.declare name value) := by
  obtain ⟨outermost, nested⟩ := scopes
  cases nested with
  | nil => exact ⟨rfl, .nil⟩
  | cons scope rest => exact ⟨rfl, .refl _⟩

theorem closed_assign {name : String} {value : α} (h : before.assign? name value = some after) :
    Closed before after := by
  obtain ⟨outermost, nested⟩ := before
  induction nested generalizing after with
  | nil =>
    rw [assign?_nil] at h
    cases hfind : outermost.find? name with
    | none => rw [hfind] at h; cases h
    | some old =>
      rw [hfind] at h
      cases h
      exact ⟨.nil, Scope.sameNames_bind hfind value⟩
  | cons scope rest ih =>
    rw [assign?_cons] at h
    cases hfind : scope.find? name with
    | some old =>
      rw [hfind] at h
      cases h
      exact ⟨.cons (Scope.sameNames_bind hfind value) (Scope.AllSameNames.refl _), .refl _⟩
    | none =>
      rw [hfind] at h
      obtain ⟨inner, hinner, rfl⟩ := Option.map_eq_some_iff.1 h
      have hclosed := ih hinner
      exact ⟨.cons (.refl _) hclosed.nested, hclosed.outermost⟩

/-- What restores the scopes with a scope inside them, closes that one at its end. -/
theorem Restored.pop (h : Restored before.push after) : Closed before after.pop := by
  obtain ⟨outermost, nested⟩ := before
  obtain ⟨outermost', nested'⟩ := after
  cases nested' with
  | nil => cases h.count
  | cons first rest =>
    have hcount : rest.length = nested.length := Nat.succ.inj h.count
    have haround : Scope.AllSameNames (nested ++ [outermost]) (rest ++ [outermost']) := h.around
    have htake := List.forall₂_take_append _ _ _ haround
    have hdrop := List.forall₂_drop_append _ _ _ haround
    rw [hcount, List.take_left] at htake
    rw [hcount, List.drop_left] at hdrop
    cases hdrop with
    | cons houtermost _ => exact ⟨htake, houtermost⟩

theorem Restored.leave {bound : Scope α} (h : Restored { before with nested := [bound] } after) :
    Kept before { after with nested := before.nested } := by
  obtain ⟨outermost', nested'⟩ := after
  obtain ⟨last, hlast⟩ := List.length_eq_one_iff.1 h.count
  have haround := h.around
  cases hlast
  cases haround with
  | cons houtermost _ => exact ⟨rfl, houtermost⟩

end Scopes

namespace Evaluation

open Scopes (Kept Closed Restored)

def left {ε σ : Type} : EStateM.Result ε σ α → σ
  | .ok _ after | .error _ after => after

/-- However the step ends, `R` relates the scopes before it to those after it. -/
def Leaves (R : Scopes Value → Scopes Value → Prop) (m : Eval α) : Prop :=
  ∀ store, R store.scopes (left (m store)).scopes

namespace Leaves
variable {R R' : Scopes Value → Scopes Value → Prop} {m : Eval α}

theorem mono (h : Leaves R m) (himp : ∀ before after, R before after → R' before after) :
    Leaves R' m := by
  intro store
  exact himp _ _ (h store)

theorem closed (h : Leaves Kept m) : Leaves Closed m :=
  h.mono fun _ _ => Kept.closed

theorem restored (h : Leaves Closed m) : Leaves Restored m :=
  h.mono fun _ _ => Closed.restored

theorem inScope (h : Leaves Restored m) : Leaves Closed (Evaluation.inScope m) := by
  intro store
  have hafter := h (store.onScopes Scopes.push)
  show Closed store.scopes
    (left (thenAlways m Scopes.pop (store.onScopes Scopes.push))).scopes
  rw [thenAlways]
  cases hm : m (store.onScopes Scopes.push) <;> rw [hm] at hafter <;> exact Restored.pop hafter

theorem inCall (bound : Scope Value) (h : Leaves Restored m) :
    Leaves Kept (Evaluation.inCall bound m) := by
  intro store
  have hafter := h (store.onScopes fun scopes => { scopes with nested := [bound] })
  show Kept store.scopes
    (left (thenAlways m (fun scopes => { scopes with nested := store.scopes.nested })
      (store.onScopes fun scopes => { scopes with nested := [bound] }))).scopes
  rw [thenAlways]
  cases hm : m (store.onScopes fun scopes => { scopes with nested := [bound] }) <;>
    rw [hm] at hafter <;> exact Restored.leave hafter

theorem enclose {loop : Eval Flow} (rule : LoopRule) (h : Leaves Restored loop) :
    Leaves Restored (rule.enclose loop) := by
  cases rule with
  | around => exact h
  | own => exact h.inScope.restored

variable [IsPreorder (Scopes Value) R]

theorem pure (a : α) : Leaves R (Pure.pure a : Eval α) := by
  intro store
  exact refl_of R store.scopes

theorem throw (cause : EvalError) : Leaves R (MonadExcept.throw cause : Eval α) := by
  intro store
  exact refl_of R store.scopes

theorem uniform (h : Uniform m) : Leaves R m := by
  rcases h with ⟨a, rfl⟩ | ⟨cause, rfl⟩
  · exact .pure a
  · exact .throw cause

theorem bind {f : α → Eval β} (hm : Leaves R m) (hf : ∀ a, Leaves R (f a)) :
    Leaves R (m >>= f) := by
  intro store
  have hfirst := hm store
  cases hrun : m store with
  | ok a after =>
    rw [hrun] at hfirst
    rw [bind_ok hrun]
    exact trans_of R hfirst (hf a after)
  | error cause after =>
    rw [hrun] at hfirst
    rw [bind_error hrun]
    exact hfirst

theorem load (name : String) : Leaves R (Evaluation.load name) := by
  intro store
  rw [load_eq]
  cases store.scopes.find? name <;> exact refl_of R store.scopes

theorem print (value : Value) : Leaves R (Evaluation.print value) := by
  intro store
  exact refl_of R store.scopes

theorem eachItem {act : Value → Eval Flow} (h : ∀ item, Leaves R (act item))
    (items : List Value) : Leaves R (Evaluation.eachItem act items) := by
  induction items with
  | nil => exact .pure _
  | cons item rest ih =>
    refine (h item).bind fun flow => ?_
    cases flow with
    | normal => exact ih
    | returned value => exact .pure _

end Leaves

theorem declare_restores (name : String) (value : Value) : Leaves Restored (declare name value) := by
  intro store
  exact Scopes.restored_declare name value store.scopes

theorem assign_closes (name : String) (value : Value) : Leaves Closed (assign name value) := by
  intro store
  rw [assign_eq]
  cases h : store.scopes.assign? name value with
  | none => exact refl_of Closed store.scopes
  | some after => exact Scopes.closed_assign h

section Trees
variable {functions : Scope Definition} {invoke : Invoke Eval} (rule : LoopRule)

mutual

theorem expression_keeps_of (hinvoke : ∀ definition bound, Leaves Kept (invoke definition bound)) :
    (e : Expr Info) → Leaves Kept (expression functions invoke e)
  | .identifier _ name => by
    rw [expression]
    exact .load name
  | .integer .. | .string .. | .boolean .. | .null _ => by
    rw [expression]
    exact .pure _
  | .list _ items => by
    rw [expression]
    exact (expressions_keep_of hinvoke items).bind fun _ => .pure _
  | .parenthesized _ inner => by
    rw [expression]
    exact expression_keeps_of hinvoke inner
  | .unary _ op operand => by
    rw [expression]
    refine (expression_keeps_of hinvoke operand).bind fun value => ?_
    cases op with
    | negate => exact (Leaves.uniform (uniform_asInteger _ value)).bind fun _ => .pure _
    | not => exact (Leaves.uniform (uniform_asBoolean _ value)).bind fun _ => .pure _
  | .binary info op left right => by
    rw [expression]
    refine (expression_keeps_of hinvoke left).bind fun a =>
      (expression_keeps_of hinvoke right).bind fun b => ?_
    split
    · exact .pure _
    · exact .uniform (uniform_arithmetic op a b)
  | .comparison _ op left right => by
    rw [expression]
    refine (expression_keeps_of hinvoke left).bind fun a => ?_
    refine (Leaves.uniform (uniform_asInteger _ a)).bind fun _ => ?_
    refine (expression_keeps_of hinvoke right).bind fun b => ?_
    exact (Leaves.uniform (uniform_asInteger _ b)).bind fun _ => .pure _
  | .equality _ op left right => by
    rw [expression]
    refine (expression_keeps_of hinvoke left).bind fun a =>
      (expression_keeps_of hinvoke right).bind fun b => ?_
    cases op <;> exact .pure _
  | .call _ name args => by
    rw [expression]
    cases functions.find? name with
    | none => exact .throw _
    | some definition =>
      dsimp only
      split
      · exact .throw _
      · exact (arguments_keep_of hinvoke definition.params args []).bind (hinvoke definition)
  | .broken _ text => by
    rw [expression]
    exact .throw _

theorem expressions_keep_of (hinvoke : ∀ definition bound, Leaves Kept (invoke definition bound)) :
    (items : List (Expr Info)) → Leaves Kept (expressions functions invoke items)
  | [] => by
    rw [expressions]
    exact .pure _
  | e :: rest => by
    rw [expressions]
    exact (expression_keeps_of hinvoke e).bind fun _ =>
      (expressions_keep_of hinvoke rest).bind fun _ => .pure _

theorem arguments_keep_of (hinvoke : ∀ definition bound, Leaves Kept (invoke definition bound)) :
    (params : List Parameter) → (args : List (Expr Info)) → (bound : Scope Value) →
    Leaves Kept (arguments functions invoke params args bound)
  | param :: params, arg :: args, bound => by
    rw [arguments]
    refine (expression_keeps_of hinvoke arg).bind fun value => ?_
    refine (Leaves.uniform (uniform_stored _ value)).bind fun kept => ?_
    exact arguments_keep_of hinvoke params args (bound.bind param.name kept)
  | [], _, bound | _ :: _, [], bound => by
    simp only [arguments]
    exact .pure _

end

theorem Leaves.evaluating (hinvoke : ∀ definition bound, Leaves Kept (invoke definition bound))
    (e : Expr Info) {f : Value → Eval β}
    (hf : ∀ value, Leaves Restored (f value)) :
    Leaves Restored (expression functions invoke e >>= f) :=
  (expression_keeps_of hinvoke e).closed.restored.bind hf

mutual

theorem statement_restores_of
    (hinvoke : ∀ definition bound, Leaves Kept (invoke definition bound)) :
    (s : Stmt Info) → Leaves Restored (statement functions invoke rule s)
  | .declaration info name _ value => by
    rw [statement]
    refine .evaluating hinvoke value fun value => ?_
    refine (Leaves.uniform (uniform_stored _ value)).bind fun kept => ?_
    exact (declare_restores name kept).bind fun _ => .pure _
  | .assignment info name value => by
    rw [statement]
    refine .evaluating hinvoke value fun value => ?_
    refine (Leaves.uniform (uniform_stored _ value)).bind fun kept => ?_
    exact (assign_closes name kept).restored.bind fun _ => .pure _
  | .function .. | .returning _ none => by
    rw [statement]
    exact .pure _
  | .ifThen _ condition thenBody => by
    rw [statement]
    refine .evaluating hinvoke condition fun value => ?_
    refine (Leaves.uniform (uniform_asBoolean _ value)).bind fun test => ?_
    cases test with
    | true => exact (statements_restore_of hinvoke thenBody).inScope.restored
    | false => exact .pure _
  | .ifThenElse _ condition thenBody elseBody => by
    rw [statement]
    refine .evaluating hinvoke condition fun value => ?_
    refine (Leaves.uniform (uniform_asBoolean _ value)).bind fun test => ?_
    cases test with
    | true => exact (statements_restore_of hinvoke thenBody).inScope.restored
    | false => exact (statements_restore_of hinvoke elseBody).inScope.restored
  | .loop info name iterable body => by
    rw [statement]
    refine .evaluating hinvoke iterable fun value => ?_
    cases value with
    | list items =>
      refine .enclose rule (.eachItem (fun item => ?_) items)
      refine (Leaves.uniform (uniform_stored _ item)).bind fun kept => ?_
      exact (declare_restores name kept).bind fun _ =>
        (statements_restore_of hinvoke body).inScope.restored
    | _ => exact .throw _
  | .print _ value => by
    rw [statement]
    exact .evaluating hinvoke value fun value => (Leaves.print value).bind fun _ => .pure _
  | .call _ value | .returning _ (some value) | .bare value => by
    rw [statement]
    exact .evaluating hinvoke value fun _ => .pure _
  | .broken _ text => by
    rw [statement]
    exact .throw _

theorem statements_restore_of
    (hinvoke : ∀ definition bound, Leaves Kept (invoke definition bound)) :
    (body : List (Stmt Info)) → Leaves Restored (statements functions invoke rule body)
  | [] => by
    rw [statements]
    exact .pure _
  | s :: rest => by
    rw [statements]
    refine (statement_restores_of hinvoke s).bind fun flow => ?_
    cases flow with
    | normal => exact statements_restore_of hinvoke rest
    | returned value => exact .pure _

end
end Trees

/-- A call leaves the scopes of its caller as they are and adds no name to the outermost one. -/
theorem invokeWithin_keeps (rule : LoopRule) (functions : Scope Definition) (room : Nat)
    (definition : Definition) (bound : Scope Value) :
    Leaves Kept (invokeWithin rule functions room definition bound) := by
  induction room generalizing definition bound with
  | zero => exact .throw _
  | succ room ih =>
    rw [invokeWithin]
    have hbody : Leaves Restored
        (statements functions (invokeWithin rule functions room) rule definition.body) :=
      statements_restore_of rule ih definition.body
    refine (hbody.inCall bound).bind fun flow => ?_
    cases flow with
    | normal => exact .pure _
    | returned value => exact .uniform (uniform_stored _ value)

variable (rule : LoopRule) (functions : Scope Definition) (room : Nat)

theorem expression_keeps (e : Expr Info) :
    Leaves Kept (expression functions (invokeWithin rule functions room) e) :=
  expression_keeps_of (invokeWithin_keeps rule functions room) e

theorem statement_restores (s : Stmt Info) :
    Leaves Restored (statement functions (invokeWithin rule functions room) rule s) :=
  statement_restores_of rule (invokeWithin_keeps rule functions room) s

end Evaluation
end CatScript
