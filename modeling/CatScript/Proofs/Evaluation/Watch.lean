import CatScript.Proofs.Evaluation.Evaluators

/-! # Watched evaluation

Watched evaluation does what evaluation does and tells, in order, which expressions have been
evaluated to which values.  Leaving out what it tells gives evaluation itself
(`Watch.erases_invokeWithin`, `Watch.erases_program`). -/
set_option autoImplicit false
namespace CatScript
open Evaluator

abbrev Observation := Expr Info × Value

/-- A step of evaluation together with the observations made in it. -/
def Watch (α : Type) : Type :=
  Store → EStateM.Result EvalError Store α × List Observation

namespace Watch

variable {α β : Type}

instance : Monad Watch where
  pure a := fun store => (.ok a store, [])
  bind m f := fun store =>
    match m store with
    | (.ok a after, seen) => ((f a after).1, seen ++ (f a after).2)
    | (.error cause after, seen) => (.error cause after, seen)

def erase (m : Watch α) : Eval α := fun store => (m store).1

def observe (e : Expr Info) (value : Value) : Watch Value :=
  fun store => (.ok value store, [(e, value)])

instance : Evaluator Watch where
  lift step := fun store => (step store, [])
  seeing e m := m >>= observe e
  inScope body := fun store =>
    (Evaluation.inScope body.erase store, (body (store.onScopes Scopes.push)).2)
  inCall bound body := fun store =>
    (Evaluation.inCall bound body.erase store,
      (body (store.onScopes fun scopes => { scopes with nested := [bound] })).2)

theorem lift_apply (step : Eval α) (store : Store) :
    (lift step : Watch α) store = (step store, []) := rfl

/-- The step does what another one does that makes no observations. -/
def Erases ⦃α : Type⦄ (m : Watch α) (plain : Eval α) : Prop :=
  m.erase = plain

theorem Erases.bind {m : Watch α} {plain : Eval α} {f : α → Watch β} {g : α → Eval β}
    (hm : m.Erases plain) (hf : ∀ a, (f a).Erases (g a)) : (m >>= f).Erases (plain >>= g) := by
  obtain rfl : m.erase = plain := hm
  obtain rfl : (fun a => (f a).erase) = g := funext hf
  funext store
  simp only [erase, Bind.bind, EStateM.bind]
  cases hrun : m store with
  | mk result seen => cases result <;> rfl

theorem Erases.seeing (e : Expr Info) {m : Watch Value} {plain : Eval Value}
    (hm : m.Erases plain) : (seeing e m).Erases plain := by
  obtain rfl : m.erase = plain := hm
  funext store
  simp only [erase, Evaluator.seeing, Bind.bind]
  cases hrun : m store with
  | mk result seen => cases result <;> rfl

theorem erases : Evaluator.Keep Erases where
  pure _ := rfl
  bind := .bind
  lift _ := rfl
  seeing := .seeing
  inScope hm := congrArg Evaluation.inScope hm

theorem erases_invokeWithin (rule : LoopRule) (functions : Scope Definition) (room : Nat) :
    Evaluator.Keep.Calls Erases (Evaluation.invokeWithin rule functions room)
      (Evaluation.invokeWithin rule functions room) := by
  induction room with
  | zero => exact fun _ _ => rfl
  | succ room ih =>
    intro definition bound
    have hbody := erases.statements functions rule ih definition.body
    rw [Evaluation.invokeWithin, Evaluation.invokeWithin]
    refine erases.bind (congrArg (Evaluation.inCall bound) hbody) fun flow => ?_
    cases flow with
    | normal => exact erases.pure _
    | returned value => exact erases.lift _

theorem erases_program (rule : LoopRule) (p : Program Info) :
    (Evaluation.program rule p : Watch Unit).Erases (Evaluation.program rule p) := by
  have hcalls := fun functions => erases_invokeWithin rule functions Evaluation.maxCallDepth
  cases p with
  | expression _ body =>
    rw [Evaluation.program, Evaluation.program]
    exact erases.bind (erases.expression [] (hcalls []) body) fun _ => erases.lift _
  | statements _ body =>
    rw [Evaluation.program, Evaluation.program]
    exact erases.bind (erases.statements _ rule (hcalls _) body) fun _ => erases.pure _

end Watch
end CatScript
