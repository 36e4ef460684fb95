import CatScript.Proofs.Evaluation.Inhabits
import CatScript.Proofs.Evaluation.Watch

/-! # What watched evaluation ensures

`Ensures m store P fail` says how the step `m` ends when it starts from `store`: with a result and
scopes as `P` wants them, or with an error and scopes as `fail` wants them.  Every value it observes
is one of the type recorded for its expression. -/
set_option autoImplicit false
namespace CatScript

/-- Whether an observed value is one of the type recorded for its expression. -/
def Observation.Sound (observation : Observation) : Prop :=
  ∃ ty, observation.1.mark.ty = some ty ∧ ty.admits observation.2 = true

namespace Watch

variable {α β : Type}

def Outcome (P : α → Scopes Value → Prop) (fail : EvalError → Scopes Value → Prop) :
    EStateM.Result EvalError Store α → Prop
  | .ok a after => P a after.scopes
  | .error cause after => fail cause after.scopes

/-- What a step that starts from a store observes, and how it ends. -/
def Ensures (m : Watch α) (store : Store) (P : α → Scopes Value → Prop)
    (fail : EvalError → Scopes Value → Prop) : Prop :=
  (∀ o ∈ (m store).2, o.Sound) ∧ Outcome P fail (m store).1

variable {store : Store} {P P' : α → Scopes Value → Prop}
  {fail fail' : EvalError → Scopes Value → Prop}

theorem Ensures.mono {m : Watch α} (h : Ensures m store P fail)
    (hpost : ∀ a scopes, P a scopes → P' a scopes)
    (hfail : ∀ cause scopes, fail cause scopes → fail' cause scopes) :
    Ensures m store P' fail' := by
  obtain ⟨hsound, houtcome⟩ := h
  refine ⟨hsound, ?_⟩
  cases hm : (m store).1 with
  | ok a after => rw [hm] at houtcome; exact hpost _ _ houtcome
  | error cause after => rw [hm] at houtcome; exact hfail _ _ houtcome

theorem Ensures.lift {m : Eval α} (h : Outcome P fail (m store)) :
    Ensures (Evaluator.lift m) store P fail :=
  ⟨nofun, h⟩

theorem Ensures.pure {a : α} (h : P a store.scopes) : Ensures (Pure.pure a) store P fail :=
  ⟨nofun, h⟩

theorem Ensures.bind {m : Watch α} {f : α → Watch β} {next : β → Scopes Value → Prop}
    (hm : Ensures m store P fail)
    (hf : ∀ a after, P a after.scopes → Ensures (f a) after next fail) :
    Ensures (m >>= f) store next fail := by
  obtain ⟨hsound, houtcome⟩ := hm
  unfold Ensures
  simp only [Bind.bind]
  cases hrun : m store with
  | mk result seen =>
    rw [hrun] at hsound houtcome
    cases result with
    | ok a after =>
      obtain ⟨hsound', houtcome'⟩ := hf a after houtcome
      exact ⟨fun o ho => (List.mem_append.1 ho).elim (hsound o) (hsound' o), houtcome'⟩
    | error cause after => exact ⟨hsound, houtcome⟩

/-- A value is observed soundly when it is one of the type recorded for the expression. -/
theorem Ensures.seeing {e : Expr Info} {m : Watch Value}
    {P next : Value → Scopes Value → Prop} (hm : Ensures m store P fail)
    (hvalue : ∀ value scopes, P value scopes →
      Observation.Sound (e, value) ∧ next value scopes) :
    Ensures (Evaluator.seeing e m) store next fail := by
  refine hm.bind fun value after hpost => ?_
  obtain ⟨hseen, hnext⟩ := hvalue value after.scopes hpost
  exact ⟨List.forall_mem_singleton.2 hseen, hnext⟩

theorem Ensures.inScope {m : Watch α}
    (h : Ensures m (store.onScopes Scopes.push) (fun a scopes => P a scopes.pop)
      fun cause scopes => fail cause scopes.pop) :
    Ensures (Evaluator.inScope m) store P fail := by
  obtain ⟨hsound, houtcome⟩ := h
  refine ⟨hsound, ?_⟩
  have hrun : (Evaluator.inScope m store).1 =
      Evaluation.thenAlways m.erase Scopes.pop (store.onScopes Scopes.push) := rfl
  rw [hrun]
  unfold Evaluation.thenAlways Watch.erase
  cases hm : (m (store.onScopes Scopes.push)).1 with
  | ok a after => rw [hm] at houtcome; exact houtcome
  | error cause after => rw [hm] at houtcome; exact houtcome

theorem Ensures.inCall {m : Watch α} {bound : Scope Value}
    (h : Ensures m (store.onScopes fun scopes => { scopes with nested := [bound] })
      (fun a scopes => P a { scopes with nested := store.scopes.nested })
      fun cause scopes => fail cause { scopes with nested := store.scopes.nested }) :
    Ensures (Evaluator.inCall bound m) store P fail := by
  obtain ⟨hsound, houtcome⟩ := h
  refine ⟨hsound, ?_⟩
  have hrun : (Evaluator.inCall bound m store).1 =
      Evaluation.thenAlways m.erase (fun scopes => { scopes with nested := store.scopes.nested })
        (store.onScopes fun scopes => { scopes with nested := [bound] }) := rfl
  rw [hrun]
  unfold Evaluation.thenAlways Watch.erase
  cases hm : (m (store.onScopes fun scopes => { scopes with nested := [bound] })).1 with
  | ok a after => rw [hm] at houtcome; exact houtcome
  | error cause after => rw [hm] at houtcome; exact houtcome

/-- What holds after a statement: `normal` where the next one follows, `returned` where the function
returns. -/
def FlowPost (normal : Scopes Value → Prop) (returned : Value → Scopes Value → Prop) :
    Flow → Scopes Value → Prop
  | .normal, scopes => normal scopes
  | .returned value, scopes => returned value scopes

/-- What each item keeps holds after all of them. -/
theorem Ensures.eachItem {act : Value → Watch Flow} {items : List Value}
    {keep : Scopes Value → Prop} {returned : Value → Scopes Value → Prop}
    (hact : ∀ item ∈ items, ∀ store : Store, keep store.scopes →
      Ensures (act item) store (FlowPost keep returned) fail)
    (hstart : keep store.scopes) :
    Ensures (Evaluation.eachItem act items) store (FlowPost keep returned) fail := by
  induction items generalizing store with
  | nil => exact .pure hstart
  | cons item rest ih =>
    refine .bind (hact item List.mem_cons_self store hstart) fun flow after hflow => ?_
    cases flow with
    | normal => exact ih (fun other hother => hact other (List.mem_cons_of_mem _ hother)) hflow
    | returned value => exact .pure hflow

end Watch
end CatScript
