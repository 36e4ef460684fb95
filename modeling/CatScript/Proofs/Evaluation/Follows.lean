import CatScript.Proofs.Evaluation.Steps
import CatScript.Proofs.Evaluation.Watch
import CatScript.Proofs.Scope

/-! # Steps that follow each other

A step follows another one when it has the same observations, prints the same text and ends the
same way, unless the other one misses a variable.  The rules below put such steps together. -/
set_option autoImplicit false
namespace CatScript
namespace Watch

variable {α β : Type}

/-- Started from `other`, the step `n` does what `m` does from `store`, unless `m` misses a
variable; `P` relates a result to the scopes that both leave behind. -/
inductive Follows (m n : Watch α) (store other : Store)
    (P : α → Scopes Value → Scopes Value → Prop) : Prop where
  | ok {a : α} {after after' : Store} {seen : List Observation} :
      m store = (.ok a after, seen) → n other = (.ok a after', seen) →
      after.output = after'.output → P a after.scopes after'.scopes →
      Follows m n store other P
  | error {cause : EvalError} {after after' : Store} {seen : List Observation} :
      m store = (.error cause after, seen) → n other = (.error cause after', seen) →
      after.output = after'.output → Scope.Sub after.scopes.outermost after'.scopes.outermost →
      Follows m n store other P
  | missing {name : String} {after : Store} {seen : List Observation} :
      m store = (.error (.undefinedVariable name) after, seen) → Follows m n store other P

variable {store other : Store} {P P' : α → Scopes Value → Scopes Value → Prop}

theorem Follows.mono {m n : Watch α} (h : Follows m n store other P)
    (hpost : ∀ a scopes scopes', P a scopes scopes' → P' a scopes scopes') :
    Follows m n store other P' := by
  cases h with
  | ok hm hn houtput h => exact .ok hm hn houtput (hpost _ _ _ h)
  | error hm hn houtput hsub => exact .error hm hn houtput hsub
  | missing hm => exact .missing hm

theorem Follows.pure {a : α} (houtput : store.output = other.output)
    (h : P a store.scopes other.scopes) :
    Follows (Pure.pure a) (Pure.pure a) store other P :=
  .ok rfl rfl houtput h

theorem bind_ok {m : Watch α} {f : α → Watch β} {a : α} {after : Store}
    {seen : List Observation} (h : m store = (.ok a after, seen)) :
    (m >>= f) store = ((f a after).1, seen ++ (f a after).2) := by
  simp only [Bind.bind, h]

theorem bind_error {m : Watch α} {f : α → Watch β} {cause : EvalError} {after : Store}
    {seen : List Observation} (h : m store = (.error cause after, seen)) :
    (m >>= f) store = (.error cause after, seen) := by
  simp only [Bind.bind, h]

theorem Follows.bind {m n : Watch α} {f g : α → Watch β}
    {next : β → Scopes Value → Scopes Value → Prop} (h : Follows m n store other P)
    (hf : ∀ a (after after' : Store), after.output = after'.output →
      P a after.scopes after'.scopes → Follows (f a) (g a) after after' next) :
    Follows (m >>= f) (n >>= g) store other next := by
  cases h with
  | ok hm hn houtput hpost =>
    cases hf _ _ _ houtput hpost with
    | ok hm' hn' houtput' hnext =>
      exact .ok (by rw [bind_ok hm, hm']) (by rw [bind_ok hn, hn']) houtput' hnext
    | error hm' hn' houtput' hsub =>
      exact .error (by rw [bind_ok hm, hm']) (by rw [bind_ok hn, hn']) houtput' hsub
    | missing hm' => exact .missing (by rw [bind_ok hm, hm'])
  | error hm hn houtput hsub => exact .error (bind_error hm) (bind_error hn) houtput hsub
  | missing hm => exact .missing (bind_error hm)

theorem Follows.seeing {m n : Watch Value} {P : Value → Scopes Value → Scopes Value → Prop}
    (e : Expr Info) (h : Follows m n store other P) :
    Follows (Evaluator.seeing e m) (Evaluator.seeing e n) store other P := by
  refine h.bind fun _ _ _ houtput hpost => ?_
  exact .ok rfl rfl houtput hpost

theorem Follows.lift {m : Eval α} (hm : Evaluation.Uniform m)
    (houtput : store.output = other.output)
    (hsub : Scope.Sub store.scopes.outermost other.scopes.outermost)
    (h : ∀ a, P a store.scopes other.scopes) :
    Follows (Evaluator.lift m) (Evaluator.lift m) store other P := by
  rcases hm with ⟨a, rfl⟩ | ⟨cause, rfl⟩
  · exact .ok rfl rfl houtput (h a)
  · exact .error rfl rfl houtput hsub

theorem inScope_ok {m : Watch α} {a : α} {after : Store} {seen : List Observation}
    (h : m (store.onScopes Scopes.push) = (.ok a after, seen)) :
    Evaluator.inScope m store = (.ok a (after.onScopes Scopes.pop), seen) := by
  have hrun : Evaluator.inScope m store =
      (Evaluation.thenAlways m.erase Scopes.pop (store.onScopes Scopes.push),
        (m (store.onScopes Scopes.push)).2) := rfl
  rw [hrun, Evaluation.thenAlways, erase, h]

theorem inScope_error {m : Watch α} {cause : EvalError} {after : Store} {seen : List Observation}
    (h : m (store.onScopes Scopes.push) = (.error cause after, seen)) :
    Evaluator.inScope m store = (.error cause (after.onScopes Scopes.pop), seen) := by
  have hrun : Evaluator.inScope m store =
      (Evaluation.thenAlways m.erase Scopes.pop (store.onScopes Scopes.push),
        (m (store.onScopes Scopes.push)).2) := rfl
  rw [hrun, Evaluation.thenAlways, erase, h]

theorem Follows.inScope {m n : Watch α}
    (h : Follows m n (store.onScopes Scopes.push) (other.onScopes Scopes.push)
      fun a scopes scopes' => P a scopes.pop scopes'.pop) :
    Follows (Evaluator.inScope m) (Evaluator.inScope n) store other P := by
  cases h with
  | ok hm hn houtput hpost => exact .ok (inScope_ok hm) (inScope_ok hn) houtput hpost
  | error hm hn houtput hsub => exact .error (inScope_error hm) (inScope_error hn) houtput hsub
  | missing hm => exact .missing (inScope_error hm)

theorem Follows.inScope_left {m n : Watch α}
    (h : Follows m n (store.onScopes Scopes.push) other
      fun a scopes scopes' => P a scopes.pop scopes') :
    Follows (Evaluator.inScope m) n store other P := by
  cases h with
  | ok hm hn houtput hpost => exact .ok (inScope_ok hm) hn houtput hpost
  | error hm hn houtput hsub => exact .error (inScope_error hm) hn houtput hsub
  | missing hm => exact .missing (inScope_error hm)

theorem inCall_ok {m : Watch α} {bound : Scope Value} {a : α} {after : Store}
    {seen : List Observation}
    (h : m (store.onScopes fun scopes => { scopes with nested := [bound] }) =
      (.ok a after, seen)) :
    Evaluator.inCall bound m store =
      (.ok a (after.onScopes fun scopes => { scopes with nested := store.scopes.nested }),
        seen) := by
  have hrun : Evaluator.inCall bound m store =
      (Evaluation.thenAlways m.erase (fun scopes => { scopes with nested := store.scopes.nested })
        (store.onScopes fun scopes => { scopes with nested := [bound] }),
        (m (store.onScopes fun scopes => { scopes with nested := [bound] })).2) := rfl
  rw [hrun, Evaluation.thenAlways, erase, h]

theorem inCall_error {m : Watch α} {bound : Scope Value} {cause : EvalError} {after : Store}
    {seen : List Observation}
    (h : m (store.onScopes fun scopes => { scopes with nested := [bound] }) =
      (.error cause after, seen)) :
    Evaluator.inCall bound m store =
      (.error cause (after.onScopes fun scopes => { scopes with nested := store.scopes.nested }),
        seen) := by
  have hrun : Evaluator.inCall bound m store =
      (Evaluation.thenAlways m.erase (fun scopes => { scopes with nested := store.scopes.nested })
        (store.onScopes fun scopes => { scopes with nested := [bound] }),
        (m (store.onScopes fun scopes => { scopes with nested := [bound] })).2) := rfl
  rw [hrun, Evaluation.thenAlways, erase, h]

theorem Follows.inCall {m n : Watch α} {bound : Scope Value}
    (h : Follows m n (store.onScopes fun scopes => { scopes with nested := [bound] })
      (other.onScopes fun scopes => { scopes with nested := [bound] })
      fun a scopes scopes' => P a { scopes with nested := store.scopes.nested }
        { scopes' with nested := other.scopes.nested }) :
    Follows (Evaluator.inCall bound m) (Evaluator.inCall bound n) store other P := by
  cases h with
  | ok hm hn houtput hpost => exact .ok (inCall_ok hm) (inCall_ok hn) houtput hpost
  | error hm hn houtput hsub => exact .error (inCall_error hm) (inCall_error hn) houtput hsub
  | missing hm => exact .missing (inCall_error hm)

theorem Follows.eachItem {act act' : Value → Watch Flow} {items : List Value}
    (keep : Scopes Value → Scopes Value → Prop)
    (returned : Value → Scopes Value → Scopes Value → Prop)
    (hact : ∀ item (store other : Store), store.output = other.output →
      keep store.scopes other.scopes →
      Follows (act item) (act' item) store other fun flow scopes scopes' =>
        match flow with
        | .normal => keep scopes scopes'
        | .returned value => returned value scopes scopes')
    (houtput : store.output = other.output) (hstart : keep store.scopes other.scopes) :
    Follows (Evaluation.eachItem act items) (Evaluation.eachItem act' items) store other
      fun flow scopes scopes' =>
        match flow with
        | .normal => keep scopes scopes'
        | .returned value => returned value scopes scopes' := by
  induction items generalizing store other with
  | nil => exact .pure houtput hstart
  | cons item rest ih =>
    refine (hact item store other houtput hstart).bind fun flow after after' houtput hflow => ?_
    cases flow with
    | normal => exact ih houtput hflow
    | returned value => exact .pure houtput hflow

end Watch
end CatScript
