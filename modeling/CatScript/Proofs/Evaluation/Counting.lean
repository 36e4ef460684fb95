import CatScript.Proofs.Evaluation.Evaluators
import CatScript.Proofs.Evaluation.Frames

/-! # Evaluation that counts its calls

Here the depth of calls is part of the state: a call raises it and lowers it at its end, and is
refused where it has reached the limit.  This evaluation does what plain evaluation does with as much
room as the limit leaves (`Counting.counts_invoke`), so that the depth, like the scopes, is as before
when it ends (`Counting.unwinds`). -/
set_option autoImplicit false
namespace CatScript

/-- The store and the number of calls that are being carried out. -/
structure Runtime where
  store : Store
  depth : Nat

abbrev Counting := EStateM EvalError Runtime

namespace Counting

variable {α β : Type}

def atDepth (depth : Nat) : EStateM.Result EvalError Store α → EStateM.Result EvalError Runtime α
  | .ok a store => .ok a ⟨store, depth⟩
  | .error cause store => .error cause ⟨store, depth⟩

def thenAlways (body : Counting α) (change : Runtime → Runtime) : Counting α := fun runtime =>
  match body runtime with
  | .ok a after => .ok a (change after)
  | .error cause after => .error cause (change after)

def onScopes (change : Scopes Value → Scopes Value) (runtime : Runtime) : Runtime :=
  { runtime with store := runtime.store.onScopes change }

def inScope (body : Counting α) : Counting α := do
  modify (onScopes Scopes.push)
  thenAlways body (onScopes Scopes.pop)

def inCall (bound : Scope Value) (body : Counting α) : Counting α := do
  let saved := (← get).store.scopes.nested
  modify (onScopes fun scopes => { scopes with nested := [bound] })
  thenAlways body (onScopes fun scopes => { scopes with nested := saved })

/-- Evaluates with the depth of calls raised by one, unless it has reached the limit. -/
def deeper (body : Counting α) : Counting α := do
  if Evaluation.maxCallDepth ≤ (← get).depth then
    throw (.callDepthExceeded Evaluation.maxCallDepth)
  else
    modify fun runtime => { runtime with depth := runtime.depth + 1 }
    thenAlways body fun runtime => { runtime with depth := runtime.depth - 1 }

instance : Evaluator Counting where
  lift step := fun runtime => atDepth runtime.depth (step runtime.store)
  seeing _ step := step
  inScope := inScope
  inCall bound body := deeper (inCall bound body)

/-- Carries out a call.  The definition is unfolded for as many calls inside each other as may nest;
the depth meets the limit before that. -/
def invoke (rule : LoopRule) (functions : Scope Definition) : Invoke Counting :=
  Evaluation.invokeWithin rule functions Evaluation.maxCallDepth

/-- From a state of that depth, the step does what a step without a depth does, and leaves the depth
as it is. -/
def Counts (depth : Nat) ⦃α : Type⦄ (m : Counting α) (plain : Eval α) : Prop :=
  ∀ store, m ⟨store, depth⟩ = atDepth depth (plain store)

namespace Counts
variable {depth : Nat} {m : Counting α} {plain : Eval α}

theorem bind {f : α → Counting β} {g : α → Eval β} (hm : Counts depth m plain)
    (hf : ∀ a, Counts depth (f a) (g a)) : Counts depth (m >>= f) (plain >>= g) := by
  intro store
  have hfirst := hm store
  cases hrun : plain store with
  | ok a after =>
    rw [hrun] at hfirst
    simp only [Bind.bind, EStateM.bind, hfirst, hrun, atDepth]
    exact hf a after
  | error cause after =>
    rw [hrun] at hfirst
    simp only [Bind.bind, EStateM.bind, hfirst, hrun, atDepth]

theorem thenAlways {change : Scopes Value → Scopes Value} (h : Counts depth m plain) :
    Counts depth (Counting.thenAlways m (onScopes change)) (Evaluation.thenAlways plain change) := by
  intro store
  rw [Counting.thenAlways, Evaluation.thenAlways, h store]
  cases plain store <;> rfl

theorem inScope (h : Counts depth m plain) :
    Counts depth (Counting.inScope m) (Evaluation.inScope plain) := by
  intro store
  exact h.thenAlways (store.onScopes Scopes.push)

theorem inCall (bound : Scope Value) (h : Counts depth m plain) :
    Counts depth (Counting.inCall bound m) (Evaluation.inCall bound plain) := by
  intro store
  exact h.thenAlways (store.onScopes fun scopes => { scopes with nested := [bound] })

theorem deeper (hdepth : depth < Evaluation.maxCallDepth) (h : Counts (depth + 1) m plain) :
    Counts depth (Counting.deeper m) plain := by
  intro store
  show (if Evaluation.maxCallDepth ≤ depth then _ else _ : Counting α) ⟨store, depth⟩ = _
  rw [if_neg (Nat.not_le.2 hdepth)]
  show Counting.thenAlways m _ ⟨store, depth + 1⟩ = _
  rw [Counting.thenAlways, h store]
  cases plain store <;> rfl

theorem refused (hdepth : Evaluation.maxCallDepth ≤ depth) (m : Counting α) (f : α → Counting β) :
    Counts depth (Counting.deeper m >>= f)
      (MonadExcept.throw (.callDepthExceeded Evaluation.maxCallDepth)) := by
  intro store
  show ((if Evaluation.maxCallDepth ≤ depth then _ else _ : Counting α) >>= f) ⟨store, depth⟩ = _
  rw [if_pos hdepth]
  rfl

theorem keep (depth : Nat) : Evaluator.Keep (Counts depth) where
  pure _ _ := rfl
  bind := bind
  lift _ _ := rfl
  seeing _ _ _ h := h
  inScope := inScope

end Counts

/-- The depth reaches the limit where the room for calls ends. -/
theorem counts_invokeWithin (rule : LoopRule) (functions : Scope Definition) {levels depth : Nat}
    (hlevels : Evaluation.maxCallDepth ≤ levels + depth) :
    Evaluator.Keep.Calls (Counts depth) (Evaluation.invokeWithin rule functions levels)
      (Evaluation.invokeWithin rule functions (Evaluation.maxCallDepth - depth)) := by
  -- Each call takes a level and raises the depth, so that the limit is met before the levels end.
  induction levels generalizing depth with
  | zero =>
    rw [Nat.zero_add] at hlevels
    rw [Nat.sub_eq_zero_of_le hlevels]
    exact fun _ _ _ => rfl
  | succ levels ih =>
    intro definition bound
    rw [Evaluation.invokeWithin]
    by_cases hdepth : Evaluation.maxCallDepth ≤ depth
    · rw [Nat.sub_eq_zero_of_le hdepth]
      exact .refused hdepth _ _
    · have hroom : Evaluation.maxCallDepth - depth = Evaluation.maxCallDepth - (depth + 1) + 1 := by
        omega
      rw [hroom, Evaluation.invokeWithin]
      have hbody := (Counts.keep (depth + 1)).statements functions rule (ih (by omega))
        definition.body
      refine ((hbody.inCall bound).deeper (Nat.not_le.1 hdepth)).bind fun flow => ?_
      cases flow with
      | normal => exact (Counts.keep depth).pure _
      | returned value => exact (Counts.keep depth).lift _

theorem counts_invoke (rule : LoopRule) (functions : Scope Definition) (depth : Nat) :
    Evaluator.Keep.Calls (Counts depth) (invoke rule functions)
      (Evaluation.invokeWithin rule functions (Evaluation.maxCallDepth - depth)) :=
  counts_invokeWithin rule functions (Nat.le_add_right _ _)

open Evaluation (left)

theorem Counts.left {R : Scopes Value → Scopes Value → Prop} {depth : Nat} {m : Counting α}
    {plain : Eval α} (h : Counts depth m plain) (hleaves : Evaluation.Leaves R plain)
    (store : Store) : R store.scopes (left (m ⟨store, depth⟩)).store.scopes ∧
      (left (m ⟨store, depth⟩)).depth = depth := by
  have hafter := hleaves store
  rw [h store]
  cases hplain : plain store <;> rw [hplain] at hafter <;> exact ⟨hafter, rfl⟩

variable (rule : LoopRule) (functions : Scope Definition) (store : Store) (depth : Nat)

/-- However a statement or an expression ends, the scopes that it has opened are closed and the
calls that it has made are over.  A statement may add names to the innermost scope alone, an
expression to none, and it changes no scope but the outermost. -/
theorem unwinds :
    (∀ s : Stmt Info,
      let counted := Evaluation.statement functions (invoke rule functions) rule s
      let plain : Eval Flow := Evaluation.statement functions
        (Evaluation.invokeWithin rule functions (Evaluation.maxCallDepth - depth)) rule s
      counted ⟨store, depth⟩ = atDepth depth (plain store) ∧
        Scopes.Restored store.scopes (left (counted ⟨store, depth⟩)).store.scopes ∧
        (left (counted ⟨store, depth⟩)).depth = depth) ∧
    ∀ e : Expr Info,
      let counted := Evaluation.expression functions (invoke rule functions) e
      let plain : Eval Value := Evaluation.expression functions
        (Evaluation.invokeWithin rule functions (Evaluation.maxCallDepth - depth)) e
      counted ⟨store, depth⟩ = atDepth depth (plain store) ∧
        Scopes.Kept store.scopes (left (counted ⟨store, depth⟩)).store.scopes ∧
        (left (counted ⟨store, depth⟩)).depth = depth := by
  have hinvoke := counts_invoke rule functions depth
  constructor
  · intro s counted plain
    have hcounts : Counts depth counted plain :=
      (Counts.keep depth).statement functions rule hinvoke s
    exact ⟨hcounts store, hcounts.left (Evaluation.statement_restores rule functions _ s) store⟩
  · intro e counted plain
    have hcounts : Counts depth counted plain := (Counts.keep depth).expression functions hinvoke e
    exact ⟨hcounts store, hcounts.left (Evaluation.expression_keeps rule functions _ e) store⟩

end Counting
end CatScript
