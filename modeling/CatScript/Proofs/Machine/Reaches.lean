import CatScript.Machine.Run
import CatScript.Proofs.Evaluation.Steps

/-! # Runs of the machine beside evaluation

`Machine.Reaches` says that a run gets from one status to another.  `Machine.Simulates` says that
the machine, started from a status, gets to where a step of evaluation ends, with a result or with
an error.  The rules below put such steps together. -/
set_option autoImplicit false
namespace CatScript
namespace Machine

def onward (program : LinkedProgram) (fuel : Nat) : Status → Status
  | .running configuration => run program fuel configuration
  | ended => ended

def Reaches (program : LinkedProgram) (s t : Status) : Prop :=
  ∃ fuel, onward program fuel s = t

namespace Reaches
variable {program : LinkedProgram} {s t u : Status}

theorem refl (s : Status) : Reaches program s s := by
  refine ⟨0, ?_⟩
  cases s <;> rfl

theorem trans (hst : Reaches program s t) (htu : Reaches program t u) : Reaches program s u := by
  obtain ⟨fuel, rfl⟩ := hst
  obtain ⟨more, rfl⟩ := htu
  refine ⟨fuel + more, ?_⟩
  cases s with
  | running configuration =>
    show run program (fuel + more) configuration =
      onward program more (run program fuel configuration)
    rw [run_add]
    cases run program fuel configuration <;> rfl
  | finished last => rfl
  | failed error last => rfl

theorem step (configuration : Configuration) :
    Reaches program (.running configuration) (Machine.step program configuration) := by
  refine ⟨1, ?_⟩
  simp only [onward, run]
  cases Machine.step program configuration <;> rfl

end Reaches

variable {α β : Type} {program : LinkedProgram}

/-- Started from the status `s`, the machine gets to where the step of evaluation ends. -/
def Simulates (program : LinkedProgram) (m : Eval α) (store : Store) (s : Status)
    (P : α → Store → Status → Prop) (F : EvalError → Store → Status → Prop) : Prop :=
  match m store with
  | .ok a after => ∃ t, Reaches program s t ∧ P a after t
  | .error cause after => ∃ t, Reaches program s t ∧ F cause after t

namespace Simulates
variable {m : Eval α} {store : Store} {s t : Status} {P P' : α → Store → Status → Prop}
  {F F' : EvalError → Store → Status → Prop}

theorem of_ok {a : α} {after : Store} (h : m store = .ok a after) (ht : Reaches program s t)
    (hP : P a after t) : Simulates program m store s P F := by
  rw [Simulates, h]
  exact ⟨t, ht, hP⟩

theorem of_error {cause : EvalError} {after : Store} (h : m store = .error cause after)
    (ht : Reaches program s t) (hF : F cause after t) : Simulates program m store s P F := by
  rw [Simulates, h]
  exact ⟨t, ht, hF⟩

theorem pure {a : α} (hP : P a store s) : Simulates program (Pure.pure a) store s P F :=
  of_ok rfl (.refl s) hP

theorem mono (h : Simulates program m store s P F)
    (hP : ∀ a after t, P a after t → P' a after t)
    (hF : ∀ cause after t, F cause after t → F' cause after t) :
    Simulates program m store s P' F' := by
  unfold Simulates at h ⊢
  cases hm : m store with
  | ok a after => rw [hm] at h; exact h.imp fun t ht => ⟨ht.1, hP a after t ht.2⟩
  | error cause after => rw [hm] at h; exact h.imp fun t ht => ⟨ht.1, hF cause after t ht.2⟩

/-- The machine may get to where the step starts first. -/
theorem of_reaches (hst : Reaches program s t) (h : Simulates program m store t P F) :
    Simulates program m store s P F := by
  unfold Simulates at h ⊢
  cases hm : m store with
  | ok a after => rw [hm] at h; exact h.imp fun u hu => ⟨hst.trans hu.1, hu.2⟩
  | error cause after => rw [hm] at h; exact h.imp fun u hu => ⟨hst.trans hu.1, hu.2⟩

/-- The machine may go on from where the step ends. -/
theorem onward (h : Simulates program m store s P F)
    (hP : ∀ a after t, P a after t → ∃ u, Reaches program t u ∧ P' a after u) :
    Simulates program m store s P' F := by
  unfold Simulates at h ⊢
  cases hm : m store with
  | ok a after =>
    rw [hm] at h
    obtain ⟨t, hst, ht⟩ := h
    obtain ⟨u, htu, hu⟩ := hP a after t ht
    exact ⟨u, hst.trans htu, hu⟩
  | error cause after => rw [hm] at h; exact h

theorem bind {f : α → Eval β} {Q : β → Store → Status → Prop}
    (hm : Simulates program m store s P F)
    (hf : ∀ a after t, P a after t → Simulates program (f a) after t Q F) :
    Simulates program (m >>= f) store s Q F := by
  unfold Simulates at hm
  cases hrun : m store with
  | ok a after =>
    rw [hrun] at hm
    obtain ⟨t, hst, ht⟩ := hm
    have hnext := of_reaches hst (hf a after t ht)
    rw [Simulates, Evaluation.bind_ok hrun]
    exact hnext
  | error cause after =>
    rw [hrun] at hm
    obtain ⟨t, hst, ht⟩ := hm
    exact of_error (Evaluation.bind_error hrun f) hst ht

/-- The machine may stay where it is while a step is made. -/
theorem bind_ok {f : α → Eval β} {a : α} {after : Store} {Q : β → Store → Status → Prop}
    (hm : m store = .ok a after) (hf : Simulates program (f a) after s Q F) :
    Simulates program (m >>= f) store s Q F := by
  rw [Simulates, Evaluation.bind_ok hm]
  exact hf

theorem thenAlways {change : Scopes Value → Scopes Value}
    (h : Simulates program m store s (fun a after => P a (after.onScopes change))
      fun cause after => F cause (after.onScopes change)) :
    Simulates program (Evaluation.thenAlways m change) store s P F := by
  unfold Simulates at h ⊢
  rw [Evaluation.thenAlways]
  cases hm : m store with
  | ok a after => rw [hm] at h; exact h
  | error cause after => rw [hm] at h; exact h

theorem inScope
    (h : Simulates program m (store.onScopes Scopes.push) s
      (fun a after => P a (after.onScopes Scopes.pop))
      fun cause after => F cause (after.onScopes Scopes.pop)) :
    Simulates program (Evaluation.inScope m) store s P F :=
  thenAlways h

theorem inCall {bound : Scope Value}
    (h : Simulates program m (store.onScopes fun scopes => { scopes with nested := [bound] }) s
      (fun a after => P a
        (after.onScopes fun scopes => { scopes with nested := store.scopes.nested }))
      fun cause after => F cause
        (after.onScopes fun scopes => { scopes with nested := store.scopes.nested })) :
    Simulates program (Evaluation.inCall bound m) store s P F :=
  thenAlways h

end Simulates
end Machine
end CatScript
