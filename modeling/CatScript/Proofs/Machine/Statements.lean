import CatScript.Proofs.Machine.Expressions
import CatScript.Proofs.Machine.Slots

/-! # The code of statements

The code of a well-typed statement leaves the machine in agreement with the store that carrying out
the statement leaves behind, returns where the statement does, and fails as it does
(`Simulation.statement`).  Loops are followed item by item (`Simulation.eachItem`). -/
set_option autoImplicit false
namespace CatScript
namespace Simulation
open Machine Typing

/-- Slots that a piece of code has been told nothing of stay as they are. -/
structure Untouched (frame : Frame) (slots slots' : Array Operand) : Prop where
  size : slots'.size = slots.size
  same : ∀ slot, slot < (frame.slot : Nat) → ¬frame.Uses slot → slots'[slot]? = slots[slot]?

/-- The machine is past a piece of code that leads from one frame to another. -/
structure Past (setting : Setting) (frame after : Frame) (slots : Array Operand) (moment : Moment)
    (store : Store) (slots' : Array Operand) (later : Moment) : Prop where
  holds : Holds after.locals slots' later.contents store.scopes.nested
  agrees : Agrees setting store later
  heap : moment.contents.Extends moment.shared.heap later.contents later.shared.heap
  slots : Untouched frame slots slots'

def Gives (contents : Contents) (ty : Ty) (value : Value) (result : Option Operand) : Prop :=
  if ty = .void then value = .null else ∃ operand, result = some operand ∧
    Keeps contents ty value operand

/-- The routine ends with a value; if that is `null` and there is no room for it, the run fails. -/
def Returned (setting : Setting) (site : Site) (returns : Option Ty) (moment : Moment)
    (value : Value) (store : Store) (t : Status) : Prop :=
  ∃ ty, returns = some ty ∧
    ((value = .null ∧ ty.isPrimitive = true ∧ Failed setting .nullReference store t) ∨
      ∃ later current result, t = leave ⟨current, site.callers, later.shared, later.calls⟩ result ∧
        Gives later.contents ty value result ∧ Agrees setting store later ∧
        moment.contents.Extends moment.shared.heap later.contents later.shared.heap)

/-- The run has got to where a statement ends: past its code, or out of the routine. -/
def Flowed (setting : Setting) (site : Site) (rest : List Instruction) (returns : Option Ty)
    (frame after : Frame) (slots : Array Operand) (moment : Moment) (ends : Bool) :
    Flow → Store → Status → Prop
  | .normal, store, t => ends = false ∧ ∃ later slots', t = site.at rest [] slots' later ∧
      Past setting frame after slots moment store slots' later
  | .returned value, store, t => Returned setting site returns moment value store t

section Rules
variable {setting : Setting} {site : Site} {frame middle after : Frame}
  {slots slots' slots'' : Array Operand} {moment later : Moment} {store : Store}
  {returns : Option Ty}

theorem store_local {home : Local} {code : List Instruction} {stack : List Operand} {value : Value}
    {operand : Operand}
    (hkeeps : Keeps moment.contents home.ty value operand) (hslot : (home.slot : Nat) < slots.size) :
    Reaches setting.program (site.at (Generation.store home :: code) (operand :: stack) slots moment)
      (site.at code stack (slots.setIfInBounds home.slot operand) moment) := by
  obtain ⟨slot, ty⟩ := home
  rw [Generation.store]
  cases hkeeps with
  | integer n => exact storeInt n hslot
  | boolean b => exact storeInt _ hslot
  | reference hty _ _ =>
    rw [if_neg (by rw [hty]; exact Bool.false_ne_true)]
    exact storeRef _ hslot

theorem Untouched.refl (frame : Frame) (slots : Array Operand) : Untouched frame slots slots :=
  ⟨rfl, fun _ _ _ => rfl⟩

theorem Untouched.trans (h : Untouched frame slots slots') (h' : Untouched middle slots' slots'')
    (hbeside : Beside frame middle) : Untouched frame slots slots'' := by
  refine ⟨h'.size.trans h.size, fun slot hslot hfree => ?_⟩
  rw [h'.same slot (Nat.lt_of_lt_of_le hslot hbeside.slot) ?_, h.same slot hslot hfree]
  rintro ⟨entry, hentry, heq⟩
  rcases hbeside.fresh entry hentry with hold | hnew
  · exact hfree ⟨entry, hold, heq⟩
  · rw [heq] at hnew
    exact absurd hslot (Nat.not_lt_of_le hnew)

theorem Untouched.set {slot : Nat} (h : frame.Uses slot ∨ (frame.slot : Nat) ≤ slot)
    (operand : Operand) : Untouched frame slots (slots.setIfInBounds slot operand) := by
  refine ⟨Array.size_setIfInBounds, fun other hother hfree => getElem?_store ?_⟩
  rintro rfl
  exact h.elim hfree fun hle => absurd hother (Nat.not_lt_of_le hle)

theorem Past.of_beyond {start : Store} (hholds : Holds frame.locals slots moment.contents
      start.scopes.nested) (h : Beyond setting start moment store later)
    (hlocals : after.locals = frame.locals) :
    Past setting frame after slots moment store slots later :=
  ⟨hlocals ▸ h.holds hholds, h.agrees, h.heap, .refl _ _⟩

theorem Returned.from {value : Value} {t : Status}
    (h : Returned setting site returns later value store t)
    (hheap : moment.contents.Extends moment.shared.heap later.contents later.shared.heap) :
    Returned setting site returns moment value store t := by
  obtain ⟨ty, hreturns, h⟩ := h
  refine ⟨ty, hreturns, h.imp_right ?_⟩
  rintro ⟨latest, current, result, ht, hgives, hagrees, hheap'⟩
  exact ⟨latest, current, result, ht, hgives, hagrees, hheap.trans hheap'⟩

theorem Returned.onScopes {value : Value} {t : Status} {change : Scopes Value → Scopes Value}
    (h : Returned setting site returns moment value store t)
    (hchange : (change store.scopes).outermost = store.scopes.outermost) :
    Returned setting site returns moment value (store.onScopes change) t := by
  obtain ⟨ty, hreturns, h⟩ := h
  refine ⟨ty, hreturns, ?_⟩
  rcases h with ⟨hnull, hty, error, last, contents, ht, hcause, hagrees⟩ | h
  · exact .inl ⟨hnull, hty, error, last, contents, ht, hcause, hagrees.onScopes hchange⟩
  · obtain ⟨later, current, result, ht, hgives, hagrees, hheap⟩ := h
    exact .inr ⟨later, current, result, ht, hgives, hagrees.onScopes hchange, hheap⟩

theorem failed_onScopes {cause : EvalError} {t : Status} {change : Scopes Value → Scopes Value}
    (h : Failed setting cause store t)
    (hchange : (change store.scopes).outermost = store.scopes.outermost) :
    Failed setting cause (store.onScopes change) t := by
  obtain ⟨error, last, contents, ht, hcause, hagrees⟩ := h
  exact ⟨error, last, contents, ht, hcause, hagrees.onScopes hchange⟩

theorem uses_push (hbased : frame.locals.Based) {slot : Nat} :
    Frame.Uses { frame with locals := frame.locals.push } slot ↔ frame.Uses slot := by
  unfold Frame.Uses
  rw [Scopes.levels_push hbased, List.flatten_cons, List.nil_append]

theorem Flowed.onward {rest : List Instruction} {ends : Bool} {flow : Flow} {store' : Store}
    {t : Status} (h : Flowed setting site rest returns middle after slots' later ends flow store' t)
    (hpast : Past setting frame middle slots moment store slots' later)
    (hbeside : Beside frame middle) :
    Flowed setting site rest returns frame after slots moment ends flow store' t := by
  cases flow with
  | normal =>
    obtain ⟨hends, latest, slots'', rfl, hholds, hagrees, hheap, hslots⟩ := h
    exact ⟨hends, latest, slots'', rfl, hholds, hagrees, hpast.heap.trans hheap,
      hpast.slots.trans hslots hbeside⟩
  | returned value => exact h.from hpast.heap

/-- After a branch the run goes on where all branches meet. -/
theorem Flowed.meet {code rest : List Instruction} {ends ends' : Bool} {flow : Flow} {t : Status}
    (h : Flowed setting site code returns frame middle slots moment ends flow store t)
    (hrest : ∀ slots later, Reaches setting.program (site.at code [] slots later)
      (site.at rest [] slots later))
    (hlocals : after.locals = middle.locals) (hends : ends = false → ends' = false) :
    ∃ u, Reaches setting.program t u ∧
      Flowed setting site rest returns frame after slots moment ends' flow store u := by
  cases flow with
  | normal =>
    obtain ⟨hfalse, latest, slots', rfl, hholds, hagrees, hheap, hslots⟩ := h
    exact ⟨_, hrest slots' latest, hends hfalse, latest, slots', rfl, hlocals ▸ hholds, hagrees,
      hheap, hslots⟩
  | returned value => exact ⟨t, .refl t, h⟩

/-- At the end of a block the variables in it are forgotten. -/
theorem block {m : Eval Flow} {rest : List Instruction} {s : Status} {ends : Bool}
    (hbased : frame.locals.Based)
    (h : Simulates setting.program m (store.onScopes Scopes.push) s
      (Flowed setting site rest returns { frame with locals := frame.locals.push } after slots moment
        ends) (Failed setting)) :
    Simulates setting.program (Evaluation.inScope m) store s
      (Flowed setting site rest returns frame { after with locals := after.locals.pop } slots moment
        ends) (Failed setting) := by
  refine .inScope (h.mono (fun flow last t hflow => ?_) fun cause last t hfailed =>
    failed_onScopes hfailed rfl)
  cases flow with
  | normal =>
    obtain ⟨hends, later, slots', rfl, hholds, hagrees, hheap, hslots⟩ := hflow
    refine ⟨hends, later, slots', rfl, hholds.pop, hagrees.onScopes rfl, hheap, hslots.size,
      fun slot hslot hfree => hslots.same slot hslot ?_⟩
    rw [uses_push hbased]
    exact hfree
  | returned value => exact hflow.onScopes rfl

end Rules
end Simulation
end CatScript
