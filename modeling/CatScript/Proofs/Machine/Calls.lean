import CatScript.Proofs.Machine.Bodies

/-! # Calls

A call of the machine does what the call of evaluation does, as long as both may nest equally deep
(`Simulation.callsAgree`): the slots of the routine start with the arguments, its code is that of
the body, and the caller goes on with what the body returns. -/
set_option autoImplicit false
namespace CatScript
namespace Simulation
open Machine Typing

section Start
variable {contents : Contents} {params : List Parameter} {bound : Scope Value}
  {operands : List Operand}

theorem Binds.length (h : Binds contents params bound operands) :
    operands.length = params.length := by
  induction h with
  | nil => rfl
  | cons _ _ ih => rw [List.length_cons, List.length_cons, ih]

theorem Binds.match_homes (h : Binds contents params bound operands) {slots : Array Operand}
    {slot : Nat}
    (hslots : ∀ n operand, operands[n]? = some operand → slots[slot + n]? = some operand) :
    Scope.Match (fun value (home : Local) => ∃ operand, slots[home.slot]? = some operand ∧
      Keeps contents home.ty value operand) bound (Generation.homes slot params) := by
  induction h generalizing slot with
  | nil => exact .nil
  | @cons param params value bound operand operands hkeeps _ ih =>
    intro name
    rw [Generation.homes, Scope.find?_cons, Scope.find?_cons]
    split
    · exact .some ⟨operand, hslots 0 operand rfl, hkeeps⟩
    · refine ih (fun n other hother => ?_) name
      rw [Nat.add_assoc, Nat.add_comm 1]
      exact hslots (n + 1) other hother

def startSlots (linked : LinkedRoutine) (operands : List Operand) : Array Operand :=
  (Activation.start linked (.ref .program :: operands)).locals

theorem startSlots_get {linked : LinkedRoutine} {n : Nat} {operand : Operand}
    (h : (Operand.ref .program :: operands)[n]? = some operand) :
    (startSlots linked operands)[n]? = some operand := by
  have hlt := (List.getElem?_eq_some_iff.1 h).1
  rw [startSlots, Activation.start, List.getElem?_toArray, List.getElem?_append_left hlt, h]

theorem le_size_startSlots (linked : LinkedRoutine) (operands : List Operand) :
    linked.maxLocals ≤ (startSlots linked operands).size := by
  rw [startSlots, Activation.start, List.size_toArray, List.length_append, List.length_replicate]
  omega

theorem Binds.holds (h : Binds contents params bound operands) (linked : LinkedRoutine) :
    Holds (Generation.bodyFrame params).locals (startSlots linked operands) contents [bound] := by
  refine ⟨startSlots_get rfl, .cons (h.match_homes fun n operand hoperand => ?_) .nil⟩
  rw [Nat.add_comm]
  exact startSlots_get hoperand

end Start

section Calls
variable {setting : Setting}

/-- The code of a routine after that of the body. -/
def trailing (returns : Ty) : List Instruction :=
  if returns = .void then [.returnVoid] else []

/-- A call starts the routine of the function if another call may be nested. -/
theorem enter_ok {name : String} {linked : LinkedRoutine}
    (hlinked : setting.program.routines.find? name = some linked) {operands : List Operand}
    (hcount : operands.length = linked.params) {callers : List Waiting}
    (hroom : callers.length < maxCallDepth) (current : Activation) (shared : Shared)
    (calls : List (String × Nat)) (waiting : Waiting) :
    enter setting.program ⟨current, callers, shared, calls⟩ name (.ref .program :: operands) waiting =
      .running ⟨.start linked (.ref .program :: operands), waiting :: callers, shared,
        (name, callers.length) :: calls⟩ := by
  have hcallee : callee setting.program callers.length name (.ref .program :: operands) =
      .ok (.start linked (.ref .program :: operands)) := by
    rw [callee, hlinked]
    dsimp only
    rw [if_neg (by simp [hcount]), if_neg (Nat.not_le_of_lt hroom)]
  rw [enter, hcallee]

theorem enter_deep {name : String} {linked : LinkedRoutine}
    (hlinked : setting.program.routines.find? name = some linked) {operands : List Operand}
    (hcount : operands.length = linked.params) {callers : List Waiting}
    (hroom : maxCallDepth ≤ callers.length) (current : Activation) (shared : Shared)
    (calls : List (String × Nat)) (waiting : Waiting) :
    enter setting.program ⟨current, callers, shared, calls⟩ name (.ref .program :: operands) waiting =
      .failed (.callDepthExceeded maxCallDepth) ⟨current, callers, shared, calls⟩ := by
  have hcallee : callee setting.program callers.length name (.ref .program :: operands) =
      .error (.callDepthExceeded maxCallDepth) := by
    rw [callee, hlinked]
    dsimp only
    rw [if_neg (by simp [hcount]), if_pos hroom]
  rw [enter, hcallee]

theorem leave_gives {contents : Contents} {ty : Ty} {value : Value} {result : Option Operand}
    (h : Gives contents ty value result) (current caller : Activation) (callers : List Waiting)
    (shared : Shared) (calls : List (String × Nat)) :
    ∃ stack, leave ⟨current, ⟨ty != .void, caller⟩ :: callers, shared, calls⟩ result =
      .running ⟨{ caller with stack }, callers, shared, calls⟩ ∧
      Leaves contents ty value caller.stack stack := by
  unfold Gives at h
  by_cases hty : ty = .void
  · subst hty
    exact ⟨caller.stack, rfl, by rw [Leaves, if_pos rfl]; exact ⟨h, rfl⟩⟩
  · rw [if_neg hty] at h
    obtain ⟨operand, rfl, hkeeps⟩ := h
    have hwaits : (ty != .void) = true := bne_iff_ne.2 hty
    refine ⟨operand :: caller.stack, ?_, by rw [Leaves, if_neg hty]; exact ⟨operand, rfl, hkeeps⟩⟩
    rw [hwaits]
    rfl

theorem stored_of_gives {contents : Contents} {ty : Ty} {value : Value} {result : Option Operand}
    (h : Gives contents ty value result) (store : Store) :
    Evaluation.stored (some ty) value store = .ok value store := by
  unfold Gives at h
  split at h
  · next hty => subst hty h; rfl
  · obtain ⟨operand, -, hkeeps⟩ := h
    rcases Evaluation.stored_eq (Ty.accepts_self ty) (.inl hkeeps.admits) store with
      ⟨hstored, -⟩ | ⟨rfl, hprimitive, -⟩
    · exact hstored
    · obtain ⟨n, rfl⟩ := hkeeps.unboxed hprimitive
      generalize hvalue : Value.null = value at hkeeps
      cases hkeeps <;> cases hvalue

theorem called_of_returned {setting : Setting} {site : Site} {ty : Ty} {caller : Activation}
    {callers : List Waiting} {store store' : Store} {moment : Moment} {value : Value} {t : Status}
    (hcallers : site.callers = ⟨ty != .void, caller⟩ :: callers)
    (h : Returned setting site (some ty) moment value store' t)
    (hnested : store'.scopes.nested = store.scopes.nested) :
    Simulates setting.program (Evaluation.stored (some ty) value) store' t
      (Called setting caller callers store moment ty) (Failed setting) := by
  obtain ⟨_, hty, h⟩ := h
  cases hty
  rcases h with ⟨rfl, hprimitive, hfailed⟩ |
    ⟨later, current, result, rfl, hgives, hagrees, hheap⟩
  · refine .of_error ?_ (.refl _) hfailed
    simp [Evaluation.stored, hprimitive]
    rfl
  · obtain ⟨stack, hleave, hleaves⟩ := leave_gives hgives current caller callers later.shared
      later.calls
    rw [hcallers, hleave]
    exact .of_ok (stored_of_gives hgives store') (.refl _)
      ⟨later, stack, rfl, hleaves, hnested, hagrees, hheap⟩

/-- The body of a function has been carried out: the run is at the end of the routine of a `void`
function, or out of it. -/
def Ended (setting : Setting) (site : Site) (returns : Ty) (store : Store) (moment : Moment) :
    Flow → Store → Status → Prop
  | .normal, last, t => last.scopes.nested = store.scopes.nested ∧ returns = .void ∧
      ∃ later slots, t = site.at [.returnVoid] [] slots later ∧ Agrees setting last later ∧
        moment.contents.Extends moment.shared.heap later.contents later.shared.heap
  | .returned value, last, t => last.scopes.nested = store.scopes.nested ∧
      Returned setting site (some returns) moment value last t

theorem called_of_ended {site : Site} {ty : Ty} {caller : Activation} {callers : List Waiting}
    {store last : Store} {moment : Moment} {flow : Flow} {t : Status}
    (hcallers : site.callers = ⟨ty != .void, caller⟩ :: callers)
    (h : Ended setting site ty store moment flow last t) :
    Simulates setting.program
      (match flow with
        | .normal => return .null
        | .returned value => Evaluation.stored (some ty) value) last t
      (Called setting caller callers store moment ty) (Failed setting) := by
  cases flow with
  | normal =>
    obtain ⟨hnested, rfl, later, slots, rfl, hagrees, hheap⟩ := h
    have hgives : Gives later.contents .void .null none := by rw [Gives, if_pos rfl]
    obtain ⟨stack, hleave, hleaves⟩ := leave_gives hgives
      ⟨site.routine, [.returnVoid], [], slots⟩ caller callers later.shared later.calls
    refine .of_ok rfl returnVoid ?_
    rw [hcallers, hleave]
    exact ⟨later, stack, rfl, hleaves, hnested, hagrees, hheap⟩
  | returned value => exact called_of_returned hcallers h.2 h.1

/-- The body of a function, and the end of its routine, do what a call does. -/
theorem invoked {room : Nat} {invoke : Invoke Eval} {definition : Definition} {signature : Signature}
    {linked : LinkedRoutine}
    (himplements : Generation.Implements setting.globals setting.table definition signature linked)
    (hcalls : CallsAgree setting room invoke) {bound : Scope Value} {operands : List Operand}
    {store : Store} {moment : Moment} {caller : Activation} {callers : List Waiting}
    (hroom : callers.length + (room + 1) = maxCallDepth) (hagrees : Agrees setting store moment)
    (hbinds : Binds moment.contents definition.params bound operands) :
    Simulates setting.program
      (do match ← Evaluation.inCall bound
            (Evaluation.statements setting.functions invoke .own definition.body) with
          | .normal => return .null
          | .returned value => Evaluation.stored (some definition.returns) value) store
      (.running ⟨.start linked (.ref .program :: operands),
        ⟨definition.returns != .void, caller⟩ :: callers, moment.shared, moment.calls⟩)
      (Called setting caller callers store moment definition.returns) (Failed setting) := by
  obtain ⟨hwell, outermost, after, frame, code, hsub, hchecks, ⟨hcode, hleads⟩, hlinks⟩ :=
    himplements
  have hne : (⟨⟨outermost, [parameterScope definition.params]⟩, setting.table⟩ :
      Symbols).scopes.nested ≠ [] := List.cons_ne_nil _ _
  have hframe := Generation.framed_bodyFrame setting.carries.serves hsub hwell.callable.distinct
  have hlinked : linked.code = code ++ trailing definition.returns := by
    rw [hlinks.code, Generation.routineOf, trailing]
    split <;> simp
  have hsize : (frame.slot : Nat) ≤ (startSlots linked operands).size := by
    have hle := le_size_startSlots linked operands
    rw [hlinks.maxLocals] at hle
    exact hle
  obtain ⟨site, hsite⟩ : ∃ site : Site, site =
    ⟨linked, ⟨definition.returns != .void, caller⟩ :: callers⟩ := ⟨_, rfl⟩
  have hworking : Working setting room invoke site := by
    refine ⟨hcalls, ?_, ?_⟩
    · rw [hsite, List.length_cons]
      omega
    · rw [hsite]
      exact hlinks.resolves
  have hstart : Status.running ⟨.start linked (.ref .program :: operands),
      ⟨definition.returns != .void, caller⟩ :: callers, moment.shared, moment.calls⟩ =
      site.at (code ++ trailing definition.returns) [] (startSlots linked operands) moment := by
    rw [hsite, ← hlinked]
    rfl
  rw [hstart]
  have hwhole : code ++ trailing definition.returns = site.routine.code := by
    rw [hsite]
    exact hlinked.symm
  have hall : code ++ trailing definition.returns <:+ site.routine.code :=
    hwhole ▸ List.suffix_refl _
  have hbefore : Before setting site _ _ _ _ _ _
      (store.onScopes fun scopes => { scopes with nested := [bound] }) moment :=
    ⟨hframe, hall, hsize, hbinds.holds linked, hagrees.onScopes rfl⟩
  have hbody := statements hworking definition.body hchecks (hchecks.grows.sub hne hsub)
    (show Surrounds (.ofFunction definition.returns) _ (some definition.returns) from ⟨rfl, rfl⟩)
    hcode hbefore
  have hended : Simulates setting.program (Evaluation.inCall bound
      (Evaluation.statements setting.functions invoke .own definition.body)) store
      (site.at (code ++ trailing definition.returns) [] (startSlots linked operands) moment)
      (Ended setting site definition.returns store moment) (Failed setting) := by
    refine .inCall (hbody.mono (fun flow last t hflow => ?_) fun cause last t hfailed =>
      failed_onScopes hfailed rfl)
    cases flow with
    | normal =>
      obtain ⟨hends, later, slots, rfl, -, hagrees, hheap, -⟩ := hflow
      have hvoid : definition.returns = .void := by
        refine hwell.callable.returns.resolve_right fun h => ?_
        rw [hends] at h
        cases h.2
      rw [trailing, if_pos hvoid]
      exact ⟨rfl, hvoid, later, slots, rfl, hagrees.onScopes rfl, hheap⟩
    | returned value => exact ⟨rfl, hflow.onScopes rfl⟩
  exact hended.bind fun flow last t h => called_of_ended (by rw [hsite]) h

theorem params_of_implements {definition : Definition} {signature : Signature}
    {linked : LinkedRoutine}
    (h : Generation.Implements setting.globals setting.table definition signature linked) :
    linked.params = definition.params.length := by
  obtain ⟨_, _, _, _, _, _, _, _, hlinks⟩ := h
  rw [hlinks.params, Generation.routineOf, List.length_map]

/-- Calls of the machine do what calls of evaluation do. -/
theorem callsAgree (setting : Setting) (room : Nat) :
    CallsAgree setting room (Evaluation.invokeWithin .own setting.functions room) := by
  induction room with
  | zero =>
    intro name signature definition hsignature hdefinition bound operands store moment current caller
      callers hroom hbinds hagrees
    obtain ⟨_, linked, hfound, hlinked, himplements⟩ :=
      setting.carries.calls name signature hsignature
    cases hdefinition.symm.trans hfound
    have hcount := hbinds.length.trans (params_of_implements himplements).symm
    rw [enter_deep hlinked hcount (Nat.le_of_eq hroom.symm)]
    exact .of_error rfl (.refl _) ⟨_, _, moment.contents, rfl, .callDepthExceeded _, hagrees⟩
  | succ room ih =>
    intro name signature definition hsignature hdefinition bound operands store moment current caller
      callers hroom hbinds hagrees
    obtain ⟨_, linked, hfound, hlinked, himplements⟩ :=
      setting.carries.calls name signature hsignature
    cases hdefinition.symm.trans hfound
    have hcount := hbinds.length.trans (params_of_implements himplements).symm
    have hdeep : callers.length < maxCallDepth := by omega
    rw [enter_ok hlinked hcount hdeep, himplements.wellTyped.returns]
    have hstart : Agrees setting store
        { moment with calls := (name, callers.length) :: moment.calls } :=
      ⟨hagrees.describes, hagrees.globals, hagrees.output⟩
    refine (invoked himplements ih hroom hstart hbinds).mono ?_ fun _ _ _ hfailed => hfailed
    rintro value after t ⟨later, stack, rfl, hleaves, hnested, hagrees, hheap⟩
    exact ⟨later, stack, rfl, hleaves, hnested, hagrees, hheap⟩

end Calls
end Simulation
end CatScript
