import CatScript.Proofs.Machine.Loops

/-! # The code of bodies

The code of a well-typed statement leaves the machine in agreement with the store that carrying out
the statement leaves behind, returns where the statement does, and fails as it does
(`Simulation.statement`). -/
set_option autoImplicit false
namespace CatScript
namespace Simulation
open Machine Typing

section Pieces
variable {setting : Setting} {room : Nat} {invoke : Invoke Eval} {site : Site} {types : Scopes Ty}
  {frame after : Frame} {slots : Array Operand} {moment later : Moment} {store store' : Store}
  {value : Value} {operand : Operand} {rest code : List Instruction} {stack : List Operand}
  {returns : Option Ty} {label : Label}

/-- What follows an expression finds its value on the stack, as its target keeps it. -/
theorem bind_stored {α : Type} {f : Value → Eval α} {e : Expr Info} {target : Ty}
    {label label' : Label} {Q : α → Store → Status → Prop} {locals : Scopes Local}
    (hworking : Working setting room invoke site)
    (hprovides : Generation.Provides ⟨types, setting.table⟩ setting.globals locals)
    (hfits : Fits ⟨types, setting.table⟩ e target)
    (hcode : Generation.value setting.globals locals target e label = .ok (code, label'))
    (hsuffix : code ++ rest <:+ site.routine.code)
    (hholds : Holds locals slots moment.contents store.scopes.nested)
    (hagrees : Agrees setting store moment)
    (hf : ∀ value operand after later, Keeps later.contents target value operand →
      Beyond setting store moment after later →
      Simulates setting.program (f value) after (site.at rest (operand :: stack) slots later) Q
        (Failed setting)) :
    Simulates setting.program (Evaluation.expression setting.functions invoke e >>= fun value =>
        Evaluation.stored (some target) value >>= f) store
      (site.at (code ++ rest) stack slots moment) Q (Failed setting) := by
  obtain ⟨ty, hty, hvoid, haccepts⟩ := hfits
  obtain ⟨first, hfirst, rfl⟩ := Generation.ok_of_value hty.mark hcode
  rw [List.append_assoc] at hsuffix ⊢
  refine bind_value hvoid (expression hworking hprovides e hty hfirst _ hsuffix stack store moment
    hholds hagrees) fun value operand middle later hkeeps hbeyond => ?_
  refine (coerce_simulates hkeeps (Ty.admits_of_accepts haccepts hkeeps.admits)
    hbeyond.agrees).bind ?_
  rintro _ _ _ ⟨rfl, rfl, kept, rfl, hkept⟩
  exact hf _ kept _ later hkept hbeyond

theorem declare_local {name : String} {ty : Ty}
    (hframe : Framed ⟨types, setting.table⟩ setting.globals frame) (hnested : types.nested ≠ [])
    (hfresh : (⟨types, setting.table⟩ : Symbols).declaredHere name = false)
    (hslot : (frame.slot : Nat) < slots.size)
    (hholds : Holds frame.locals slots moment.contents store.scopes.nested)
    (hkeeps : Keeps later.contents ty value operand)
    (hbeyond : Beyond setting store moment store' later)
    (hlocals : after.locals = frame.locals.declare name ⟨frame.slot, ty⟩) :
    Simulates setting.program (do Evaluation.declare name value; return Flow.normal) store'
      (site.at (Generation.store ⟨frame.slot, ty⟩ :: rest) [operand] slots later)
      (Flowed setting site rest returns frame after slots moment false) (Failed setting) := by
  have hne : store'.scopes.nested ≠ [] := by
    rw [← List.length_pos_iff, (hbeyond.holds hholds).length hframe]
    exact List.length_pos_iff.2 hnested
  refine .of_reaches (store_local hkeeps hslot)
    (.bind_ok (Evaluation.declare_eq name value store') (.pure ⟨rfl, later, _, rfl, ?_⟩))
  refine ⟨hlocals ▸ (hbeyond.holds hholds).declare hframe hnested hfresh hslot hkeeps
    store'.scopes.outermost, hbeyond.agrees.onScopes (Scopes.outermost_declare hne name value),
    hbeyond.heap, .set (.inr (Nat.le_refl _)) operand⟩

theorem declare_field {name : String} {ty : Ty}
    (hframe : Framed ⟨types, setting.table⟩ setting.globals frame) (hnested : types.nested = [])
    (hfield : setting.globals.fields.find? name = some ty)
    (hholds : Holds frame.locals slots moment.contents store.scopes.nested)
    (hkeeps : Keeps later.contents ty value operand)
    (hbeyond : Beyond setting store moment store' later) (hlocals : after.locals = frame.locals) :
    Simulates setting.program (do Evaluation.declare name value; return Flow.normal) store'
      (site.at (Generation.putField name ty :: rest) [operand, .ref .program] slots later)
      (Flowed setting site rest returns frame after slots moment false) (Failed setting) := by
  have hstore : store'.scopes.nested = [] := by
    rw [← List.length_eq_zero_iff, (hbeyond.holds hholds).length hframe]
    exact List.length_eq_zero_iff.2 hnested
  obtain ⟨_, _, -, hold, -⟩ := hbeyond.agrees.globals name ty hfield
  have hscopes : Scopes.declare name value store'.scopes =
      ⟨store'.scopes.outermost.bind name value, store'.scopes.nested⟩ := by
    rw [Scopes.declare, hstore]
  refine .of_reaches (putField hold hkeeps.suits)
    (.bind_ok (Evaluation.declare_eq name value store') (.pure ⟨rfl, _, slots, rfl, ?_⟩))
  rw [Store.onScopes, hscopes]
  exact ⟨hlocals ▸ hbeyond.holds hholds, hbeyond.agrees.store hfield hkeeps _, hbeyond.heap,
    .refl _ _⟩

theorem assign_local {name : String} {home : Local}
    (hframe : Framed ⟨types, setting.table⟩ setting.globals frame)
    (hhome : frame.locals.find? name = some home) (hsize : (frame.slot : Nat) ≤ slots.size)
    (hholds : Holds frame.locals slots moment.contents store.scopes.nested)
    (hkeeps : Keeps later.contents home.ty value operand)
    (hbeyond : Beyond setting store moment store' later) (hlocals : after.locals = frame.locals) :
    Simulates setting.program (do Evaluation.assign name value; return Flow.normal) store'
      (site.at (Generation.store home :: rest) [operand] slots later)
      (Flowed setting site rest returns frame after slots moment false) (Failed setting) := by
  have hmem : (name, home) ∈ frame.locals.levels.flatten := by
    refine Scopes.mem_of_findSome? ?_
    rw [Scopes.find?_levels hframe.provides.based, hhome]
  have hslot := Nat.lt_of_lt_of_le (hframe.range _ hmem).2 hsize
  obtain ⟨nested, hrebind, hholds'⟩ := (hbeyond.holds hholds).assign hframe hhome hslot hkeeps
  have hassign : Evaluation.assign name value store' =
      .ok () (store'.onScopes fun scopes => { scopes with nested }) := by
    rw [Evaluation.assign_eq, Scopes.assign?, hrebind]
    rfl
  refine .of_reaches (store_local hkeeps hslot)
    (.bind_ok hassign (.pure ⟨rfl, later, _, rfl, ?_⟩))
  exact ⟨hlocals ▸ hholds', hbeyond.agrees.onScopes rfl, hbeyond.heap,
    .set (.inl ⟨_, hmem, rfl⟩) operand⟩

theorem assign_field {name : String} {ty : Ty}
    (hframe : Framed ⟨types, setting.table⟩ setting.globals frame)
    (hnone : frame.locals.find? name = none)
    (hfield : setting.globals.fields.find? name = some ty)
    (hholds : Holds frame.locals slots moment.contents store.scopes.nested)
    (hkeeps : Keeps later.contents ty value operand)
    (hbeyond : Beyond setting store moment store' later) (hlocals : after.locals = frame.locals) :
    Simulates setting.program (do Evaluation.assign name value; return Flow.normal) store'
      (site.at (Generation.putField name ty :: rest) [operand, .ref .program] slots later)
      (Flowed setting site rest returns frame after slots moment false) (Failed setting) := by
  obtain ⟨old, _, hold, hkept, -⟩ := hbeyond.agrees.globals name ty hfield
  have hholds' := hbeyond.holds hholds
  have hassign : Evaluation.assign name value store' = .ok () { store' with
      scopes := ⟨store'.scopes.outermost.bind name value, store'.scopes.nested⟩ } := by
    rw [Evaluation.assign_eq, Scopes.assign?,
      Scopes.rebind?_none (hholds'.find_field hframe.provides.based hnone), hold]
  refine .of_reaches (putField hkept hkeeps.suits)
    (.bind_ok hassign (.pure ⟨rfl, _, slots, rfl, ?_⟩))
  exact ⟨hlocals ▸ hholds', hbeyond.agrees.store hfield hkeeps _, hbeyond.heap, .refl _ _⟩

theorem return_reaches {ty : Ty} (hkeeps : Keeps moment.contents ty value operand) :
    ∃ current, Reaches setting.program
      (site.at ((if ty.isPrimitive then .returnInt else .returnRef) :: rest) (operand :: stack) slots
        moment)
      (leave ⟨current, site.callers, moment.shared, moment.calls⟩ (some operand)) := by
  cases hkeeps with
  | integer n => exact ⟨_, returnInt n⟩
  | boolean b => exact ⟨_, returnInt _⟩
  | reference hty _ _ =>
    rw [if_neg (by rw [hty]; exact Bool.false_ne_true)]
    exact ⟨_, returnRef _⟩

/-- A value is given to the caller as the return type asks for. -/
theorem return_value {source ty : Ty} (hstorable : ty.Storable) (haccepts : ty.accepts source = true)
    (hkeeps : Keeps later.contents source value operand)
    (hbeyond : Beyond setting store moment store' later) :
    Simulates setting.program (Pure.pure (Flow.returned value)) store'
      (site.at (Generation.coerce source ty ++ (if ty.isPrimitive then .returnInt else .returnRef) ::
        rest) [operand] slots later)
      (Flowed setting site rest (some ty) frame after slots moment true) (Failed setting) := by
  have hcoerce : Simulates setting.program (Evaluation.stored (some ty) value) store'
      (site.at (Generation.coerce source ty ++ (if ty.isPrimitive then .returnInt else .returnRef) ::
        rest) [operand] slots later) _ (Failed setting) :=
    coerce_simulates hkeeps (Ty.admits_of_accepts haccepts hkeeps.admits) hbeyond.agrees
  unfold Simulates at hcoerce
  rcases Evaluation.stored_eq haccepts (.inl hkeeps.admits) store' with
    ⟨hstored, -⟩ | ⟨rfl, hprimitive, hstored⟩
  · rw [hstored] at hcoerce
    obtain ⟨_, hreaches, -, -, kept, rfl, hkept⟩ := hcoerce
    obtain ⟨current, hreturn⟩ := return_reaches hkept
    refine .of_ok rfl (hreaches.trans hreturn) ⟨ty, rfl, .inr ⟨later, current, some kept, rfl, ?_,
      hbeyond.agrees, hbeyond.heap⟩⟩
    rw [Gives, if_neg hstorable.ne_void]
    exact ⟨kept, rfl, hkept⟩
  · rw [hstored] at hcoerce
    obtain ⟨t, hreaches, hfailed⟩ := hcoerce
    exact .of_ok rfl hreaches ⟨ty, rfl, .inl ⟨rfl, hprimitive, hfailed⟩⟩

end Pieces

section Statements
variable {setting : Setting} {room : Nat} {invoke : Invoke Eval} {site : Site} {types : Scopes Ty}
  {returns : Option Ty}

/-- A run stands before the code of a statement or a body, which leads from one frame to another. -/
structure Before (setting : Setting) (site : Site) (types : Scopes Ty) (frame after : Frame)
    (code rest : List Instruction) (slots : Array Operand) (store : Store) (moment : Moment) :
    Prop where
  framed : Framed ⟨types, setting.table⟩ setting.globals frame
  suffix : code ++ rest <:+ site.routine.code
  room : (after.slot : Nat) ≤ slots.size
  holds : Holds frame.locals slots moment.contents store.scopes.nested
  agrees : Agrees setting store moment

/-- The code of a statement does what the statement does, wherever in a routine it stands. -/
def Performs (setting : Setting) (invoke : Invoke Eval) (site : Site) (returns : Option Ty)
    (s : Stmt Info) : Prop :=
  ∀ ⦃types : Scopes Ty⦄ ⦃symbols' : Symbols⦄, Checks returns ⟨types, setting.table⟩ s symbols' →
    Scope.Sub symbols'.scopes.outermost setting.globals.fields →
    ∀ ⦃around : Surroundings⦄, Surrounds around ⟨types, setting.table⟩ returns →
    ∀ ⦃frame after : Frame⦄ ⦃code : List Instruction⦄,
    Generation.statement setting.globals around s frame = .ok (code, after) →
    ∀ ⦃rest : List Instruction⦄ ⦃slots : Array Operand⦄ ⦃store : Store⦄ ⦃moment : Moment⦄,
    Before setting site types frame after code rest slots store moment →
    Simulates setting.program (Evaluation.statement setting.functions invoke .own s) store
      (site.at (code ++ rest) [] slots moment)
      (Flowed setting site rest returns frame after slots moment (Typing.returns s))
      (Failed setting)

def PerformsAll (setting : Setting) (invoke : Invoke Eval) (site : Site) (returns : Option Ty)
    (body : List (Stmt Info)) : Prop :=
  ∀ ⦃types : Scopes Ty⦄ ⦃symbols' : Symbols⦄,
    ChecksAll returns ⟨types, setting.table⟩ body symbols' →
    Scope.Sub symbols'.scopes.outermost setting.globals.fields →
    ∀ ⦃around : Surroundings⦄, Surrounds around ⟨types, setting.table⟩ returns →
    ∀ ⦃frame after : Frame⦄ ⦃code : List Instruction⦄,
    Generation.statements setting.globals around body frame = .ok (code, after) →
    ∀ ⦃rest : List Instruction⦄ ⦃slots : Array Operand⦄ ⦃store : Store⦄ ⦃moment : Moment⦄,
    Before setting site types frame after code rest slots store moment →
    Simulates setting.program (Evaluation.statements setting.functions invoke .own body) store
      (site.at (code ++ rest) [] slots moment)
      (Flowed setting site rest returns frame after slots moment (alwaysReturns body))
      (Failed setting)

theorem branch {body : List (Stmt Info)} {symbols' : Symbols} {around : Surroundings}
    {frame middle last after : Frame} {code next rest : List Instruction} {slots : Array Operand}
    {store : Store} {moment later : Moment} {ends : Bool}
    (hbody : PerformsAll setting invoke site returns body)
    (hchecks : ChecksAll returns (⟨types, setting.table⟩ : Symbols).enter body symbols')
    (hfields : Scope.Sub types.outermost setting.globals.fields)
    (haround : Surrounds around ⟨types, setting.table⟩ returns)
    (hmiddle : Framed ⟨types, setting.table⟩ setting.globals middle)
    (hcode : Generation.statements setting.globals around.inside body
      { middle with locals := middle.locals.push } = .ok (code, last))
    (hsuffix : code ++ next <:+ site.routine.code) (hroom : (last.slot : Nat) ≤ slots.size)
    (hpast : Past setting frame middle slots moment store slots later)
    (hbeside : Beside frame middle)
    (hmeet : ∀ slots later, Reaches setting.program (site.at next [] slots later)
      (site.at rest [] slots later))
    (hlocals : after.locals = last.locals.pop) (hends : alwaysReturns body = false → ends = false) :
    Simulates setting.program
      (Evaluation.inScope (Evaluation.statements setting.functions invoke .own body)) store
      (site.at (code ++ next) [] slots later)
      (Flowed setting site rest returns frame after slots moment ends) (Failed setting) := by
  have hne : (⟨types, setting.table⟩ : Symbols).enter.scopes.nested ≠ [] := List.cons_ne_nil _ _
  have hbefore : Before setting site types.push { middle with locals := middle.locals.push } last
      code next slots (store.onScopes Scopes.push) later :=
    ⟨hmiddle.push, hsuffix, hroom, hpast.holds.push hmiddle.provides.based,
      hpast.agrees.onScopes rfl⟩
  refine (block hmiddle.provides.based (hbody hchecks (hchecks.grows.sub hne hfields)
    (haround.inside hne) hcode hbefore)).onward fun flow store' t hflow => ?_
  exact (hflow.onward hpast hbeside).meet hmeet hlocals hends

namespace Performs
variable {info : Info} {name : String} {e : Expr Info} {body thenBody elseBody : List (Stmt Info)}

theorem declaration {ty? : Option Ty} (hworking : Working setting room invoke site) :
    Performs setting invoke site returns (.declaration info name ty? e) := by
  intro types _ hchecks hfields around haround frame after code hcode rest slots store moment hbefore
  obtain ⟨hframe, hsuffix, hroom, hholds, hagrees⟩ := hbefore
  cases hchecks with
  | @declaration _ _ _ _ _ _ ty hinfo hfresh _ he =>
    rw [Evaluation.statement, hinfo]
    cases Generation.statement_code hcode with
    | declareField hty htop hfirst =>
      cases hinfo.symm.trans hty
      have hnested : types.nested = [] := List.isEmpty_iff.1 (haround.topLevel.symm.trans htop)
      simp only [List.cons_append, List.append_assoc, List.nil_append] at hsuffix ⊢
      have hfield : setting.globals.fields.find? name = some ty := by
        refine hfields name ty ?_
        simp only [Symbols.declare, Scopes.declare, hnested, Scope.find?_bind, if_true]
      exact .of_reaches (loadRef hholds.program) (bind_stored hworking hframe.provides he hfirst
        (suffix_tail hsuffix) hholds hagrees fun value operand store' later hkeeps hbeyond =>
          declare_field hframe hnested hfield hholds hkeeps hbeyond rfl)
    | declareSlot hty htop hfirst =>
      cases hinfo.symm.trans hty
      have hnested : types.nested ≠ [] := by
        intro hnil
        rw [haround.topLevel, hnil] at htop
        cases htop
      rw [List.append_assoc] at hsuffix ⊢
      exact bind_stored hworking hframe.provides he hfirst hsuffix hholds hagrees
        fun value operand store' later hkeeps hbeyond =>
          declare_local hframe hnested hfresh hroom hholds hkeeps hbeyond rfl

theorem assignment (hworking : Working setting room invoke site) :
    Performs setting invoke site returns (.assignment info name e) := by
  intro types _ hchecks hfields around _ frame after code hcode rest slots store moment hbefore
  obtain ⟨hframe, hsuffix, hroom, hholds, hagrees⟩ := hbefore
  cases hchecks with
  | assignment hinfo hty _ he =>
    rw [Evaluation.statement, hinfo]
    rcases hframe.provides.find hty with ⟨home, hhome, rfl⟩ | ⟨hnone, hfield⟩
    · cases Generation.statement_code hcode with
      | assignField hnone => cases hhome.symm.trans hnone
      | assignSlot hhome' hfirst =>
      cases hhome.symm.trans hhome'
      rw [List.append_assoc] at hsuffix ⊢
      exact bind_stored hworking hframe.provides he hfirst hsuffix hholds hagrees
        fun value operand store' later hkeeps hbeyond =>
          assign_local hframe hhome hroom hholds hkeeps hbeyond rfl
    · cases Generation.statement_code hcode with
      | assignSlot hhome => cases hnone.symm.trans hhome
      | assignField _ hfield' hfirst =>
      cases hfield.symm.trans hfield'
      simp only [List.cons_append, List.append_assoc, List.nil_append] at hsuffix ⊢
      exact .of_reaches (loadRef hholds.program) (bind_stored hworking hframe.provides he hfirst
        (suffix_tail hsuffix) hholds hagrees fun value operand store' later hkeeps hbeyond =>
          assign_field hframe hnone hfield hholds hkeeps hbeyond rfl)

theorem function {params : List Parameter} {ty : Ty} :
    Performs setting invoke site returns (.function info name params ty body) := by
  intro types _ _ _ around _ frame after code hcode rest slots store moment hbefore
  cases Generation.statement_code hcode with
  | function =>
    rw [Evaluation.statement]
    exact .pure ⟨rfl, moment, slots, rfl, .of_beyond hbefore.holds hbefore.agrees.beyond rfl⟩

theorem ifThen (hworking : Working setting room invoke site)
    (hbody : PerformsAll setting invoke site returns thenBody) :
    Performs setting invoke site returns (.ifThen info e thenBody) := by
  intro types _ hchecks hfields around haround frame after code hcode rest slots store moment hbefore
  obtain ⟨hframe, hsuffix, hroom, hholds, hagrees⟩ := hbefore
  cases hchecks with
  | ifThen hcondition hthen =>
  cases Generation.statement_code hcode with
  | @ifThen _ _ _ _ _ _ last label htest hinner =>
    have hne : (⟨types, setting.table⟩ : Symbols).enter.scopes.nested ≠ [] := List.cons_ne_nil _ _
    have hmiddle := hframe.weaken label (Nat.le_refl _)
    have hleads := Generation.leads_of_ok hthen (hthen.grows.sub hne hfields) (haround.inside hne)
      hmiddle.push hinner
    simp only [List.append_assoc, List.cons_append, List.nil_append] at hsuffix ⊢
    have hbranch := suffix_tail (suffix_right hsuffix)
    have hotherwise := suffix_tail (suffix_right hbranch)
    rw [Evaluation.statement]
    refine bind_value (by simp) (expression hworking hframe.provides e hcondition htest _ hsuffix _
      store moment hholds hagrees) fun value operand store' later hkeeps hbeyond => ?_
    obtain ⟨b, rfl, rfl⟩ := hkeeps.of_boolean
    refine .bind_ok rfl ?_
    cases b with
    | false =>
      exact .of_reaches ((jumpIfZero_taken hworking.resolves hotherwise).trans (label_next _))
        (.pure ⟨rfl, later, slots, rfl, .of_beyond hholds hbeyond hleads.beside.pop⟩)
    | true =>
      exact .of_reaches jumpIfZero_not (branch hbody hthen hfields haround hmiddle hinner hbranch
        hroom (.of_beyond hholds hbeyond rfl) (.hand (Nat.le_refl _))
        (fun _ _ => jump hworking.resolves (suffix_tail hotherwise)) rfl fun _ => rfl)

/-- The branches are carried out in the frames that the code before them leads to; both end with
the variables that were there before. -/
theorem ifThenElse (hworking : Working setting room invoke site)
    (hthenBody : PerformsAll setting invoke site returns thenBody)
    (helseBody : PerformsAll setting invoke site returns elseBody) :
    Performs setting invoke site returns (.ifThenElse info e thenBody elseBody) := by
  intro types _ hchecks hfields around haround frame after code hcode rest slots store moment hbefore
  obtain ⟨hframe, hsuffix, hroom, hholds, hagrees⟩ := hbefore
  cases hchecks with
  | ifThenElse hcondition hthen helse =>
  cases Generation.statement_code hcode with
  | @ifThenElse _ _ _ _ _ _ _ _ _ _ label htest hfirst hsecond =>
    have hne : (⟨types, setting.table⟩ : Symbols).enter.scopes.nested ≠ [] := List.cons_ne_nil _ _
    have hmiddle := hframe.weaken label (Nat.le_refl _)
    have hleads := Generation.leads_of_ok hthen (hthen.grows.sub hne hfields) (haround.inside hne)
      hmiddle.push hfirst
    have hpop := hleads.pop hmiddle
    have hleads' := Generation.leads_of_ok helse (helse.grows.sub hne hfields) (haround.inside hne)
      hpop.framed.push hsecond
    have hbeside : Beside frame ⟨label, frame.slot, frame.locals⟩ := .hand (Nat.le_refl _)
    simp only [List.append_assoc, List.cons_append, List.nil_append] at hsuffix ⊢
    have hbranch := suffix_tail (suffix_right hsuffix)
    have hotherwise := suffix_tail (suffix_right hbranch)
    have hbranch' := suffix_tail hotherwise
    rw [Evaluation.statement]
    refine bind_value (by simp) (expression hworking hframe.provides e hcondition htest _ hsuffix _
      store moment hholds hagrees) fun value operand store' later hkeeps hbeyond => ?_
    obtain ⟨b, rfl, rfl⟩ := hkeeps.of_boolean
    refine .bind_ok rfl ?_
    cases b with
    | false =>
      exact .of_reaches (jumpIfZero_taken hworking.resolves hotherwise)
        (branch helseBody helse hfields haround hpop.framed hsecond hbranch' hroom
          (.of_beyond hholds hbeyond hleads.beside.pop) (hbeside.trans hpop.beside)
          (fun _ _ => label_next _) rfl
          fun hends => by rw [Typing.returns, hends, Bool.and_false])
    | true =>
      exact .of_reaches jumpIfZero_not (branch hthenBody hthen hfields haround hmiddle hfirst hbranch
        (Nat.le_trans hleads'.beside.slot hroom) (.of_beyond hholds hbeyond rfl) hbeside
        (fun _ _ => jump hworking.resolves (suffix_right hbranch')) hleads'.beside.pop
        fun hends => by rw [Typing.returns, hends, Bool.false_and])

theorem loop (hworking : Working setting room invoke site)
    (hbody : PerformsAll setting invoke site returns body) :
    Performs setting invoke site returns (.loop info name e body) := by
  intro types _ hchecks hfields around haround frame after code hcode rest slots store moment hbefore
  obtain ⟨hframe, hsuffix, hroom, hholds, hagrees⟩ := hbefore
  cases hchecks with
  | @loop _ _ _ _ _ _ _ ty hinfo hiterable _ hchecked =>
  cases Generation.statement_code hcode with
  | @loop _ _ _ _ _ _ inner _ last label hty hlist hinner =>
    cases hinfo.symm.trans hty
    have hne : ((⟨types, setting.table⟩ : Symbols).enter.declare name ty).enter.scopes.nested ≠ [] :=
      List.cons_ne_nil _ _
    have hsub := hchecked.grows.sub hne hfields
    have hmiddle := hframe.weaken label (Nat.le_refl _)
    have hiterating : Framed ⟨types, setting.table⟩ setting.globals
        (iterating ⟨label, frame.slot, frame.locals⟩) := hframe.weaken label (Nat.le_succ _)
    have hitem := hiterating.push.declare name ty (List.cons_ne_nil _ _) rfl
    have hleads := Generation.leads_of_ok hchecked hsub (haround.inside hne) hitem.push hinner
    have hlocals := hleads.beside.pop
    simp only [List.append_assoc, List.cons_append, List.nil_append] at hsuffix ⊢
    rw [Evaluation.statement, hinfo]
    refine bind_value (by simp) (expression hworking hframe.provides e hiterable hlist _ hsuffix _
      store moment hholds hagrees) fun value operand store' later hkeeps hbeyond => ?_
    have hpast : Past setting frame ⟨label, frame.slot, frame.locals⟩ slots moment store' slots
        later := .of_beyond hholds hbeyond rfl
    have hslot : (frame.slot : Nat) + 1 < slots.size :=
      Nat.lt_of_lt_of_le (Nat.lt_of_succ_le hleads.beside.slot) hroom
    have hcode := suffix_tail (suffix_tail (suffix_right hsuffix))
    have hinside : Mirrors setting site (.jump frame.label :: .label (frame.label + 1) :: rest)
        returns (Generation.forBody (iterating ⟨label, frame.slot, frame.locals⟩) name ty) last
        slots.size (alwaysReturns body) inner
        (Evaluation.statements setting.functions invoke .own body) :=
      fun store slots' moment hsize hholds hagrees => hbody hchecked hsub (haround.inside hne) hinner
        ⟨hitem.push, suffix_body hcode, hsize ▸ hroom, hholds, hagrees⟩
    have hlast : ({ last with locals := last.locals.pop.pop } : Frame).locals = frame.locals := by
      rw [hlocals]
      rfl
    exact (Simulation.loop hiterating hworking.resolves hcode (Nat.ne_of_gt hframe.positive)
      hmiddle.not_uses hslot hlocals hinside hpast.agrees hpast.holds hkeeps hlast).mono
      (fun flow store' t hflow => hflow.onward hpast (.hand (Nat.le_refl _)))
      fun _ _ _ hfailed => hfailed

theorem print (hworking : Working setting room invoke site) :
    Performs setting invoke site returns (.print info e) := by
  intro types _ hchecks _ around _ frame after code hcode rest slots store moment hbefore
  obtain ⟨hframe, hsuffix, hroom, hholds, hagrees⟩ := hbefore
  cases hchecks with
  | print he hvoid =>
  cases Generation.statement_code hcode with
  | print hvalue =>
    obtain ⟨inner, hinner, rfl⟩ := Generation.ok_of_value he.mark hvalue
    simp only [List.cons_append, List.append_assoc, List.nil_append] at hsuffix ⊢
    rw [Evaluation.statement]
    refine .of_reaches (loadRef hholds.program) (bind_value hvoid (expression hworking
      hframe.provides e he hinner _ (suffix_tail hsuffix) _ store moment hholds hagrees)
      fun value operand store' later hkeeps hbeyond => ?_)
    obtain ⟨object, hobject, hcoerce⟩ := coerce_object hkeeps
    refine .of_reaches (hcoerce.trans (Machine.print object))
      (.bind_ok (Evaluation.print_eq value store') (.pure ⟨rfl, _, slots, rfl, ?_⟩))
    exact .of_beyond hholds (hbeyond.print hobject) rfl

/-- The value of a call is taken off the stack; only a `void` function leaves none there. -/
theorem call (hworking : Working setting room invoke site) :
    Performs setting invoke site returns (.call info e) := by
  intro types _ hchecks _ around _ frame after code hcode rest slots store moment hbefore
  obtain ⟨hframe, hsuffix, hroom, hholds, hagrees⟩ := hbefore
  cases hchecks with
  | call he =>
  cases Generation.statement_code hcode with
  | call hty hfirst =>
    cases he.mark.symm.trans hty
    rw [Evaluation.statement]
    split at hsuffix
    · next hvoid =>
      rw [if_pos hvoid]
      refine .bind (expression hworking hframe.provides e he hfirst _ hsuffix _ store moment hholds
        hagrees) ?_
      rintro value store' t ⟨later, stack, rfl, hleaves, hbeyond⟩
      rw [Leaves, if_pos hvoid] at hleaves
      obtain ⟨-, rfl⟩ := hleaves
      exact .pure ⟨rfl, later, slots, rfl, .of_beyond hholds hbeyond rfl⟩
    · next hvoid =>
      rw [if_neg hvoid, List.append_assoc] at *
      refine bind_value hvoid (expression hworking hframe.provides e he hfirst _ hsuffix _ store
        moment hholds hagrees) fun value operand store' later hkeeps hbeyond => ?_
      exact .of_reaches (pop operand)
        (.pure ⟨rfl, later, slots, rfl, .of_beyond hholds hbeyond rfl⟩)

theorem leave : Performs setting invoke site returns (.returning info none) := by
  intro types _ hchecks _ around haround frame after code hcode rest slots store moment hbefore
  cases hchecks with
  | leave =>
  cases Generation.statement_code hcode with
  | leave =>
    rw [Evaluation.statement]
    refine .of_ok rfl returnVoid ⟨.void, rfl, .inr ?_⟩
    exact ⟨moment, _, none, rfl, by rw [Gives, if_pos rfl], hbefore.agrees, .refl _ _⟩

theorem returning (hworking : Working setting room invoke site) :
    Performs setting invoke site returns (.returning info (some e)) := by
  intro types _ hchecks _ around haround frame after code hcode rest slots store moment hbefore
  obtain ⟨hframe, hsuffix, hroom, hholds, hagrees⟩ := hbefore
  cases hchecks with
  | returning hstorable hfits =>
  cases Generation.statement_code hcode with
  | returning hreturns hvalue =>
    cases haround.returnType.symm.trans hreturns
    obtain ⟨source, he, hvoid, haccepts⟩ := hfits
    obtain ⟨inner, hinner, rfl⟩ := Generation.ok_of_value he.mark hvalue
    simp only [List.append_assoc] at hsuffix ⊢
    rw [Evaluation.statement]
    refine bind_value hvoid (expression hworking hframe.provides e he hinner _ hsuffix _ store
      moment hholds hagrees) fun value operand store' later hkeeps hbeyond => ?_
    exact return_value hstorable haccepts hkeeps hbeyond

end Performs

theorem PerformsAll.nil : PerformsAll setting invoke site returns [] := by
  intro types _ hchecks _ around _ frame after code hcode rest slots store moment hbefore
  cases Generation.statements_code hcode
  rw [Evaluation.statements]
  exact .pure ⟨rfl, moment, slots, rfl, .of_beyond hbefore.holds hbefore.agrees.beyond rfl⟩

/-- The rest of a body starts from the symbols and the frame that its first statement leads to. -/
theorem PerformsAll.cons {s : Stmt Info} {more : List (Stmt Info)}
    (hs : Performs setting invoke site returns s)
    (hmore : PerformsAll setting invoke site returns more) :
    PerformsAll setting invoke site returns (s :: more) := by
  intro types _ hchecks hfields around haround frame after code hcode rest slots store moment hbefore
  obtain ⟨hframe, hsuffix, hroom, hholds, hagrees⟩ := hbefore
  cases hchecks with
  | @cons _ _ middle _ _ _ hfirst hrest =>
  cases Generation.statements_code hcode with
  | cons hfirstCode hsecond =>
    rw [List.append_assoc] at hsuffix ⊢
    have hsub := hrest.grows.outermost.trans hfields
    obtain ⟨_, _, hsame, hleads⟩ := Generation.statement_ok s hfirst hsub haround frame hframe
    rw [hfirstCode] at hsame
    cases hsame
    obtain ⟨types', functions⟩ := middle
    obtain rfl : functions = setting.table := hfirst.grows.functions
    have haround' := haround.grows hfirst.grows
    have hleads' := Generation.leads_of_ok hrest hfields haround' hleads.framed hsecond
    rw [Evaluation.statements]
    refine .bind (hs hfirst hsub haround hfirstCode ⟨hframe, hsuffix,
      Nat.le_trans hleads'.beside.slot hroom, hholds, hagrees⟩) fun flow store' t hflow => ?_
    cases flow with
    | normal =>
      obtain ⟨hends, later, slots', rfl, hpast⟩ := hflow
      refine (hmore hrest hfields haround' hsecond ⟨hleads.framed, suffix_right hsuffix,
        hpast.slots.size ▸ hroom, hpast.holds, hpast.agrees⟩).mono (fun flow last t hflow => ?_)
        fun _ _ _ hfailed => hfailed
      rw [alwaysReturns, hends, Bool.false_or]
      exact hflow.onward hpast hleads.beside
    | returned value => exact .pure hflow

mutual

theorem statement (hworking : Working setting room invoke site) :
    (s : Stmt Info) → Performs setting invoke site returns s
  | .declaration _ _ _ _ => .declaration hworking
  | .assignment _ _ _ => .assignment hworking
  | .function _ _ _ _ _ => .function
  | .ifThen _ _ thenBody => .ifThen hworking (statements hworking thenBody)
  | .ifThenElse _ _ thenBody elseBody =>
    .ifThenElse hworking (statements hworking thenBody) (statements hworking elseBody)
  | .loop _ _ _ body => .loop hworking (statements hworking body)
  | .print _ _ => .print hworking
  | .call _ _ => .call hworking
  | .returning _ none => .leave
  | .returning _ (some _) => .returning hworking
  | .broken _ _ | .bare _ => fun _ _ hchecks => nomatch hchecks

theorem statements (hworking : Working setting room invoke site) :
    (body : List (Stmt Info)) → PerformsAll setting invoke site returns body
  | [] => .nil
  | s :: more => .cons (statement hworking s) (statements hworking more)

end
end Statements
end Simulation
end CatScript
