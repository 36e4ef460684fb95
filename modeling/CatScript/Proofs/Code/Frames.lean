import CatScript.Proofs.Code.Labels

/-! # Frames of well-typed statements

A frame fits the symbols at a statement when the local variables have slots of their own and the
types that the symbols give them (`Framed`).  Generating the code of a well-typed statement succeeds
from such a frame and leads to one that fits the symbols after the statement
(`Generation.statement_ok`). -/
set_option autoImplicit false
namespace CatScript

/-- The frame has what the names in sight need, and every local variable has a slot of its own. -/
structure Framed (symbols : Symbols) (globals : Globals) (frame : Frame) : Prop where
  provides : Generation.Provides symbols globals frame.locals
  slots : (frame.locals.levels.flatten.map fun entry => (entry.2.slot : Nat)).Nodup
  range : ∀ entry ∈ frame.locals.levels.flatten,
    1 ≤ (entry.2.slot : Nat) ∧ (entry.2.slot : Nat) < frame.slot
  positive : 1 ≤ (frame.slot : Nat)

/-- Only the innermost of the scopes of a frame has changed: it has new variables, in slots that
were free. -/
structure Beside (before after : Frame) : Prop where
  outermost : after.locals.outermost = before.locals.outermost
  tail : after.locals.nested.tail = before.locals.nested.tail
  length : after.locals.nested.length = before.locals.nested.length
  slot : (before.slot : Nat) ≤ after.slot
  fresh : ∀ entry ∈ after.locals.levels.flatten,
    entry ∈ before.locals.levels.flatten ∨ (before.slot : Nat) ≤ entry.2.slot

namespace Beside
variable {a b c : Frame}

theorem refl (a : Frame) : Beside a a := ⟨rfl, rfl, rfl, Nat.le_refl _, fun _ => .inl⟩

theorem trans (hab : Beside a b) (hbc : Beside b c) : Beside a c := by
  refine ⟨hbc.outermost.trans hab.outermost, hbc.tail.trans hab.tail, hbc.length.trans hab.length,
    Nat.le_trans hab.slot hbc.slot, fun entry hentry => ?_⟩
  refine (hbc.fresh entry hentry).elim (hab.fresh entry) fun h => ?_
  exact .inr (Nat.le_trans hab.slot h)

theorem hand {frame : Frame} {label slot : Nat} (h : (frame.slot : Nat) ≤ slot) :
    Beside frame ⟨label, slot, frame.locals⟩ :=
  ⟨rfl, rfl, rfl, h, fun _ => .inl⟩

theorem pop {frame : Frame} (h : Beside { frame with locals := frame.locals.push } a) :
    a.locals.pop = frame.locals := by
  obtain ⟨houtermost, htail, -, -, -⟩ := h
  obtain ⟨label, slot, ⟨outermost, nested⟩⟩ := a
  rw [Scopes.pop]
  rw [show nested.tail = frame.locals.nested from htail,
    show outermost = frame.locals.outermost from houtermost]

end Beside

namespace Framed
variable {symbols : Symbols} {globals : Globals} {frame : Frame}

/-- Inside a block or a function the local variables are in nested scopes. -/
theorem nested_ne_nil (h : Framed symbols globals frame) (hne : symbols.scopes.nested ≠ []) :
    frame.locals.nested ≠ [] := by
  intro hnil
  have hlevels := h.provides.levels
  rw [Scopes.levels, hnil] at hlevels
  exact hne (List.forall₂_nil_left_iff.1 hlevels)

theorem weaken (h : Framed symbols globals frame) (label : Nat) {slot : Nat}
    (hslot : (frame.slot : Nat) ≤ slot) :
    Framed symbols globals ⟨label, slot, frame.locals⟩ := by
  refine ⟨h.provides, h.slots, fun entry hentry => ?_, Nat.le_trans h.positive hslot⟩
  exact ⟨(h.range entry hentry).1, Nat.lt_of_lt_of_le (h.range entry hentry).2 hslot⟩

theorem push (h : Framed symbols globals frame) :
    Framed symbols.enter globals { frame with locals := frame.locals.push } := by
  have hlevels := Scopes.levels_push h.provides.based
  refine ⟨⟨fun hnil => (nomatch hnil), ?_, h.provides.fields, h.provides.functions⟩, ?_, ?_,
    h.positive⟩
  · rw [hlevels]; exact .cons .nil h.provides.levels
  · rw [hlevels]; exact h.slots
  · rw [hlevels]; exact h.range

theorem rename {symbols' : Symbols} (h : Framed symbols globals frame)
    (hnested : symbols'.scopes.nested = symbols.scopes.nested)
    (hfunctions : symbols'.functions = symbols.functions)
    (hfields : Scope.Sub symbols'.scopes.outermost globals.fields) :
    Framed symbols' globals frame := by
  refine ⟨⟨h.provides.based, ?_, hfields, ?_⟩, h.slots, h.range, h.positive⟩
  · rw [hnested]
    exact h.provides.levels
  · rw [hfunctions]
    exact h.provides.functions

theorem levels_declare (h : Framed symbols globals frame) {name : String} (home : Local)
    (hnested : symbols.scopes.nested ≠ []) (hfresh : symbols.declaredHere name = false) :
    ∃ first level others, frame.locals.levels = first :: others ∧
      (frame.locals.declare name home).levels = level :: others ∧
      (∀ other, level.find? other = if name = other then some home else first.find? other) ∧
      level.Perm ((name, home) :: first) := by
  have hlevels := h.provides.levels
  obtain ⟨⟨outermost, nested⟩, functions⟩ := symbols
  cases nested with
  | nil => exact absurd rfl hnested
  | cons scope rest =>
    obtain ⟨first, others, hfirst, -, heq⟩ := List.forall₂_cons_right_iff.1 hlevels
    have hnone : first.find? name = none := by
      refine (hfirst.none_iff name).2 ?_
      simpa [Symbols.declaredHere, Scopes.innermost] using hfresh
    obtain ⟨level, hlevel, hfind, hperm⟩ := Scopes.levels_declare heq name home
    exact ⟨first, level, others, heq, hlevel, hfind, hperm hnone⟩

theorem declare (h : Framed symbols globals frame) (name : String) (ty : Ty)
    (hnested : symbols.scopes.nested ≠ []) (hfresh : symbols.declaredHere name = false) :
    Framed (symbols.declare name ty) globals
      { frame with
        slot := frame.slot + 1
        locals := frame.locals.declare name ⟨frame.slot, ty⟩ } := by
  obtain ⟨first, level, others, heq, hlevel, hfind, hperm⟩ :=
    h.levels_declare ⟨frame.slot, ty⟩ hnested hfresh
  have hne := h.nested_ne_nil hnested
  obtain ⟨⟨hbased, hlevels, hfields, hfunctions⟩, hslots, hrange, hpositive⟩ := h
  obtain ⟨⟨outermost, nested⟩, functions⟩ := symbols
  cases nested with
  | nil => exact absurd rfl hnested
  | cons scope rest =>
    rw [heq] at hlevels
    cases hlevels with
    | cons hfirst hothers =>
    rw [heq, List.flatten_cons] at hslots hrange
    refine ⟨⟨fun hnil => ?_, ?_, hfields, hfunctions⟩, ?_, ?_, Nat.le_succ_of_le hpositive⟩
    · obtain ⟨label, slot, ⟨globals', inner⟩⟩ := frame
      cases inner with
      | nil => exact absurd rfl hne
      | cons inner more => cases hnil
    · rw [hlevel]
      refine .cons (fun other => ?_) hothers
      rw [hfind, Scope.find?_bind]
      split
      · exact .some rfl
      · exact hfirst other
    · rw [hlevel, List.flatten_cons]
      have hall := (hperm.append_right others.flatten).map
        fun entry : String × Local => (entry.2.slot : Nat)
      rw [hall.nodup_iff, List.cons_append, List.map_cons, List.nodup_cons]
      refine ⟨fun hmem => ?_, hslots⟩
      obtain ⟨entry, hentry, hslot⟩ := List.mem_map.1 hmem
      have hlt := (hrange entry hentry).2
      rw [hslot] at hlt
      exact Nat.lt_irrefl _ hlt
    · rw [hlevel, List.flatten_cons]
      intro entry hentry
      rw [(hperm.append_right _).mem_iff, List.cons_append, List.mem_cons] at hentry
      rcases hentry with rfl | hentry
      · exact ⟨hpositive, Nat.lt_succ_self _⟩
      · have := hrange entry hentry
        exact ⟨this.1, Nat.lt_succ_of_lt this.2⟩

theorem beside_declare (h : Framed symbols globals frame) (name : String) (ty : Ty)
    (label : Label)
    (hnested : symbols.scopes.nested ≠ []) (hfresh : symbols.declaredHere name = false) :
    Beside frame ⟨label, frame.slot + 1, frame.locals.declare name ⟨frame.slot, ty⟩⟩ := by
  obtain ⟨first, level, others, heq, hlevel, -, hperm⟩ :=
    h.levels_declare ⟨frame.slot, ty⟩ hnested hfresh
  have hne := h.nested_ne_nil hnested
  have hfresh : ∀ entry ∈ (frame.locals.declare name ⟨frame.slot, ty⟩).levels.flatten,
      entry ∈ frame.locals.levels.flatten ∨ (frame.slot : Nat) ≤ entry.2.slot := by
    intro entry hentry
    rw [hlevel, List.flatten_cons, (hperm.append_right _).mem_iff, List.cons_append,
      List.mem_cons] at hentry
    rw [heq, List.flatten_cons]
    rcases hentry with rfl | hentry
    · exact .inr (Nat.le_refl _)
    · exact .inl hentry
  obtain ⟨label', slot, ⟨outermost, nested⟩⟩ := frame
  cases nested with
  | nil => exact absurd rfl hne
  | cons scope rest => exact ⟨rfl, rfl, rfl, Nat.le_succ _, hfresh⟩

end Framed

/-- What a statement is told of the statements around it agrees with the symbols at it. -/
structure Surrounds (around : Surroundings) (symbols : Symbols) (returns : Option Ty) : Prop where
  topLevel : around.topLevel = symbols.scopes.nested.isEmpty
  returnType : around.returnType = .ok returns

theorem Surrounds.inside {around : Surroundings} {symbols symbols' : Symbols}
    {returns : Option Ty} (h : Surrounds around symbols returns)
    (hnested : symbols'.scopes.nested ≠ []) : Surrounds around.inside symbols' returns := by
  refine ⟨?_, h.returnType⟩
  cases hscopes : symbols'.scopes.nested with
  | nil => exact absurd hscopes hnested
  | cons scope rest => rfl

theorem Surrounds.grows {around : Surroundings} {symbols symbols' : Symbols} {returns : Option Ty}
    (h : Surrounds around symbols returns) (hgrows : Typing.Grows symbols symbols') :
    Surrounds around symbols' returns := by
  refine ⟨h.topLevel.trans ?_, h.returnType⟩
  have hlength := hgrows.length
  cases hscopes : symbols.scopes.nested <;> cases hscopes' : symbols'.scopes.nested <;>
    rw [hscopes, hscopes'] at hlength <;> first | rfl | cases hlength

namespace Generation
open Typing
variable {globals : Globals}

theorem value_ok {symbols : Symbols} {locals : Scopes Local} (h : Provides symbols globals locals)
    {e : Expr Info} {target : Ty} (he : Fits symbols e target) (label : Label) :
    ∃ code label', value globals locals target e label = .ok (code, label') ∧
      Labelled label label' code := by
  obtain ⟨ty, hty, -, -⟩ := he
  obtain ⟨code, label', hcode, hlabels⟩ := expression_ok h e hty label
  exact ⟨_, _, value_iff.2 ⟨ty, code, hty.mark, hcode, rfl⟩,
    hlabels.append (.plain label' (places_coerce ..) (targets_coerce ..))⟩

structure Leads (symbols : Symbols) (globals : Globals) (before after : Frame)
    (code : List Instruction) : Prop where
  framed : Framed symbols globals after
  labelled : Labelled before.label after.label code
  beside : Beside before after

namespace Leads
variable {symbols symbols' : Symbols} {frame middle after : Frame} {a b code : List Instruction}

theorem labels {label : Label} (h : Framed symbols globals frame)
    (hlabels : Labelled frame.label label code) :
    Leads symbols globals frame { frame with label } code :=
  ⟨h.weaken label (Nat.le_refl _), hlabels, .hand (Nat.le_refl _)⟩

/-- A block leads back to the frame around it. -/
theorem pop (h : Framed symbols globals frame)
    (hinner : Leads symbols' globals { frame with locals := frame.locals.push } after code) :
    Leads symbols globals frame { after with locals := after.locals.pop } code := by
  have hslot := hinner.beside.slot
  refine ⟨?_, hinner.labelled, ?_⟩
  · rw [hinner.beside.pop]
    exact h.weaken _ hslot
  · rw [hinner.beside.pop]
    exact .hand hslot

end Leads

/-- A statement has code wherever it can stand, and the code leads to a frame that fits the symbols
after it. -/
def Leading (globals : Globals) (returns : Option Ty) (s : Stmt Info) : Prop :=
  ∀ ⦃symbols symbols' : Symbols⦄, Checks returns symbols s symbols' →
    Scope.Sub symbols'.scopes.outermost globals.fields →
    ∀ ⦃around : Surroundings⦄, Surrounds around symbols returns →
    ∀ frame : Frame, Framed symbols globals frame →
    ∃ code after, statement globals around s frame = .ok (code, after) ∧
      Leads symbols' globals frame after code

def AllLeading (globals : Globals) (returns : Option Ty) (body : List (Stmt Info)) : Prop :=
  ∀ ⦃symbols symbols' : Symbols⦄, ChecksAll returns symbols body symbols' →
    Scope.Sub symbols'.scopes.outermost globals.fields →
    ∀ ⦃around : Surroundings⦄, Surrounds around symbols returns →
    ∀ frame : Frame, Framed symbols globals frame →
    ∃ code after, statements globals around body frame = .ok (code, after) ∧
      Leads symbols' globals frame after code

section Statements
variable {returns : Option Ty}

namespace Leading
variable {info : Info} {name : String} {e : Expr Info} {body thenBody elseBody : List (Stmt Info)}

/-- A variable directly in a program has its field already, any other one a slot of its own. -/
theorem declaration {ty? : Option Ty} : Leading globals returns (.declaration info name ty? e) := by
  intro symbols _ hchecks hfields around haround frame hframe
  cases hchecks with
  | @declaration _ _ _ _ _ _ ty hinfo hfresh _ he =>
    obtain ⟨code, label, hcode, hlabels⟩ := value_ok hframe.provides he frame.label
    cases hnested : symbols.scopes.nested with
    | nil =>
      have hsame : (symbols.declare name ty).scopes.nested = symbols.scopes.nested := by
        rw [Symbols.declare, Scopes.declare, hnested]
      have htop : around.topLevel = true := by rw [haround.topLevel, hnested]; rfl
      refine ⟨_, _, (StatementCode.declareField hinfo htop hcode).ok,
        .labels (hframe.rename hsame rfl hfields) (hlabels.of_same ?_ ?_)⟩
      · simp [Instruction.place?, putField]
      · simp [Instruction.target?, putField]
    | cons scope rest =>
      have htop : around.topLevel = false := by rw [haround.topLevel, hnested]; rfl
      have hne : symbols.scopes.nested ≠ [] := by rw [hnested]; exact List.cons_ne_nil _ _
      refine ⟨_, _, (StatementCode.declareSlot hinfo htop hcode).ok,
        (hframe.weaken label (Nat.le_refl _)).declare name ty hne hfresh,
        hlabels.of_same ?_ ?_, ?_⟩
      · unfold store; split <;> simp [Instruction.place?]
      · unfold store; split <;> simp [Instruction.target?]
      · exact hframe.beside_declare name ty label hne hfresh

theorem assignment : Leading globals returns (.assignment info name e) := by
  intro symbols _ hchecks hfields around haround frame hframe
  cases hchecks with
  | assignment _ hty _ he =>
    rcases hframe.provides.find hty with ⟨home, hhome, rfl⟩ | ⟨hnone, hfield⟩
    · obtain ⟨code, label, hcode, hlabels⟩ := value_ok hframe.provides he frame.label
      refine ⟨_, _, (StatementCode.assignSlot hhome hcode).ok,
        .labels hframe (hlabels.of_same ?_ ?_)⟩ <;> unfold store <;> split <;>
        simp [Instruction.place?, Instruction.target?]
    · obtain ⟨code, label, hcode, hlabels⟩ := value_ok hframe.provides he frame.label
      refine ⟨_, _, (StatementCode.assignField hnone hfield hcode).ok,
        .labels hframe (hlabels.of_same ?_ ?_)⟩
      · simp [Instruction.place?, putField]
      · simp [Instruction.target?, putField]

theorem function {params : List Parameter} {ty : Ty} :
    Leading globals returns (.function info name params ty body) := by
  intro symbols _ hchecks hfields around haround frame hframe
  cases hchecks with
  | function => exact ⟨_, _, StatementCode.function.ok, hframe, .plain _ rfl rfl, .refl _⟩

theorem ifThen (hbody : AllLeading globals returns thenBody) :
    Leading globals returns (.ifThen info e thenBody) := by
  intro symbols _ hchecks hfields around haround frame hframe
  cases hchecks with
  | ifThen hcondition hthen =>
    have hne : symbols.enter.scopes.nested ≠ [] := List.cons_ne_nil _ _
    obtain ⟨test, label, htest, hltest⟩ :=
      expression_ok hframe.provides e hcondition (frame.label + 2)
    obtain ⟨thenCode, after, hthenCode, hlthen⟩ := hbody hthen
      (hthen.grows.sub hne hfields) (haround.inside hne) _
      (hframe.weaken label (Nat.le_refl _)).push
    have hpop := Leads.pop (hframe.weaken label (Nat.le_refl _)) hlthen
    exact ⟨_, _, (StatementCode.ifThen htest hthenCode).ok, hpop.framed,
      (hltest.append hlthen.labelled).of_two (joins_ifThen ..),
      .trans (.hand (Nat.le_refl _)) hpop.beside⟩

theorem ifThenElse (hthenBody : AllLeading globals returns thenBody)
    (helseBody : AllLeading globals returns elseBody) :
    Leading globals returns (.ifThenElse info e thenBody elseBody) := by
  intro symbols _ hchecks hfields around haround frame hframe
  cases hchecks with
  | ifThenElse hcondition hthen helse =>
    have hne : symbols.enter.scopes.nested ≠ [] := List.cons_ne_nil _ _
    obtain ⟨test, label, htest, hltest⟩ :=
      expression_ok hframe.provides e hcondition (frame.label + 2)
    obtain ⟨thenCode, middle, hthenCode, hlthen⟩ := hthenBody hthen
      (hthen.grows.sub hne hfields) (haround.inside hne) _
      (hframe.weaken label (Nat.le_refl _)).push
    have hpop := Leads.pop (hframe.weaken label (Nat.le_refl _)) hlthen
    obtain ⟨elseCode, after, helseCode, hlelse⟩ := helseBody helse
      (helse.grows.sub hne hfields) (haround.inside hne) _ hpop.framed.push
    have hpop' := Leads.pop hpop.framed hlelse
    exact ⟨_, _, (StatementCode.ifThenElse htest hthenCode helseCode).ok, hpop'.framed,
      ((hltest.append hlthen.labelled).append hlelse.labelled).of_two (joins_ifThenElse ..),
      .trans (.hand (Nat.le_refl _)) (hpop.beside.trans hpop'.beside)⟩

/-- The iterator of a loop has the slot before that of its variable. -/
theorem loop (hbody : AllLeading globals returns body) :
    Leading globals returns (.loop info name e body) := by
  intro symbols _ hchecks hfields around haround frame hframe
  cases hchecks with
  | @loop _ _ _ _ _ _ _ ty hinfo hiterable _ hchecked =>
    have hne : symbols.enter.scopes.nested ≠ [] := List.cons_ne_nil _ _
    have hne' : (symbols.enter.declare name ty).enter.scopes.nested ≠ [] := List.cons_ne_nil _ _
    obtain ⟨items, label, hitems, hlitems⟩ :=
      expression_ok hframe.provides e hiterable (frame.label + 2)
    have hiterator : Framed symbols globals ⟨label, frame.slot + 1, frame.locals⟩ :=
      hframe.weaken label (Nat.le_succ _)
    have hitem := hiterator.push.declare name ty hne rfl
    obtain ⟨bodyCode, after, hbodyCode, hlbody⟩ := hbody hchecked
      (hchecked.grows.sub hne' hfields) (haround.inside hne') _ hitem.push
    have hpop := Leads.pop hitem hlbody
    have hbeside : Beside ⟨label, frame.slot + 1, frame.locals.push⟩
        { after with locals := after.locals.pop } :=
      .trans (hiterator.push.beside_declare name ty label hne rfl) hpop.beside
    have hplaces : places (coerce .object ty ++ store ⟨frame.slot + 1, ty⟩ :: bodyCode) =
        places bodyCode := by
      unfold store; split <;> simp [Instruction.place?]
    have htargets : targets (coerce .object ty ++ store ⟨frame.slot + 1, ty⟩ :: bodyCode) =
        targets bodyCode := by
      unfold store; split <;> simp [Instruction.target?]
    have hpop' := Leads.pop hiterator
      ⟨hpop.framed, hlbody.labelled.of_same hplaces htargets, hbeside⟩
    exact ⟨_, _, (StatementCode.loop hinfo hitems hbodyCode).ok, hpop'.framed,
      (hlitems.append hpop'.labelled).of_two (joins_loop ..),
      .trans (.hand (Nat.le_succ _)) hpop'.beside⟩

theorem print : Leading globals returns (.print info e) := by
  intro symbols _ hchecks hfields around haround frame hframe
  cases hchecks with
  | @print _ _ _ _ ty he hvoid =>
    obtain ⟨code, label, hcode, hlabels⟩ := value_ok hframe.provides
      ⟨ty, he, hvoid, Ty.object_accepts hvoid⟩ frame.label
    refine ⟨_, _, (StatementCode.print hcode).ok, .labels hframe (hlabels.of_same ?_ ?_)⟩
    · simp [Instruction.place?]
    · simp [Instruction.target?]

theorem call : Leading globals returns (.call info e) := by
  intro symbols _ hchecks hfields around haround frame hframe
  cases hchecks with
  | call he =>
    obtain ⟨code, label, hcode, hlabels⟩ := expression_ok hframe.provides e he frame.label
    refine ⟨_, _, (StatementCode.call he.mark hcode).ok,
      .labels hframe (hlabels.of_same ?_ ?_)⟩ <;> split <;>
      simp [Instruction.place?, Instruction.target?]

theorem leave : Leading globals returns (.returning info none) := by
  intro symbols _ hchecks hfields around haround frame hframe
  cases hchecks with
  | leave =>
    exact ⟨_, _, (StatementCode.leave haround.returnType).ok, hframe, .plain _ rfl rfl, .refl _⟩

theorem returning : Leading globals returns (.returning info (some e)) := by
  intro symbols _ hchecks hfields around haround frame hframe
  cases hchecks with
  | returning _ he =>
    obtain ⟨code, label, hcode, hlabels⟩ := value_ok hframe.provides he frame.label
    refine ⟨_, _, (StatementCode.returning haround.returnType hcode).ok,
      .labels hframe (hlabels.of_same ?_ ?_)⟩ <;> split <;>
      simp [Instruction.place?, Instruction.target?]

end Leading

theorem AllLeading.nil : AllLeading globals returns [] := by
  intro symbols _ hchecks _ around _ frame hframe
  cases hchecks
  exact ⟨_, _, StatementsCode.nil.ok, hframe, .plain _ rfl rfl, .refl _⟩

theorem AllLeading.cons {s : Stmt Info} {rest : List (Stmt Info)} (hs : Leading globals returns s)
    (hrest : AllLeading globals returns rest) : AllLeading globals returns (s :: rest) := by
  intro symbols _ hchecks hfields around haround frame hframe
  cases hchecks with
  | cons hfirst hothers =>
    obtain ⟨code, middle, hcode, hleads⟩ := hs hfirst (hothers.grows.outermost.trans hfields)
      haround frame hframe
    obtain ⟨more, after, hmore, hleads'⟩ := hrest hothers hfields
      (haround.grows hfirst.grows) middle hleads.framed
    exact ⟨_, _, (StatementsCode.cons hcode hmore).ok, hleads'.framed,
      hleads.labelled.append hleads'.labelled,
      hleads.beside.trans hleads'.beside⟩

mutual

theorem statement_ok : (s : Stmt Info) → Leading globals returns s
  | .declaration .. => .declaration
  | .assignment .. => .assignment
  | .function .. => .function
  | .ifThen _ _ thenBody => .ifThen (statements_ok thenBody)
  | .ifThenElse _ _ thenBody elseBody =>
    .ifThenElse (statements_ok thenBody) (statements_ok elseBody)
  | .loop _ _ _ body => .loop (statements_ok body)
  | .print .. => .print
  | .call .. => .call
  | .returning _ none => .leave
  | .returning _ (some _) => .returning
  | .broken .. | .bare _ => fun _ _ hchecks => nomatch hchecks

theorem statements_ok : (body : List (Stmt Info)) → AllLeading globals returns body
  | [] => .nil
  | s :: rest => .cons (statement_ok s) (statements_ok rest)

end
end Statements

theorem leads_of_ok {returns : Option Ty} {body : List (Stmt Info)} {symbols symbols' : Symbols}
    (h : ChecksAll returns symbols body symbols')
    (hfields : Scope.Sub symbols'.scopes.outermost globals.fields) {around : Surroundings}
    (haround : Surrounds around symbols returns) {frame after : Frame}
    (hframe : Framed symbols globals frame) {code : List Instruction}
    (hcode : statements globals around body frame = .ok (code, after)) :
    Leads symbols' globals frame after code := by
  obtain ⟨code', after', hcode', hleads⟩ := statements_ok body h hfields haround frame hframe
  rw [hcode] at hcode'
  cases hcode'
  exact hleads

end Generation
end CatScript
