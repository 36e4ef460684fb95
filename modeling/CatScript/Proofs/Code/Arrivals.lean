import CatScript.Proofs.Code.Programs
import CatScript.Proofs.Typing.Arrivals
import CatScript.Proofs.Typing.Parts

/-! # Where generating code arrives

Generating code goes through the statements of a program with frames that change on the way, in the
main routine and in the routine of each function.  It arrives at every statement of a well-typed
program (`Generation.exists_arrives`), and with a frame whose local variables are those that are
declared before the statement in the lists around it but the outermost one
(`Generation.Arrives.situated`). -/
set_option autoImplicit false
namespace CatScript

def Program.Distinct (p : Program Info) : Prop :=
  ∀ spot info name ty? value, p.Stands spot (.declaration info name ty? value) →
    ¬spot.DeclaredHere name

section Fresh
variable {p : Program Info} {spot : Spot} {outer : Stmt Info} {bound : List (String × Option Ty)}
  {before later : List (Stmt Info)}

theorem Program.Distinct.fresh (h : p.Distinct) {s : Stmt Info}
    (hs : p.Stands (⟨bound, before⟩ :: spot) s) :
    ∀ entry ∈ s.declares, entry.1 ∉ Stretch.names ⟨bound, before⟩ := by
  intro entry hentry hmem
  cases s with
  | declaration info name ty? value =>
    cases List.mem_singleton.1 hentry
    exact h _ _ _ _ _ hs ⟨_, _, rfl, hmem⟩
  | _ => cases hentry

theorem Program.Distinct.fresh_block (h : p.Distinct) (houter : p.Stands spot outer)
    (hblock : (bound, before ++ later) ∈ outer.blocks) :
    ∀ earlier s rest, before = earlier ++ s :: rest →
      ∀ entry ∈ s.declares, entry.1 ∉ Stretch.names ⟨bound, earlier⟩ := by
  rintro earlier s rest rfl
  rw [List.append_assoc] at hblock
  exact h.fresh (.inside houter hblock)

end Fresh

theorem Symbols.nests_parameters {params : List Parameter} (h : (params.map Parameter.name).Nodup)
    (outermost : Scope Ty) (functions : Scope Signature) (outer : Stretch) :
    Symbols.Nests ⟨⟨outermost, [Typing.parameterScope params]⟩, functions⟩
      [⟨params.map fun param => (param.name, some param.ty), []⟩, outer] := by
  refine ⟨List.cons_ne_nil _ _, iff_of_false (List.cons_ne_nil _ _) (List.cons_ne_nil _ _),
    fun name => ?_⟩
  have hscope : Typing.parameterScope params =
      params.map fun param => (param.name, param.ty) :=
    Generation.foldl_bind_eq_append Parameter.ty params [] h
  have hinner : Scopes.inner? ⟨outermost, [Typing.parameterScope params]⟩ name =
      (Typing.parameterScope params).find? name := by
    rw [Scopes.inner?, List.findSome?_singleton]
  show Spot.find? [⟨params.map fun param => (param.name, some param.ty), []⟩] name = _
  rw [hinner, hscope, Spot.find?, List.map_singleton, List.findSome?_singleton, Stretch.declared]
  simp only [List.flatMap_nil, List.append_nil]
  clear h hscope hinner
  induction params with
  | nil => rfl
  | cons param rest ih =>
    rw [List.map_cons, List.map_cons, Scope.find?_cons, Scope.find?_cons]
    split
    · rfl
    · exact ih

namespace Generation
open Typing

/-- What names stand for throughout the code of a program. -/
def globalsOf : Program Info → Except CompileStop Globals
  | .expression .. => pure ⟨[], []⟩
  | .statements _ body => do
    let declared ← fields body
    return ⟨declared.foldl (fun scope field => scope.bind field.1 field.2) [], functions [] body⟩

/-- Generating the code of a statement comes to one of its blocks: the names that are bound at the
start of the block, and what is around it and the frame there.  Two labels are handed out first. -/
inductive Opens (globals : Globals) (around : Surroundings) (frame : Frame) :
    Stmt Info → List (String × Option Ty) → List (Stmt Info) → Surroundings → Frame → Prop where
  | ifThen {info : Info} {condition : Expr Info} {body : List (Stmt Info)}
      {test : List Instruction} {label : Label} :
      expression globals frame.locals condition (frame.label + 2) = .ok (test, label) →
      Opens globals around frame (.ifThen info condition body) [] body around.inside
        ⟨label, frame.slot, frame.locals.push⟩
  | thenBody {info : Info} {condition : Expr Info} {thenBody elseBody : List (Stmt Info)}
      {test : List Instruction} {label : Label} :
      expression globals frame.locals condition (frame.label + 2) = .ok (test, label) →
      Opens globals around frame (.ifThenElse info condition thenBody elseBody) [] thenBody
        around.inside ⟨label, frame.slot, frame.locals.push⟩
  | elseBody {info : Info} {condition : Expr Info} {thenBody elseBody : List (Stmt Info)}
      {test code : List Instruction} {label : Label} {middle : Frame} :
      expression globals frame.locals condition (frame.label + 2) = .ok (test, label) →
      statements globals around.inside thenBody ⟨label, frame.slot, frame.locals.push⟩ =
        .ok (code, middle) →
      Opens globals around frame (.ifThenElse info condition thenBody elseBody) [] elseBody
        around.inside ⟨middle.label, middle.slot, middle.locals.pop.push⟩
  | loop {info : Info} {name : String} {iterable : Expr Info} {body : List (Stmt Info)} {ty : Ty}
      {items : List Instruction} {label : Label} : info.ty = some ty →
      expression globals frame.locals iterable (frame.label + 2) = .ok (items, label) →
      Opens globals around frame (.loop info name iterable body) [(name, info.ty)] body
        around.inside (forBody ⟨label, frame.slot + 1, frame.locals⟩ name ty)

/-- Generating the code of the program comes to a statement with the given frame: in the main
routine, in the routine of a function, or in a block of a statement that it comes to. -/
inductive Arrives (globals : Globals) (p : Program Info) :
    Spot → Surroundings → Frame → Stmt Info → Prop where
  | main {mark : Info} {before after : List (Stmt Info)} {s : Stmt Info} {frame : Frame}
      {code : List Instruction} : p = .statements mark (before ++ s :: after) →
      statements globals (.ofProgram (.ok none)) before Frame.initial = .ok (code, frame) →
      Arrives globals p [⟨[], before⟩] (.ofProgram (.ok none)) frame s
  | routine {mark info : Info} {name : String} {params : List Parameter} {returns : Ty}
      {earlier later before after : List (Stmt Info)} {s : Stmt Info} {start frame : Frame}
      {code : List Instruction} :
      p = .statements mark
        (earlier ++ .function info name params returns (before ++ s :: after) :: later) →
      declareParameters params Frame.initial = .ok ((), start) →
      statements globals (.ofFunction returns) before { start with locals := start.locals.push } =
        .ok (code, frame) →
      Arrives globals p
        [⟨params.map fun param => (param.name, some param.ty), before⟩, ⟨[], earlier⟩]
        (.ofFunction returns) frame s
  | inside {spot : Spot} {around inside : Surroundings} {outer s : Stmt Info}
      {bound : List (String × Option Ty)} {before after : List (Stmt Info)}
      {frame start middle : Frame} {code : List Instruction} :
      Arrives globals p spot around frame outer →
      Opens globals around frame outer bound (before ++ s :: after) inside start →
      statements globals inside before start = .ok (code, middle) →
      Arrives globals p (⟨bound, before⟩ :: spot) inside middle s

/-- The frame at a statement, and what is around it, are what the symbols there ask for; and so are
the lists of statements around the spot. -/
structure Situated (globals : Globals) (spot : Spot) (around : Surroundings) (returns : Option Ty)
    (symbols : Symbols) (frame : Frame) : Prop where
  framed : Framed symbols globals frame
  surrounds : Surrounds around symbols returns
  nests : symbols.Nests spot

namespace Situated
variable {globals : Globals} {spot : Spot} {around : Surroundings} {returns : Option Ty}
  {symbols after : Symbols} {frame : Frame} {bound : List (String × Option Ty)}
  {before : List (Stmt Info)}

theorem step {s : Stmt Info} {code : List Instruction} {next : Frame}
    (h : Situated globals (⟨bound, before⟩ :: spot) around returns symbols frame)
    (hs : Checks returns symbols s after) (hfields : Scope.Sub after.scopes.outermost globals.fields)
    (hnew : ∀ entry ∈ s.declares, entry.1 ∉ Stretch.names ⟨bound, before⟩)
    (hcode : statement globals around s frame = .ok (code, next)) :
    Situated globals (⟨bound, before ++ [s]⟩ :: spot) around returns after next := by
  obtain ⟨code', next', hcode', hleads⟩ := statement_ok s hs hfields h.surrounds frame h.framed
  rw [hcode] at hcode'
  cases hcode'
  refine ⟨hleads.framed, h.surrounds.grows hs.grows, ?_⟩
  have hdeclared := Stretch.declared_append bound before s
  rcases hs.declares with ⟨hnone, rfl⟩ | ⟨name, ty, hone, rfl⟩
  · rw [hnone, List.append_nil] at hdeclared
    exact h.nests.pass hdeclared
  · rw [hone] at hdeclared hnew
    exact h.nests.declare hdeclared (hnew _ List.mem_cons_self)

theorem run {body : List (Stmt Info)} : {symbols : Symbols} → {before : List (Stmt Info)} →
    {frame next : Frame} → {code : List Instruction} →
    Situated globals (⟨bound, before⟩ :: spot) around returns symbols frame →
    ChecksAll returns symbols body after → Scope.Sub after.scopes.outermost globals.fields →
    (∀ earlier s later, body = earlier ++ s :: later →
      ∀ entry ∈ s.declares, entry.1 ∉ Stretch.names ⟨bound, before ++ earlier⟩) →
    statements globals around body frame = .ok (code, next) →
    Situated globals (⟨bound, before ++ body⟩ :: spot) around returns after next := by
  induction body with
  | nil =>
    intro symbols before frame next code h hbody _ _ hcode
    cases statements_code hcode
    cases hbody
    rw [List.append_nil]
    exact h
  | cons s rest ih =>
    intro symbols before frame next code h hbody hfields hnew hcode
    cases statements_code hcode with
    | cons hfirst hmore =>
    cases hbody with
    | cons hs hrest =>
      have hnow := hnew [] s rest rfl
      rw [List.append_nil] at hnow
      have hstep := h.step hs (hrest.grows.outermost.trans hfields) hnow hfirst
      have hlater := ih hstep hrest hfields (fun earlier t later heq => ?_) hmore
      · rw [List.append_assoc] at hlater
        exact hlater
      · rw [List.append_assoc]
        exact hnew (s :: earlier) t later (congrArg (s :: ·) heq)

end Situated

section Stands
variable {globals : Globals} {p : Program Info} {spot : Spot} {around inside : Surroundings}
  {frame start : Frame} {s : Stmt Info} {bound : List (String × Option Ty)}
  {body : List (Stmt Info)}

theorem Opens.mem_blocks (h : Opens globals around frame s bound body inside start) :
    (bound, body) ∈ s.blocks := by
  cases h with
  | ifThen | thenBody | loop => exact List.mem_cons_self
  | elseBody => exact List.mem_cons_of_mem _ List.mem_cons_self

theorem Arrives.stands (h : Arrives globals p spot around frame s) : p.Stands spot s := by
  induction h with
  | main hp _ => exact .top hp
  | routine hp _ _ => exact .inside (.top hp) List.mem_cons_self
  | inside _ hopens _ ih => exact .inside ih hopens.mem_blocks

end Stands

section Situations
variable {globals : Globals} {p : Program Info} {spot : Spot} {around inside : Surroundings}
  {returns : Option Ty} {symbols after : Symbols} {frame start : Frame} {s : Stmt Info}
  {bound : List (String × Option Ty)} {body : List (Stmt Info)}

theorem Situated.enter (h : Situated globals spot around returns symbols frame) (label : Label) :
    Situated globals (⟨[], []⟩ :: spot) around.inside returns symbols.enter
      ⟨label, frame.slot, frame.locals.push⟩ := by
  have hframed := (h.framed.weaken label (Nat.le_refl _)).push
  exact ⟨hframed, h.surrounds.inside (List.cons_ne_nil _ _), h.nests.enter⟩

theorem Opens.situated (hopens : Opens globals around frame s bound body inside start)
    (h : Situated globals spot around returns symbols frame) (hs : Checks returns symbols s after)
    (hfields : Scope.Sub after.scopes.outermost globals.fields) :
    ∃ first last, Situated globals (⟨bound, []⟩ :: spot) inside returns first start ∧
      ChecksAll returns first body last ∧ Scope.Sub last.scopes.outermost globals.fields := by
  have hne : symbols.enter.scopes.nested ≠ [] := List.cons_ne_nil _ _
  cases hopens with
  | ifThen _ =>
    cases hs with
    | ifThen _ hthen => exact ⟨_, _, h.enter _, hthen, hthen.grows.sub hne hfields⟩
  | thenBody _ =>
    cases hs with
    | ifThenElse _ hthen _ => exact ⟨_, _, h.enter _, hthen, hthen.grows.sub hne hfields⟩
  | @elseBody _ _ _ _ _ _ label middle _ hcode =>
    cases hs with
    | ifThenElse _ hthen helse =>
      have hleads := leads_of_ok hthen (hthen.grows.sub hne hfields) (h.enter label).surrounds
        (h.enter label).framed hcode
      have hpop := Leads.pop (h.framed.weaken label (Nat.le_refl _)) hleads
      have hback : Situated globals spot around returns symbols
          ⟨middle.label, middle.slot, middle.locals.pop⟩ :=
        ⟨hpop.framed, h.surrounds, h.nests⟩
      exact ⟨_, _, hback.enter _, helse, helse.grows.sub hne hfields⟩
  | @loop _ name _ _ ty _ label hinfo _ =>
    cases hs with
    | loop hty _ _ hbody =>
      cases hinfo.symm.trans hty
      have hne' : (symbols.enter.declare name ty).enter.scopes.nested ≠ [] := List.cons_ne_nil _ _
      have hiterator := h.framed.weaken label (Nat.le_succ _)
      have hitem := hiterator.push.declare name ty hne rfl
      rw [hinfo]
      exact ⟨_, _, ⟨hitem.push, h.surrounds.inside hne', h.nests.enterLoop name ty⟩, hbody,
        hbody.grows.sub hne' hfields⟩

/-- What names stand for in a well-typed program: its fields are the variables of the outermost
scope, and its functions those of its symbols. -/
theorem globalsOf_ok {mark : Info} {globals : Globals} (hnames : (functionNames body).Nodup)
    (h : ChecksAll none (initialSymbols body) body after) 
    (hglobals : globalsOf (.statements mark body) = .ok globals) :
    globals.fields = after.scopes.outermost ∧
      Serves globals (initialSymbols body).functions := by
  obtain ⟨declared, hdeclared, hfields⟩ :=
    fields_ok h (congrArg Scopes.nested (initialSymbols_scopes body))
  rw [initialSymbols_scopes] at hfields
  rw [globalsOf, hdeclared] at hglobals
  cases hglobals
  exact ⟨hfields, serves_program hnames _⟩

theorem situated_main (hserves : Serves globals (initialSymbols body).functions) :
    Situated globals [⟨[], []⟩] (.ofProgram (.ok none)) none (initialSymbols body)
      Frame.initial := by
  have hscopes := initialSymbols_scopes body
  obtain ⟨symbols, hsymbols⟩ : ∃ symbols, initialSymbols body = symbols := ⟨_, rfl⟩
  obtain ⟨scopes, table⟩ := symbols
  rw [hsymbols] at hserves hscopes ⊢
  cases hscopes
  have hknows : Symbols.Knows ⟨.empty, table⟩ [⟨[], []⟩] := Symbols.Knows.empty
  exact ⟨framed_initial hserves, ⟨rfl, rfl⟩, hknows.nests⟩

theorem situated_routine {params : List Parameter} {returns : Ty} {outermost : Scope Ty}
    {table : Scope Signature} {outer : Stretch} (hserves : Serves globals table)
    (hfields : Scope.Sub outermost globals.fields) (hdistinct : (params.map Parameter.name).Nodup)
    (hstart : declareParameters params Frame.initial = .ok ((), start)) :
    Situated globals [⟨params.map fun param => (param.name, some param.ty), []⟩, outer]
      (.ofFunction returns) (some returns) ⟨⟨outermost, [parameterScope params]⟩, table⟩
      { start with locals := start.locals.push } := by
  have hparams : declareParameters params Frame.initial =
      .ok ((), ⟨0, 1 + params.length, ⟨homes 1 params, []⟩⟩) :=
    declareParameters_ok params 0 1 [] hdistinct
  cases hstart.symm.trans hparams
  exact ⟨framed_bodyFrame hserves hfields hdistinct, ⟨rfl, rfl⟩,
    Symbols.nests_parameters hdistinct _ _ _⟩

/-- Wherever generating code comes to in a well-typed program, the statement there can stand, and
the frame is what the symbols there ask for. -/
theorem Arrives.situated (hwell : WellTyped p) (hdistinct : p.Distinct)
    (hglobals : globalsOf p = .ok globals) (h : Arrives globals p spot around frame s) :
    ∃ returns symbols after, Situated globals spot around returns symbols frame ∧
      Checks returns symbols s after ∧ Scope.Sub after.scopes.outermost globals.fields := by
  induction h with
  | main hp hbefore =>
    cases hp
    cases hwell with
    | statements hnames hbody =>
      obtain ⟨hfields, hserves⟩ := globalsOf_ok hnames hbody hglobals
      obtain ⟨middle, next, hearlier, hs, hlater⟩ := hbody.split
      have hsub := hfields ▸ hlater.grows.outermost
      refine ⟨none, middle, next, (situated_main hserves).run hearlier
        (hs.grows.outermost.trans hsub) ?_ hbefore, hs, hsub⟩
      rintro earlier t rest rfl
      rw [List.append_assoc] at hdistinct
      exact hdistinct.fresh (.top rfl)
  | @routine _ _ _ params _ _ _ _ _ _ _ _ _ hp hstart hbefore =>
    cases hp
    cases hwell with
    | statements hnames hbody =>
      obtain ⟨hfields, hserves⟩ := globalsOf_ok hnames hbody hglobals
      obtain ⟨outside, _, hearlier, hfunction, hlater⟩ := hbody.split
      cases hfunction with
      | function _ _ hcallable hinner =>
        obtain ⟨middle, next, hfirst, hs, hrest⟩ := hinner.split
        have hserves : Serves globals outside.functions := hearlier.grows.functions ▸ hserves
        have hsub : Scope.Sub outside.scopes.outermost globals.fields :=
          hfields ▸ hlater.grows.outermost
        have hne := List.cons_ne_nil (parameterScope params) []
        have hsubMiddle := hfirst.grows.sub hne hsub
        have hsubNext : Scope.Sub next.scopes.outermost globals.fields :=
          (hfirst.grows.trans hs.grows).sub hne hsub
        have hfresh := hdistinct.fresh_block (.top rfl) List.mem_cons_self
        exact ⟨_, middle, next, (situated_routine hserves hsub hcallable.distinct hstart).run
          hfirst hsubMiddle hfresh hbefore, hs, hsubNext⟩
  | inside harrives hopens hbefore ih =>
    obtain ⟨returns, symbols, after, houter, hchecks, hfields⟩ := ih
    obtain ⟨first, last, hstart, hbody, hlast⟩ := hopens.situated houter hchecks hfields
    obtain ⟨middle, next, hearlier, hs, hlater⟩ := hbody.split
    have hsub := hlater.grows.outermost.trans hlast
    have hfresh := hdistinct.fresh_block harrives.stands hopens.mem_blocks
    exact ⟨returns, middle, next, hstart.run hearlier (hs.grows.outermost.trans hsub) hfresh
      hbefore, hs, hsub⟩

end Situations

end Generation
end CatScript
