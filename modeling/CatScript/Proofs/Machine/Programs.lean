import CatScript.Proofs.Machine.Calls

/-! # Whole programs

The machine does what evaluation does from the defaults of the top-level variables, with loops that
keep their variables to themselves (`Simulation.program`). -/
set_option autoImplicit false
namespace CatScript

def Ty.default : Ty → Value
  | .int => .integer 0
  | .boolean => .boolean false
  | _ => .null

theorem Keeps.default (contents : Contents) (ty : Ty) :
    Keeps contents ty ty.default (Machine.defaultOf (.of ty)) := by
  cases ty with
  | int => exact .integer 0
  | boolean => exact .boolean false
  | _ => exact .reference rfl rfl .null

namespace Evaluation

def presets (found : Scope Value) : List (Stmt Info) → Scope Value
  | [] => found
  | .declaration info name _ _ :: rest =>
    presets (found.bind name (info.ty.getD .object).default) rest
  | _ :: rest => presets found rest

/-- The scopes in which every top-level variable of a program has its default. -/
def preset : Program Info → Scopes Value
  | .expression _ _ => .empty
  | .statements _ body => ⟨presets [] body, []⟩

theorem match_presets {body : List (Stmt Info)} {symbols after : Symbols} {found : Scope Value}
    (h : Typing.ChecksAll none symbols body after) (hnested : symbols.scopes.nested = [])
    (hfound : Scope.Match (fun value ty => value = Ty.default ty) found symbols.scopes.outermost) :
    Scope.Match (fun value ty => value = Ty.default ty) (presets found body)
      after.scopes.outermost := by
  induction body generalizing symbols found with
  | nil => cases h; exact hfound
  | cons s rest ih =>
    cases h with
    | cons hs hrest =>
      cases hs with
      | @declaration _ _ info name ty? value ty hinfo =>
        rw [presets, hinfo]
        refine ih hrest ?_ ?_
        · rw [Symbols.declare, Scopes.declare, hnested]
        · rw [Symbols.declare, Scopes.declare, hnested]
          exact hfound.bind name rfl
      | _ => exact ih hrest hnested hfound

end Evaluation

namespace Simulation
open Machine Typing

def Succeeded (after : Store) (t : Status) : Prop :=
  ∃ last, t = .finished last ∧ last.shared.output = after.output

def Stopped (cause : EvalError) (after : Store) (t : Status) : Prop :=
  ∃ error last, t = .failed error last ∧ Corresponds cause error ∧ last.shared.output = after.output

section Start
variable {setting : Setting}

/-- At the start there is nothing in the heap, and the fields have their defaults. -/
def initial (linked : LinkedProgram) (output : String) : Moment :=
  ⟨fun _ => none, (Machine.start linked output).shared, []⟩

theorem agrees_initial {scopes : Scopes Value} {output : String}
    (hvalues : Scope.Match (fun value ty => value = Ty.default ty) scopes.outermost
      setting.globals.fields)
    (hfields : Generation.DefaultFields setting.globals setting.program.fields)
    (hprinted : setting.printed = output) (hprinted' : setting.printed' = output) :
    Agrees setting ⟨scopes, output⟩ (initial setting.program output) := by
  refine ⟨⟨fun _ _ h => (nomatch h), fun _ _ h => (nomatch h)⟩, fun name ty hty => ?_, "", ?_, ?_⟩
  · obtain ⟨value, hvalue, rfl⟩ := hvalues.find hty
    obtain ⟨operand, hoperand, rfl⟩ := hfields.find_left hty
    exact ⟨_, _, hvalue, hoperand, .default _ ty⟩
  · rw [hprinted, String.append_empty]
  · rw [hprinted', String.append_empty]
    rfl

theorem Succeeded.of_agrees {store : Store} {moment : Moment} {current : Activation}
    {output : String} (h : Agrees setting store moment) (hprinted : setting.printed = output)
    (hprinted' : setting.printed' = output) (result : Option Operand) :
    Succeeded store (leave ⟨current, [], moment.shared, moment.calls⟩ result) := by
  obtain ⟨text, hstore, hmoment⟩ := h.output
  refine ⟨_, rfl, ?_⟩
  rw [hstore, hprinted, ← hprinted']
  exact hmoment

theorem Stopped.of_failed {cause : EvalError} {store : Store} {t : Status} {output : String}
    (h : Failed setting cause store t) (hprinted : setting.printed = output)
    (hprinted' : setting.printed' = output) : Stopped cause store t := by
  obtain ⟨error, last, contents, rfl, hcause, hagrees⟩ := h
  obtain ⟨text, hstore, hmoment⟩ := hagrees.output
  refine ⟨error, last, rfl, hcause, ?_⟩
  rw [hstore, hprinted, ← hprinted']
  exact hmoment

theorem holds_initial (linked : LinkedRoutine) (contents : Contents) :
    Holds Generation.Frame.initial.locals (startSlots linked []) contents [] :=
  ⟨startSlots_get rfl, .nil⟩

end Start

theorem start_eq (linked : LinkedProgram) (output : String) :
    Status.running (Machine.start linked output) =
      Site.at ⟨linked.main, []⟩ linked.main.code [] (startSlots linked.main [])
        (initial linked output) :=
  rfl

theorem working_main (setting : Setting) {routine : Routine}
    (hmain : Links routine setting.program.main) :
    Working setting maxCallDepth (Evaluation.invokeWithin .own setting.functions maxCallDepth)
      ⟨setting.program.main, []⟩ :=
  ⟨callsAgree setting maxCallDepth, rfl, hmain.resolves⟩

section Main
variable {setting : Setting} {output : String}

theorem mainStatements {body : List (Stmt Info)} {after : Symbols} {frame : Frame}
    {code : List Instruction} (hchecks : ChecksAll none ⟨.empty, setting.table⟩ body after)
    (hfields : setting.globals.fields = after.scopes.outermost)
    (hcode : Generation.statements setting.globals (.ofProgram (.ok none)) body
      Generation.Frame.initial = .ok (code, frame))
    (hmain : Links (Generation.mainRoutine code frame.slot) setting.program.main)
    (hdefaults : Generation.DefaultFields setting.globals setting.program.fields)
    (hprinted : setting.printed = output) (hprinted' : setting.printed' = output) :
    Simulates setting.program
      (Evaluation.statements setting.functions
        (Evaluation.invokeWithin .own setting.functions maxCallDepth) .own body)
      ⟨⟨Evaluation.presets [] body, []⟩, output⟩ (.running (start setting.program output))
      (fun _ => Succeeded) Stopped := by
  have hsub : Scope.Sub after.scopes.outermost setting.globals.fields := hfields ▸ .refl _
  have hsurrounds : Surrounds (.ofProgram (.ok none)) ⟨.empty, setting.table⟩ none := ⟨rfl, rfl⟩
  have hsize : (frame.slot : Nat) ≤ (startSlots setting.program.main []).size := by
    have hle := le_size_startSlots setting.program.main []
    rw [hmain.maxLocals] at hle
    exact hle
  have hmatch : Scope.Match (fun value ty => value = Ty.default ty) (Evaluation.presets [] body)
      setting.globals.fields := by
    rw [hfields]
    exact Evaluation.match_presets hchecks rfl .nil
  have hlinked : setting.program.main.code = code ++ [.returnVoid] := hmain.code
  have hbefore : Before setting ⟨setting.program.main, []⟩ .empty _ frame code [.returnVoid]
      (startSlots setting.program.main []) ⟨⟨Evaluation.presets [] body, []⟩, output⟩ _ :=
    ⟨Generation.framed_initial setting.carries.serves, hlinked ▸ List.suffix_refl _, hsize,
      holds_initial _ _, agrees_initial hmatch hdefaults hprinted hprinted'⟩
  have hbody := statements (working_main setting hmain) body hchecks hsub hsurrounds hcode hbefore
  rw [← hlinked, ← start_eq] at hbody
  refine (hbody.onward fun flow last t hflow => ?_).mono (fun _ _ _ h => h) fun _ _ _ hfailed =>
    .of_failed hfailed hprinted hprinted'
  cases flow with
  | normal =>
    obtain ⟨-, later, slots, rfl, hpast⟩ := hflow
    exact ⟨_, returnVoid, .of_agrees hpast.agrees hprinted hprinted' none⟩
  | returned value =>
    obtain ⟨ty, hnone, -⟩ := hflow
    cases hnone

/-- What an expression leaves is printed, also where that is nothing. -/
theorem printing_reaches (site : Site) (rest : List Instruction) (slots : Array Operand)
    {moment : Moment} {ty : Ty} {value : Value} {stack : List Operand}
    (h : Leaves moment.contents ty value [.ref .program] stack) :
    ∃ object, Represents moment.contents object value ∧
      Reaches setting.program (site.at (Generation.printing ty ++ rest) stack slots moment)
        (site.at rest [] slots (moment.print (moment.shared.heap.text object))) := by
  unfold Leaves at h
  unfold Generation.printing
  split at h
  · next hty =>
    obtain ⟨rfl, rfl⟩ := h
    rw [if_pos hty]
    exact ⟨.null, .null, pushNull.trans (print .null)⟩
  · next hty =>
    obtain ⟨operand, rfl, hkeeps⟩ := h
    rw [if_neg hty, List.append_assoc]
    obtain ⟨object, hobject, hcoerce⟩ := coerce_object hkeeps
    exact ⟨object, hobject, hcoerce.trans (print object)⟩

theorem mainExpression {body : Expr Info} {ty : Ty} {code : List Instruction} {label : Label}
    (hbody : HasType .empty body ty) (htable : setting.table = [])
    (hglobals : setting.globals = ⟨[], []⟩)
    (hcode : Generation.expression ⟨[], []⟩ .empty body 0 = .ok (code, label))
    (hmain : Links (Generation.mainRoutine (.loadRef 0 :: (code ++ Generation.printing ty)) 1)
      setting.program.main) (hprinted : setting.printed = output)
    (hprinted' : setting.printed' = output) :
    Simulates setting.program (do
        Evaluation.print (← Evaluation.expression setting.functions
          (Evaluation.invokeWithin .own setting.functions maxCallDepth) body))
      ⟨.empty, output⟩ (.running (start setting.program output)) (fun _ => Succeeded) Stopped := by
  have hagrees : Agrees setting ⟨.empty, output⟩ (initial setting.program output) := by
    refine ⟨⟨fun _ _ h => (nomatch h), fun _ _ h => (nomatch h)⟩, fun name ty hty => ?_, "", ?_, ?_⟩
    · rw [hglobals] at hty
      cases hty
    · rw [hprinted, String.append_empty]
    · rw [hprinted', String.append_empty]
      rfl
  have hprovides : Generation.Provides ⟨.empty, setting.table⟩ setting.globals .empty := by
    rw [htable, hglobals]
    exact Generation.provides_empty
  have hty : HasType ⟨.empty, setting.table⟩ body ty := by
    rw [htable]
    exact hbody
  have hlinked : setting.program.main.code =
      .loadRef 0 :: (code ++ (Generation.printing ty ++ [.returnVoid])) := by
    rw [hmain.code]
    simp [Generation.mainRoutine]
  have hsuffix : code ++ (Generation.printing ty ++ [.returnVoid]) <:+
      (⟨setting.program.main, []⟩ : Site).routine.code := by
    rw [hlinked]
    exact List.suffix_cons _ _
  rw [← hglobals] at hcode
  rw [start_eq, hlinked]
  have hvalue := expression (working_main setting hmain) hprovides body hty hcode _ hsuffix
    [.ref .program] ⟨.empty, output⟩ _ (holds_initial setting.program.main _) hagrees
  refine .of_reaches (loadRef (holds_initial setting.program.main (fun _ => none)).program)
    ((hvalue.bind ?_).mono (fun _ _ _ h => h) fun _ _ _ hfailed =>
      .of_failed hfailed hprinted hprinted')
  rintro value after t ⟨later, stack, rfl, hleaves, hbeyond⟩
  obtain ⟨object, hobject, hprints⟩ := printing_reaches ⟨setting.program.main, []⟩ [.returnVoid]
    (startSlots setting.program.main []) hleaves
  refine .of_ok (Evaluation.print_eq value after) (hprints.trans returnVoid) ?_
  exact .of_agrees (hbeyond.print hobject).agrees hprinted hprinted' none

end Main

/-- The machine does what the program does. -/
theorem program {p : Program Info} (h : WellTyped p) :
    ∃ executable linked, Generation.program (.ok none) p = .ok executable ∧
      executable.link = .ok linked ∧ ∀ output, Simulates linked (Evaluation.program .own p)
        ⟨Evaluation.preset p, output⟩ (.running (start linked output)) (fun _ => Succeeded)
        Stopped := by
  cases h with
  | @expression mark body ty hbody =>
    obtain ⟨executable, linked, code, hexecutable, hlinked, ⟨label, hcode⟩, hmain⟩ :=
      Generation.expression_links (.ok none) hbody
    refine ⟨executable, linked, hexecutable, hlinked, fun output => ?_⟩
    obtain ⟨setting, hprogram, hglobals, htable, hfunctions, hprinted, hprinted'⟩ :
        ∃ setting : Setting, setting.program = linked ∧ setting.globals = ⟨[], []⟩ ∧
          setting.table = [] ∧ setting.functions = [] ∧ setting.printed = output ∧
          setting.printed' = output :=
      ⟨⟨linked, ⟨[], []⟩, [], [], ⟨fun _ _ h => (nomatch h), fun _ _ h => (nomatch h)⟩, output,
        output⟩, rfl, rfl, rfl, rfl, rfl, rfl⟩
    subst hprogram
    have hrun := mainExpression hbody htable hglobals hcode hmain hprinted hprinted'
    rw [hfunctions] at hrun
    exact hrun
  | @statements mark body after hnames hbody =>
    obtain ⟨executable, linked, globals, frame, code, hexecutable, hlinked, hcarries, hfields, hcode,
      -, hmain, hdefaults⟩ := Generation.statements_links hnames hbody
    refine ⟨executable, linked, hexecutable, hlinked, fun output => ?_⟩
    obtain ⟨symbols, hsymbols⟩ : ∃ symbols, initialSymbols body = symbols := ⟨_, rfl⟩
    obtain ⟨scopes, table⟩ := symbols
    obtain rfl : scopes = .empty :=
      (congrArg Symbols.scopes hsymbols).symm.trans (register_scopes .empty body)
    rw [hsymbols] at hbody hcarries
    obtain ⟨setting, hprogram, rfl, rfl, hfunctions, hprinted, hprinted'⟩ :
        ∃ setting : Setting, setting.program = linked ∧ setting.globals = globals ∧
          setting.table = table ∧ setting.functions = Evaluation.definitions [] body ∧
          setting.printed = output ∧ setting.printed' = output :=
      ⟨⟨linked, globals, table, _, hcarries, output, output⟩, rfl, rfl, rfl, rfl, rfl, rfl⟩
    subst hprogram
    have hrun := mainStatements hbody hfields hcode hmain hdefaults hprinted hprinted'
    rw [hfunctions] at hrun
    exact hrun.bind fun flow last t h => .pure h

end Simulation
end CatScript
