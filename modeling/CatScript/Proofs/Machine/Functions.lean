import CatScript.Proofs.Accepted
import CatScript.Proofs.Evaluation.Cover
import CatScript.Proofs.Evaluation.Soundness
import CatScript.Proofs.Machine.Programs

/-! # Functions of accepted programs

Whatever the top-level variables hold, a call of a function of an accepted program does the same in
both engines (`Simulation.calls_alike`): the same text is printed, the top-level variables hold the
same values afterwards, and either both calls give the same value or both fail for the same reason.

Evaluation leaves the variables of loops in the scope around them.  As every top-level variable has
a value, that does not show: the call is compared with one from scopes without other names, in which
loops keep their variables to themselves. -/
set_option autoImplicit false
namespace CatScript

namespace Scope
variable {α β : Type}

def within (scope : Scope α) (names : Scope β) : Scope α :=
  scope.filter fun entry => (names.find? entry.1).isSome

theorem find?_within (scope : Scope α) (names : Scope β) (name : String) :
    (within scope names).find? name =
      if (names.find? name).isSome then scope.find? name else none := by
  induction scope with
  | nil => split <;> rfl
  | cons entry rest ih =>
    rw [within, List.filter_cons]
    by_cases hname : entry.1 = name
    · subst hname
      by_cases hin : (names.find? entry.1).isSome
      · rw [if_pos hin, if_pos hin, find?_cons, find?_cons, if_pos rfl, if_pos rfl]
      · rw [if_neg hin, if_neg hin]
        exact ih.trans (if_neg hin)
    · rw [find?_cons, if_neg hname]
      refine Eq.trans ?_ ih
      split
      · rw [find?_cons, if_neg hname]
        rfl
      · rfl

theorem find?_within_of_some {names : Scope β} {name : String} {other : β}
    (h : names.find? name = some other) (scope : Scope α) :
    (within scope names).find? name = scope.find? name := by
  rw [find?_within, h]
  rfl

theorem within_sub (scope : Scope α) (names : Scope β) : Sub (within scope names) scope := by
  intro name value h
  rw [find?_within] at h
  split at h
  · exact h
  · cases h

end Scope

namespace Evaluation

def topLevel (found : Scope Ty) : List (Stmt Info) → Scope Ty
  | [] => found
  | .declaration info name _ _ :: rest => topLevel (found.bind name (info.ty.getD .object)) rest
  | _ :: rest => topLevel found rest

theorem topLevel_eq {body : List (Stmt Info)} {symbols after : Symbols}
    (h : Typing.ChecksAll none symbols body after) (hnested : symbols.scopes.nested = []) :
    topLevel symbols.scopes.outermost body = after.scopes.outermost := by
  induction body generalizing symbols with
  | nil => cases h; rfl
  | cons s rest ih =>
    cases h with
    | cons hs hrest =>
      cases hs with
      | @declaration _ _ info name ty? value ty hinfo =>
        have hdeclare : (symbols.declare name ty).scopes =
            ⟨symbols.scopes.outermost.bind name ty, []⟩ := by
          rw [Symbols.declare, Scopes.declare, hnested]
        have hrun := ih hrest (congrArg Scopes.nested hdeclare)
        rw [hdeclare] at hrun
        rw [topLevel, hinfo]
        exact hrun
      | _ => exact ih hrest hnested

end Evaluation

namespace Program

def functions : Program Info → Scope Definition
  | .expression .. => []
  | .statements _ body => Evaluation.definitions [] body

def topLevel : Program Info → Scope Ty
  | .expression .. => []
  | .statements _ body => Evaluation.topLevel [] body

end Program

/-- Every top-level variable is bound to a value of its type, and its field keeps that value. -/
structure Related (types : Scope Ty) (contents : Contents) (values : Scope Value)
    (shared : Shared) : Prop where
  describes : contents.Describes shared.heap
  holds : ∀ name ty, types.find? name = some ty →
    ∃ value operand, values.find? name = some value ∧
      shared.fields.find? name = some operand ∧ Keeps contents ty value operand

/-- The same text has been printed in both engines, and top-level variables hold the same values. -/
structure Alike (types : Scope Ty) (contents : Contents) (before after : Store)
    (shared shared' : Shared) : Prop where
  related : Related types contents after.scopes.outermost shared'
  output : ∃ text, after.output = before.output ++ text ∧ shared'.output = shared.output ++ text

section Globals
variable {types : Scope Ty} {contents : Contents} {values : Scope Value} {shared : Shared}

theorem Related.lexical (h : Related types contents values shared) :
    Lexical ⟨types, True⟩ [] ⟨values.within types, []⟩ := by
  refine ⟨fun name value hvalue => ?_, fun _ name ty hty => ?_, .nil⟩
  · rw [Scope.find?_within] at hvalue
    cases hty : types.find? name with
    | none =>
      rw [hty] at hvalue
      cases hvalue
    | some ty =>
      have hvalue : values.find? name = some value := by rwa [hty] at hvalue
      obtain ⟨kept, operand, hkept, -, hkeeps⟩ := h.holds name ty hty
      cases hkept.symm.trans hvalue
      exact ⟨ty, rfl, hkeeps.admits⟩
  · obtain ⟨value, operand, hvalue, -, -⟩ := h.holds name ty hty
    exact ⟨value, by rw [Scope.find?_within_of_some hty, hvalue]⟩

theorem Related.within (h : Related types contents values shared) :
    Related types contents (values.within types) shared := by
  refine ⟨h.describes, fun name ty hty => ?_⟩
  obtain ⟨value, operand, hvalue, hoperand, hkeeps⟩ := h.holds name ty hty
  exact ⟨value, operand, by rw [Scope.find?_within_of_some hty, hvalue], hoperand, hkeeps⟩

theorem Related.mono {values' : Scope Value} (h : Related types contents values shared)
    (hsub : Scope.Sub values values') : Related types contents values' shared := by
  refine ⟨h.describes, fun name ty hty => ?_⟩
  obtain ⟨value, operand, hvalue, hoperand, hkeeps⟩ := h.holds name ty hty
  exact ⟨value, operand, hsub name value hvalue, hoperand, hkeeps⟩

end Globals

namespace Simulation
open Machine Typing

/-- The machine, started from the status `s`, does what the call of evaluation does: it goes on with
the caller and what the call gives, or fails for the same reason. -/
def CallAlike (p : Program Info) (linked : LinkedProgram) (returns : Ty) (caller : Activation)
    (callers : List Waiting) (store : Store) (shared : Shared) (s : Status) :
    EStateM.Result EvalError Store Value → Prop
  | .ok value after => after.scopes.nested = store.scopes.nested ∧
    ∃ contents stack shared' calls,
      Reaches linked s (.running ⟨{ caller with stack }, callers, shared', calls⟩) ∧
        Leaves contents returns value caller.stack stack ∧
        Alike p.topLevel contents store after shared shared'
  | .error cause after => ∃ contents error last,
      Reaches linked s (.failed error last) ∧ Corresponds cause error ∧
        Alike p.topLevel contents store after shared last.shared

/-- What compiling and linking make of the functions and the top-level variables of a program. -/
structure FunctionsLink (p : Program Info) (globals : Globals) (table : Scope Signature)
    (linked : LinkedProgram) : Prop where
  fields : globals.fields = p.topLevel
  carries : Generation.Carries globals table p.functions linked
  defined : WellDefined globals.fields table p.functions
  signed : ∀ name definition, p.functions.find? name = some definition →
    ∃ signature, table.find? name = some signature

theorem functions_link {p : Program Info} (h : WellTyped p) :
    ∃ executable linked globals table, Generation.program (.ok none) p = .ok executable ∧
      executable.link = .ok linked ∧ FunctionsLink p globals table linked := by
  cases h with
  | @expression mark body ty hbody =>
    obtain ⟨executable, linked, code, hexecutable, hlinked, -⟩ :=
      Generation.expression_links (.ok none) hbody
    exact ⟨executable, linked, ⟨[], []⟩, [], hexecutable, hlinked,
      rfl, ⟨nofun, nofun⟩, nofun, nofun⟩
  | @statements mark body after hnames hbody =>
    obtain ⟨executable, linked, globals, frame, code, hexecutable, hlinked, hcarries, hfields, -⟩ :=
      Generation.statements_links hnames hbody
    have hscopes := Generation.initialSymbols_scopes body
    have htypes := Evaluation.topLevel_eq hbody (by rw [hscopes]; rfl)
    rw [hscopes] at htypes
    refine ⟨executable, linked, globals, _, hexecutable, hlinked,
      hfields.trans htypes.symm, hcarries, hfields ▸ hbody.wellDefined,
      fun name definition hdefinition => ?_⟩
    obtain ⟨hdefines, rfl⟩ :=
      (Evaluation.definitions_find? hdefinition).resolve_left (by nofun)
    obtain ⟨signature, hsignature, -⟩ := hbody.of_defines hdefines
    exact ⟨signature, hsignature⟩

section Arguments
variable {contents : Contents} {params : List Parameter} {bound : Scope Value}
  {operands : List Operand}

theorem Binds.inhabited (h : Binds contents params bound operands)
    (hdistinct : (params.map Parameter.name).Nodup) : Inhabited bound (parameterScope params) := by
  rw [parameterScope, Generation.foldl_bind_eq_append Parameter.ty params [] hdistinct,
    List.nil_append]
  clear hdistinct
  induction h with
  | nil => exact .nil
  | @cons param params value bound operand operands hkeeps _ ih =>
    intro name
    rw [List.map_cons, Scope.find?_cons, Scope.find?_cons]
    split
    · exact .some hkeeps.admits
    · exact ih name

end Arguments

section Calls
variable {p : Program Info} {linked : LinkedProgram} {definition : Definition}

/-- A call in which loops keep their variables to themselves, from scopes without further names,
misses no variable, and leaking variables do not change it. -/
theorem follows_own {globals : Scope Ty} {table : Scope Signature} {functions : Scope Definition}
    {signature : Signature} (hdefined : WellDefined globals table functions)
    (hwell : definition.WellTyped globals table signature) (room : Nat) {bound : Scope Value}
    (hbound : Inhabited bound (parameterScope definition.params)) (own store : Store)
    (houtput : own.output = store.output)
    (hsub : Scope.Sub own.scopes.outermost store.scopes.outermost)
    (hlexical : Lexical ⟨globals, True⟩ [] own.scopes) :
    match (Evaluation.invokeWithin .own functions room : Invoke Eval) definition bound own with
    | .ok value last => ∃ after,
      (Evaluation.invokeWithin .around functions room : Invoke Eval) definition bound store =
          .ok value after ∧
        last.output = after.output ∧ after.scopes.nested = store.scopes.nested ∧
        Scope.Sub last.scopes.outermost after.scopes.outermost
    | .error cause last => ∃ after,
      (Evaluation.invokeWithin .around functions room : Invoke Eval) definition bound store =
          .error cause after ∧
        last.output = after.output ∧
        Scope.Sub last.scopes.outermost after.scopes.outermost := by
  have herase : ∀ rule store,
      ((Evaluation.invokeWithin rule functions room definition bound : Watch Value) store).1 =
        (Evaluation.invokeWithin rule functions room : Invoke Eval) definition bound store :=
    fun rule store => congrFun (Watch.erases_invokeWithin rule functions room definition bound) store
  have hfollows := Covering.invokeWithin hdefined .around room definition signature hwell bound own
    store (hbound.imp fun _ _ _ _ _ _ => trivial) houtput hsub
  cases hfollows with
  | ok hown haround houtput hcalm =>
    have hown := congrArg Prod.fst hown
    have haround := congrArg Prod.fst haround
    rw [herase] at hown haround
    rw [hown]
    exact ⟨_, haround, houtput, hcalm.nested', hcalm.outermost⟩
  | error hown haround houtput hsub =>
    have hown := congrArg Prod.fst hown
    have haround := congrArg Prod.fst haround
    rw [herase] at hown haround
    rw [hown]
    exact ⟨_, haround, houtput, hsub⟩
  | @missing name last seen hown =>
    have hsound : Soundness.SoundCalls ⟨globals, True⟩ table
        (Evaluation.invokeWithin .own functions room) := Soundness.invokeWithin hdefined room
    obtain ⟨-, houtcome⟩ := hsound definition signature hwell [] bound own hbound hlexical
    rw [hown] at houtcome
    exact absurd trivial houtcome.1

variable {globals : Globals} {table : Scope Signature} {contents : Contents} {store : Store}
  {shared : Shared}

/-- A call from a store is compared with one from where only the top-level variables of the program
are in scope. -/
def ownStore (p : Program Info) (store : Store) : Store :=
  ⟨⟨store.scopes.outermost.within p.topLevel, []⟩, store.output⟩

namespace FunctionsLink

/-- What the engines agree on during a call, which begins with the given outputs. -/
abbrev setting (h : FunctionsLink p globals table linked) (store : Store) (shared : Shared) : Setting :=
  ⟨linked, globals, table, p.functions, h.carries, store.output, shared.output⟩

theorem agrees (h : FunctionsLink p globals table linked)
    (hrelated : Related p.topLevel contents store.scopes.outermost shared)
    (calls : List (String × Nat)) :
    Agrees (h.setting store shared) (ownStore p store) ⟨contents, shared, calls⟩ :=
  ⟨hrelated.describes, h.fields ▸ hrelated.within.holds, "", String.append_empty.symm,
    String.append_empty.symm⟩

theorem alike (h : FunctionsLink p globals table linked) {own after : Store} {later : Moment}
    (hagrees : Agrees (h.setting store shared) own later) (houtput : own.output = after.output)
    (hsub : Scope.Sub own.scopes.outermost after.scopes.outermost) :
    Alike p.topLevel later.contents store after shared later.shared := by
  have hrelated : Related p.topLevel later.contents own.scopes.outermost later.shared :=
    ⟨hagrees.describes, h.fields ▸ hagrees.globals⟩
  exact ⟨hrelated.mono hsub, houtput ▸ hagrees.output⟩

/-- Calls of the functions of a program do the same in both engines, whatever its top-level variables
hold and however many callers wait. -/
theorem call_alike (h : FunctionsLink p globals table linked) {name : String}
    (hdefinition : p.functions.find? name = some definition)
    (hrelated : Related p.topLevel contents store.scopes.outermost shared)
    {bound : Scope Value} {operands : List Operand}
    (hbinds : Binds contents definition.params bound operands) (current caller : Activation)
    (callers : List Waiting) (calls : List (String × Nat)) :
    CallAlike p linked definition.returns caller callers store shared
      (enter linked ⟨current, callers, shared, calls⟩ name (.ref .program :: operands)
        ⟨definition.returns != .void, caller⟩)
      ((Evaluation.invokeWithin .around p.functions (maxCallDepth - callers.length) : Invoke Eval)
        definition bound store) := by
  obtain ⟨signature, hsignature⟩ := h.signed name definition hdefinition
  obtain ⟨_, hfound, hwell⟩ := h.defined name signature hsignature
  cases hdefinition.symm.trans hfound
  obtain ⟨_, routine, hfound, hroutine, himplements⟩ :=
    (h.setting store shared).carries.calls name signature hsignature
  cases hdefinition.symm.trans hfound
  rcases Nat.lt_or_ge maxCallDepth callers.length with hdeep | hroom
  · have hcount := hbinds.length.trans (params_of_implements himplements).symm
    rw [Nat.sub_eq_zero_of_le (Nat.le_of_lt hdeep), enter_deep hroutine hcount (Nat.le_of_lt hdeep)]
    exact ⟨contents, _, _, .refl _, .callDepthExceeded _, hrelated, "", by simp, by simp⟩
  · have hrun := callsAgree (h.setting store shared) (maxCallDepth - callers.length) name signature
      definition hsignature hdefinition bound operands (ownStore p store) ⟨contents, shared, calls⟩
      current caller callers (by omega) hbinds (h.agrees hrelated calls)
    have hlexical : Lexical ⟨globals.fields, True⟩ [] (ownStore p store).scopes :=
      h.fields ▸ hrelated.lexical
    have hfollows := follows_own h.defined hwell (maxCallDepth - callers.length)
      (hbinds.inhabited hwell.callable.distinct) (ownStore p store) store rfl
      (Scope.within_sub store.scopes.outermost p.topLevel) hlexical
    rw [Simulates, hwell.returns] at hrun
    split at hfollows
    · next value last hlast =>
      obtain ⟨after, hafter, houtput, hnested, hsub⟩ := hfollows
      rw [hlast] at hrun
      rw [hafter]
      obtain ⟨_, hreaches, later, stack, rfl, hleaves, hbeyond⟩ := hrun
      exact ⟨hnested, later.contents, stack, later.shared, later.calls, hreaches, hleaves,
        h.alike hbeyond.agrees houtput hsub⟩
    · next cause last hlast =>
      obtain ⟨after, hafter, houtput, hsub⟩ := hfollows
      rw [hlast] at hrun
      rw [hafter]
      obtain ⟨_, hreaches, error, final, contents', rfl, hcause, hagrees⟩ := hrun
      exact ⟨contents', error, final, hreaches, hcause, h.alike hagrees houtput hsub⟩

end FunctionsLink
end Calls

/-- In accepted programs, calls of functions do the same in both engines: the functions are in the
linked code, and whatever the top-level variables hold, whatever values of the right types are given
and however many callers wait, the texts printed, the top-level variables afterwards and the ways in
which the calls end are alike. -/
theorem calls_alike {source : String} {arena : Arena} {p : Program Info} (h : Accepts source arena)
    (hp : arena.program? = .ok (some p)) :
    ∃ executable linked, arena.compile = .ok executable ∧ executable.link = .ok linked ∧
      ∀ name definition, p.functions.find? name = some definition →
        ∀ (contents : Contents) (store : Store) (shared : Shared) (bound : Scope Value)
          (operands : List Operand) (current caller : Activation) (callers : List Waiting)
          (calls : List (String × Nat)),
          Related p.topLevel contents store.scopes.outermost shared →
          Binds contents definition.params bound operands →
          CallAlike p linked definition.returns caller callers store shared
            (enter linked ⟨current, callers, shared, calls⟩ name (.ref .program :: operands)
              ⟨definition.returns != .void, caller⟩)
            ((Evaluation.invokeWithin .around p.functions (maxCallDepth - callers.length) :
              Invoke Eval) definition bound store) := by
  obtain ⟨q, hq, hwell, hcompile⟩ := h.wellTyped
  cases hq.symm.trans hp
  obtain ⟨executable, linked, globals, table, hexecutable, hlinked, hlink⟩ := functions_link hwell
  refine ⟨executable, linked, hcompile.trans hexecutable, hlinked, ?_⟩
  intro name definition hdefinition contents store shared bound operands current caller callers calls
    hrelated hbinds
  exact hlink.call_alike hdefinition hrelated hbinds current caller callers calls

def outline? (source : String) : Option (Scope Ty × List (String × List Parameter × Ty)) :=
  match Arena.analyze source with
  | .error _ => none
  | .ok arena =>
    match arena.diagnostics, arena.program? with
    | .ok [], .ok (some p) =>
      some (p.topLevel, p.functions.map fun entry =>
        (entry.1, entry.2.params, entry.2.returns))
    | _, _ => none

theorem exists_of_outline {source : String} {types : Scope Ty}
    {functions : List (String × List Parameter × Ty)}
    (h : outline? source = some (types, functions)) : ∃ arena p, Accepts source arena ∧
      arena.program? = .ok (some p) ∧ p.topLevel = types ∧
      (p.functions.map fun entry => (entry.1, entry.2.params, entry.2.returns)) = functions := by
  unfold outline? at h
  split at h
  · cases h
  · next arena hanalyze =>
    split at h
    · next p hclean hp =>
      obtain ⟨htypes, hfunctions⟩ := Prod.mk.inj (Option.some.inj h)
      exact ⟨arena, p, ⟨hanalyze, hclean⟩, hp, htypes, hfunctions⟩
    · cases h

/-- A call of a function that reads a top-level variable. -/
theorem calls_alike_read : ∃ arena p executable linked definition,
    Accepts "var y = 1\nfunction f(x: int): int { return x + y }" arena ∧
      arena.program? = .ok (some p) ∧ arena.compile = .ok executable ∧
      executable.link = .ok linked ∧ p.functions.find? "f" = some definition ∧
      Related p.topLevel (fun _ => none) [("y", .integer 5)] ⟨[("y", .int 5)], .empty, ""⟩ ∧
      Binds (fun _ => none) definition.params [("x", .integer 2)] [.int 2] ∧
      ∀ current caller callers calls,
        CallAlike p linked definition.returns caller callers ⟨⟨[("y", .integer 5)], []⟩, ""⟩
          ⟨[("y", .int 5)], .empty, ""⟩
          (enter linked ⟨current, callers, ⟨[("y", .int 5)], .empty, ""⟩, calls⟩ "f"
            [.ref .program, .int 2] ⟨definition.returns != .void, caller⟩)
          ((Evaluation.invokeWithin .around p.functions (maxCallDepth - callers.length) :
            Invoke Eval) definition [("x", .integer 2)] ⟨⟨[("y", .integer 5)], []⟩, ""⟩) := by
  obtain ⟨arena, p, h, hp, htypes, hfunctions⟩ := exists_of_outline (show outline?
    "var y = 1\nfunction f(x: int): int { return x + y }" =
      some ([("y", .int)], [("f", [⟨"x", .int⟩], .int)]) by decide +kernel)
  obtain ⟨definition, hdefinition, hparams⟩ : ∃ definition,
      p.functions.find? "f" = some definition ∧ definition.params = [⟨"x", .int⟩] := by
    obtain ⟨⟨name, definition⟩, rest, hlist, hentry, -⟩ := List.map_eq_cons_iff.1 hfunctions
    obtain ⟨rfl, hentry⟩ := Prod.mk.inj hentry
    exact ⟨definition, by rw [hlist]; rfl, (Prod.mk.inj hentry).1⟩
  have hrelated : Related p.topLevel (fun _ => none) [("y", .integer 5)]
      ⟨[("y", .int 5)], .empty, ""⟩ := by
    rw [htypes]
    refine ⟨⟨nofun, nofun⟩, fun name ty hty => ?_⟩
    rw [Scope.find?_cons] at hty
    split at hty
    · next hname =>
      cases hname
      cases hty
      exact ⟨_, _, rfl, rfl, .integer 5⟩
    · cases hty
  have hbinds : Binds (fun _ => none) definition.params [("x", .integer 2)] [.int 2] := by
    rw [hparams]
    exact .cons (.integer 2) .nil
  obtain ⟨executable, linked, hcompile, hlink, hcalls⟩ := calls_alike h hp
  exact ⟨arena, p, executable, linked, definition, h, hp, hcompile, hlink, hdefinition, hrelated,
    hbinds, fun current caller callers calls => hcalls "f" definition hdefinition _ _ _ _ _ current
      caller callers calls hrelated hbinds⟩

end Simulation
end CatScript
