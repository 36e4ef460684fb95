import CatScript.Machine.Run
import CatScript.Proofs.Code.Linking
import CatScript.Proofs.Code.Routines

/-! # Well-typed programs have code

A well-typed program can be compiled and linked (`Generation.expression_links`,
`Generation.statements_links`): the routines that it may call are there under their names, and the
fields of the program object are the top-level variables. -/
set_option autoImplicit false
namespace CatScript
namespace Generation
open Typing

/-- The fields of a program are its top-level variables, in the order of their declarations. -/
theorem fields_ok {body : List (Stmt Info)} : {symbols after : Symbols} →
    ChecksAll none symbols body after → symbols.scopes.nested = [] →
    ∃ declared, fields body = .ok declared ∧
      declared.foldl (fun scope field => scope.bind field.1 field.2) symbols.scopes.outermost =
        after.scopes.outermost := by
  induction body with
  | nil =>
    intro symbols after h _
    cases h
    exact ⟨[], rfl, rfl⟩
  | cons s rest ih =>
    intro symbols after h hnested
    cases h with
    | @cons _ _ middle _ _ _ hs hrest =>
    have hmiddle : middle.scopes.nested = [] :=
      List.length_eq_zero_iff.1 (by rw [hs.grows.length, hnested]; rfl)
    obtain ⟨declared, hdeclared, hfields⟩ := ih hrest hmiddle
    cases hs with
    | @declaration _ _ info name _ _ ty hinfo _ _ _ =>
      refine ⟨(name, ty) :: declared, ?_, ?_⟩
      · rw [fields, typeOf_eq hinfo, hdeclared]
        rfl
      · rw [List.foldl_cons, ← hfields]
        obtain ⟨⟨outermost, nested⟩, functions⟩ := symbols
        cases hnested
        rfl
    | _ => exact ⟨declared, hdeclared, hfields⟩

theorem functionNames_cons (s : Stmt Info) (rest : List (Stmt Info)) :
    functionNames (s :: rest) = functionNames [s] ++ functionNames rest := by
  rw [functionNames, functionNames, functionNames, ← List.filterMap_append, List.singleton_append]

theorem names_bind {α : Type} {found : Scope α} {name : String} {rest : List String}
    (h : (found.map Prod.fst ++ name :: rest).Nodup) (value : α) :
    found.find? name = none ∧ ((found.bind name value).map Prod.fst ++ rest).Nodup := by
  have hfresh : found.find? name = none := Scope.find?_eq_none fun hmem =>
    (List.nodup_append.1 h).2.2 _ hmem _ List.mem_cons_self rfl
  refine ⟨hfresh, ?_⟩
  rw [Scope.bind_eq_append hfresh, List.map_append, List.append_assoc]
  exact h

theorem functions_match {symbols : Symbols} {body : List (Stmt Info)}
    {found : Scope (List Parameter × Ty)}
    (hnames : (found.map Prod.fst ++ functionNames body).Nodup)
    (h : Scope.Match (fun signature entry => entry.2 = signature.returns ∧
      entry.1.map Parameter.ty = signature.params) symbols.functions found) :
    Scope.Match (fun signature entry => entry.2 = signature.returns ∧
        entry.1.map Parameter.ty = signature.params)
      (register symbols body).1.functions (functions found body) := by
  induction body generalizing symbols found with
  | nil => exact h
  | cons s rest ih =>
    rw [functionNames_cons] at hnames
    cases s with
    | function info name params returns inner =>
      obtain ⟨hfresh, hnames⟩ := names_bind hnames (params, returns)
      rw [register, functions]
      simp only [Symbols.register, (h.none_iff name).2 hfresh]
      exact ih hnames (h.bind name ⟨rfl, rfl⟩)
    | _ => exact ih hnames h

theorem serves_program {body : List (Stmt Info)} (hnames : (functionNames body).Nodup)
    (fields : Scope Ty) :
    Serves ⟨fields, functions [] body⟩ (initialSymbols body).functions := by
  intro name signature hfind
  obtain ⟨⟨params, returns⟩, hentry, hreturns, hparams⟩ :=
    (functions_match (show (([] : Scope (List Parameter × Ty)).map Prod.fst ++
      functionNames body).Nodup from hnames)
      (show Scope.Match _ Symbols.empty.functions [] from .nil)).find_left hfind
  exact ⟨params, by rw [hentry, show returns = _ from hreturns], hparams⟩

theorem routines_ok {globals : Globals} {body : List (Stmt Info)} {found : Scope Routine}
    {defined : Scope Definition}
    (hbody : ∀ definition, Defines body definition → ∃ compiled,
      routine globals definition.params definition.returns definition.body = .ok compiled ∧
        Linkable compiled.code)
    (hnames : (found.map Prod.fst ++ functionNames body).Nodup)
    (hlinkable : ∀ entry ∈ found, Linkable entry.2.code)
    (h : Scope.Match (fun definition compiled =>
      routine globals definition.params definition.returns definition.body = .ok compiled)
      defined found) :
    ∃ compiled, routines globals found body = .ok compiled ∧
      (compiled.map Prod.fst).Nodup ∧ (∀ entry ∈ compiled, Linkable entry.2.code) ∧
      Scope.Match (fun definition compiled =>
        routine globals definition.params definition.returns definition.body = .ok compiled)
        (Evaluation.definitions defined body) compiled := by
  induction body generalizing found defined with
  | nil => exact ⟨found, rfl, (List.nodup_append.1 hnames).1, hlinkable, h⟩
  | cons s rest ih =>
    have hrest := fun definition (hdefines : Defines rest definition) =>
      hbody definition (hdefines.imp fun info hmem => List.mem_cons_of_mem s hmem)
    rw [functionNames_cons] at hnames
    cases s with
    | function info name params returns inner =>
      obtain ⟨code, hcode, hlink⟩ :=
        hbody ⟨name, params, returns, inner⟩ ⟨info, List.mem_cons_self⟩
      obtain ⟨hfresh, hnames⟩ := names_bind hnames code
      have hcode : routine globals params returns inner = .ok code := hcode
      have hrun : routines globals found (.function info name params returns inner :: rest) =
          routines globals (found.bind name code) rest := by
        rw [routines, hcode]
        rfl
      rw [hrun, Evaluation.definitions, (h.none_iff name).2 hfresh]
      refine ih hrest hnames (fun entry hentry => ?_) (h.bind name hcode)
      rw [Scope.bind_eq_append hfresh, List.mem_append, List.mem_singleton] at hentry
      rcases hentry with hentry | rfl
      · exact hlinkable entry hentry
      · exact hlink
    | _ => exact ih hrest hnames hlinkable h

/-- The linked routine has the code of a function, which takes and gives what its signature says. -/
structure Implements (globals : Globals) (table : Scope Signature) (definition : Definition)
    (signature : Signature) (linked : LinkedRoutine) : Prop where
  wellTyped : definition.WellTyped globals.fields table signature
  code : ∃ outermost after frame code, Scope.Sub outermost globals.fields ∧
    ChecksAll (some definition.returns)
      ⟨⟨outermost, [parameterScope definition.params]⟩, table⟩ definition.body after ∧
    Compiles globals definition after frame code ∧
    Links (routineOf definition code frame.slot) linked

/-- The linked program has the code of the functions that a table has signatures of. -/
structure Carries (globals : Globals) (table : Scope Signature) (functions : Scope Definition)
    (program : LinkedProgram) : Prop where
  serves : Serves globals table
  calls : ∀ name signature, table.find? name = some signature →
    ∃ definition linked, functions.find? name = some definition ∧
      program.routines.find? name = some linked ∧
      Implements globals table definition signature linked

theorem linkable_routineOf {globals : Globals} {definition : Definition} {after : Symbols}
    {frame : Frame} {code : List Instruction} (h : Compiles globals definition after frame code) :
    Linkable (routineOf definition code frame.slot).code := by
  refine (Linkable.of_labelled h.leads.labelled).of_same ?_ ?_ <;> unfold routineOf <;> split <;>
    simp [Instruction.place?, Instruction.target?]

theorem implements {globals : Globals} {table : Scope Signature} {definition : Definition}
    {signature : Signature} {compiled : Routine} {linked : LinkedRoutine}
    (hserves : Serves globals table)
    (hwell : definition.WellTyped globals.fields table signature)
    (hcompiled : routine globals definition.params definition.returns definition.body =
      .ok compiled) (hlinks : Links compiled linked) :
    Implements globals table definition signature linked := by
  obtain ⟨outermost, after, frame, code, hsub, hchecks, hcode⟩ := routine_ok hserves hwell
  rw [routine_eq hwell.callable.distinct hcode] at hcompiled
  cases hcompiled
  exact ⟨hwell, outermost, after, frame, code, hsub, hchecks, hcode, hlinks⟩

theorem linkable_mainRoutine {globals : Globals} {after : Symbols} {frame frame' : Frame}
    {code : List Instruction} (h : Leads after globals frame frame' code) :
    Linkable (mainRoutine code frame'.slot).code := by
  refine (Linkable.of_labelled h.labelled).of_same ?_ ?_
  · simp [mainRoutine, Instruction.place?]
  · simp [mainRoutine, Instruction.target?]

/-- The functions of checked statements are compiled, each to code that can be linked. -/
theorem routines_compiled {globals : Globals} {table : Scope Signature} {body : List (Stmt Info)}
    {after : Symbols} (hnames : (functionNames body).Nodup)
    (h : ChecksAll none ⟨.empty, table⟩ body after)
    (hfields : globals.fields = after.scopes.outermost) (hserves : Serves globals table) :
    ∃ compiled, routines globals [] body = .ok compiled ∧
      (compiled.map Prod.fst).Nodup ∧ (∀ entry ∈ compiled, Linkable entry.2.code) ∧
      Scope.Match (fun definition compiled =>
        routine globals definition.params definition.returns definition.body = .ok compiled)
        (Evaluation.definitions [] body) compiled := by
  have hcompiles : ∀ definition, Defines body definition → ∃ compiled,
      routine globals definition.params definition.returns definition.body = .ok compiled ∧
        Linkable compiled.code := by
    intro definition hdefines
    obtain ⟨signature, -, hwell⟩ := h.of_defines hdefines
    rw [← hfields] at hwell
    obtain ⟨_, after, frame, code, -, -, hcompiles⟩ := routine_ok hserves hwell
    exact ⟨_, routine_eq hwell.callable.distinct hcompiles, linkable_routineOf hcompiles⟩
  exact routines_ok hcompiles hnames (fun _ h => (nomatch h)) .nil

theorem carries_linked {globals : Globals} {table : Scope Signature} {functions : Scope Definition}
    {compiled : Scope Routine} {program : LinkedProgram} (hserves : Serves globals table)
    (hdefined : WellDefined globals.fields table functions)
    (hcompiled : Scope.Match (fun definition compiled =>
      routine globals definition.params definition.returns definition.body = .ok compiled)
      functions compiled)
    (hlinked : Scope.Match Links compiled program.routines) :
    Carries globals table functions program := by
  refine ⟨hserves, fun name signature hfind => ?_⟩
  obtain ⟨definition, hdefinition, hwell⟩ := hdefined name signature hfind
  obtain ⟨routine, hroutine, hcompiles⟩ := hcompiled.find_left hdefinition
  obtain ⟨linked, hfound, hlinks⟩ := hlinked.find_left hroutine
  exact ⟨definition, linked, hdefinition, hfound, implements hserves hwell hcompiles hlinks⟩

def DefaultFields (globals : Globals) (fields : List Field) : Prop :=
  Scope.Match (fun ty operand => operand = Machine.defaultOf (.of ty)) globals.fields
    (fields.foldl (fun scope field => scope.bind field.name (Machine.defaultOf field.descriptor)) [])

theorem defaultFields (declared : List (String × Ty)) (functions : Scope (List Parameter × Ty)) :
    DefaultFields
      ⟨declared.foldl (fun scope field => scope.bind field.1 field.2) [], functions⟩
      (declared.map fun field => ⟨field.1, .of field.2⟩) := by
  have hfold : ∀ (s : Scope Ty) (t : Scope Operand),
      Scope.Match (fun ty operand => operand = Machine.defaultOf (.of ty)) s t →
      Scope.Match (fun ty operand => operand = Machine.defaultOf (.of ty))
        (declared.foldl (fun scope field => scope.bind field.1 field.2) s)
        ((declared.map fun field => (⟨field.1, .of field.2⟩ : Field)).foldl
          (fun scope field => scope.bind field.name (Machine.defaultOf field.descriptor)) t) := by
    induction declared with
    | nil => exact fun _ _ h => h
    | cons field rest ih => exact fun s t h => ih _ _ (h.bind field.1 rfl)
  exact hfold [] [] .nil

structure StatementsLink (body : List (Stmt Info)) (globals : Globals) (after : Symbols)
    (frame : Frame) (code : List Instruction) (linked : LinkedProgram) : Prop where
  carries : Carries globals (initialSymbols body).functions (Evaluation.definitions [] body) linked
  fields : globals.fields = after.scopes.outermost
  statements : statements globals (.ofProgram (.ok none)) body Frame.initial = .ok (code, frame)
  leads : Leads after globals Frame.initial frame code
  main : Links (mainRoutine code frame.slot) linked.main
  defaults : DefaultFields globals linked.fields

theorem framed_initial {globals : Globals} {table : Scope Signature}
    (hserves : Serves globals table) : Framed ⟨.empty, table⟩ globals Frame.initial := by
  have hprovides : Provides ⟨.empty, table⟩ globals Frame.initial.locals :=
    ⟨fun _ => rfl, .nil, nofun, hserves⟩
  exact ⟨hprovides, .nil, nofun, Nat.le_refl 1⟩

theorem initialSymbols_scopes (body : List (Stmt Info)) :
    (initialSymbols body).scopes = .empty :=
  register_scopes .empty body

theorem statements_links {mark : Info} {body : List (Stmt Info)} {after : Symbols}
    (hnames : (functionNames body).Nodup) (h : ChecksAll none (initialSymbols body) body after) :
    ∃ executable linked globals frame code,
      program (.ok none) (.statements mark body) = .ok executable ∧
      executable.link = .ok linked ∧ StatementsLink body globals after frame code linked := by
  obtain ⟨declared, hdeclared, hfields⟩ := fields_ok h
    (congrArg Scopes.nested (initialSymbols_scopes body))
  rw [initialSymbols_scopes] at hfields
  obtain ⟨globals, hglobals⟩ : ∃ globals : Globals, globals =
    ⟨declared.foldl (fun scope field => scope.bind field.1 field.2) [], functions [] body⟩ :=
    ⟨_, rfl⟩
  have houtermost : globals.fields = after.scopes.outermost := by rw [hglobals]; exact hfields
  have hserves : Serves globals (initialSymbols body).functions := by
    rw [hglobals]
    exact serves_program hnames _
  obtain ⟨symbols, hsymbols⟩ : ∃ symbols, initialSymbols body = symbols := ⟨_, rfl⟩
  obtain ⟨scopes, table⟩ := symbols
  have hscopes : scopes = .empty :=
    (congrArg Symbols.scopes hsymbols).symm.trans (register_scopes .empty body)
  subst hscopes
  have hdefined := h.wellDefined
  rw [hsymbols] at h hserves hdefined
  rw [← houtermost] at hdefined
  have hsub : Scope.Sub after.scopes.outermost globals.fields := houtermost ▸ .refl _
  have hsurrounds : Surrounds (.ofProgram (.ok none)) ⟨.empty, table⟩ none := ⟨rfl, rfl⟩
  obtain ⟨code, frame, hcode, hleads⟩ :=
    statements_ok body h hsub hsurrounds _ (framed_initial hserves)
  obtain ⟨compiled, hcompiled, hdistinct, hlinkable, hmatch⟩ :=
    routines_compiled hnames h houtermost hserves
  obtain ⟨executable, hexecutable⟩ : ∃ executable : Executable, executable =
    ⟨declared.map fun field => ⟨field.1, .of field.2⟩, compiled, mainRoutine code frame.slot⟩ :=
    ⟨_, rfl⟩
  have hlink : ∃ linked, executable.link = .ok linked ∧ linked.fields = executable.fields ∧
      Scope.Match Links executable.routines linked.routines ∧
      Links executable.main linked.main := by
    rw [hexecutable]
    exact link_ok hdistinct hlinkable (linkable_mainRoutine hleads)
  obtain ⟨linked, hlinked, hlinkedFields, hroutines, hlinks⟩ := hlink
  rw [hexecutable] at hlinkedFields hroutines hlinks
  have hcarries : Carries globals table (Evaluation.definitions [] body) linked :=
    carries_linked hserves hdefined hmatch hroutines
  refine ⟨executable, linked, globals, frame, code, ?_, hlinked, ⟨hsymbols ▸ hcarries, houtermost,
    hcode, hleads, hlinks, ?_⟩⟩
  · have hrun : (Generation.statements globals (.ofProgram (.ok none)) body).run Frame.initial =
        .ok (code, frame) := hcode
    rw [program, hdeclared]
    simp only [bind, Except.bind]
    rw [← hglobals, hcompiled]
    simp only [hrun]
    rw [hexecutable]
    rfl
  · rw [hlinkedFields, hglobals]
    exact defaultFields declared _

/-- The code after that of an expression that is a program: what is printed is a reference. -/
def printing (ty : Ty) : List Instruction :=
  (if ty = .void then [.pushNull] else coerce ty .object) ++ [.invoke .print]

structure ExpressionLink (body : Expr Info) (ty : Ty) (code : List Instruction)
    (linked : LinkedProgram) : Prop where
  expression : ∃ label, expression ⟨[], []⟩ .empty body 0 = .ok (code, label)
  main : Links (mainRoutine (.loadRef 0 :: (code ++ printing ty)) 1) linked.main

theorem provides_empty : Provides .empty ⟨[], []⟩ .empty :=
  ⟨fun _ => rfl, .nil, nofun, nofun⟩

theorem expression_links {mark : Info} {body : Expr Info} {ty : Ty}
    (returnType : Except Fault (Option Ty)) (h : HasType .empty body ty) :
    ∃ executable linked code, program returnType (.expression mark body) = .ok executable ∧
      executable.link = .ok linked ∧ ExpressionLink body ty code linked := by
  obtain ⟨code, label, hcode, hlabelled⟩ := expression_ok provides_empty body h 0
  have hmain : Linkable (mainRoutine (.loadRef 0 :: (code ++ printing ty)) 1).code := by
    refine (Linkable.of_labelled hlabelled).of_same ?_ ?_
    · unfold mainRoutine printing; split <;> simp [Instruction.place?]
    · unfold mainRoutine printing; split <;> simp [Instruction.target?]
  have hlink : ∃ linked,
      (⟨[], [], mainRoutine (.loadRef 0 :: (code ++ printing ty)) 1⟩ : Executable).link =
        .ok linked ∧ _ := link_ok .nil (fun _ h => (nomatch h)) hmain
  obtain ⟨linked, hlinked, -, -, hlinks⟩ := hlink
  refine ⟨_, linked, code, ?_, hlinked, ⟨label, hcode⟩, hlinks⟩
  have hrun : (Generation.expression ⟨[], []⟩ .empty body).run 0 = .ok (code, label) := hcode
  rw [program]
  simp only [hrun, bind, Except.bind, typeOf_eq h.mark, pure, Except.pure]
  unfold printing
  simp only [List.cons_append, List.append_assoc]

end Generation
end CatScript
