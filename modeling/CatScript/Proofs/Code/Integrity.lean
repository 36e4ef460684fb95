import Mathlib.Data.List.Nodup
import CatScript.Arena.Compile
import CatScript.Proofs.Code.Linking
import CatScript.Proofs.Code.References
import CatScript.Proofs.Typing.Shape

/-! # The integrity of executables

Whatever an arena holds, the executable that is compiled from it is intact
(`Executable.intact_of_compile`): its jumps, its slots, its fields and its calls lead to what is
there. -/
set_option autoImplicit false
namespace CatScript

/-- The slot that an instruction reads or writes, with how the value in it is kept. -/
def Instruction.access? : Instruction → Option (Slot × Descriptor)
  | .loadInt slot | .storeInt slot => some (slot, .int)
  | .loadRef slot | .storeRef slot => some (slot, .reference)
  | _ => none

def Instruction.field? : Instruction → Option String
  | .getField name _ | .putField name _ => some name
  | _ => none

/-- The routine that an instruction calls, and whether it waits for a result. -/
def Instruction.callee? : Instruction → Option (String × Bool)
  | .call name _ returns => some (name, returns)
  | _ => none

/-- What the code of a routine refers to is there.  A label that a jump names stands once, a slot is
one of the routine and always for integers or always for references, a field is one of the program
object, and a call is of a routine of the executable, whose result is waited for if there is one. -/
structure Routine.Intact (executable : Executable) (routine : Routine) : Prop where
  distinct : (places routine.code).Nodup
  jumps : ∀ label ∈ targets routine.code, (places routine.code).count label = 1
  slots : ∀ access ∈ routine.code.filterMap Instruction.access?,
    (access.1 : Nat) < routine.maxLocals
  kinds : ∀ slot kind other, (slot, kind) ∈ routine.code.filterMap Instruction.access? →
    (slot, other) ∈ routine.code.filterMap Instruction.access? → kind = other
  fields : ∀ name ∈ routine.code.filterMap Instruction.field?,
    ∃ field ∈ executable.fields, field.name = name
  calls : ∀ call ∈ routine.code.filterMap Instruction.callee?,
    ∃ callee, executable.routines.find? call.1 = some callee ∧ call.2 = (callee.returns != .void)

/-- What the routines refer to is there, and no two of them have one name. -/
structure Executable.Intact (executable : Executable) : Prop where
  distinct : (executable.routines.map Prod.fst).Nodup
  routines : ∀ entry ∈ executable.routines, entry.2.Intact executable
  main : executable.main.Intact executable

def Routine.Refers (globals : Globals) (routine : Routine) : Prop :=
  ∃ kinds last, kinds.length = routine.maxLocals ∧ Piece globals kinds 0 last routine.code

/-- The executable has what the names of a program stand for. -/
structure Executable.Provides (executable : Executable) (globals : Globals) : Prop where
  fields : ∀ name, (globals.fields.find? name).isSome = true →
    ∃ field ∈ executable.fields, field.name = name
  calls : Scope.Match (fun entry callee => callee.returns = entry.2) globals.functions
    executable.routines

theorem Routine.Refers.intact {globals : Globals} {executable : Executable} {routine : Routine}
    (h : routine.Refers globals) (hprovides : executable.Provides globals) :
    routine.Intact executable := by
  obtain ⟨kinds, last, hlength, hlabelled, hrefers⟩ := h
  have haccess : ∀ access ∈ routine.code.filterMap Instruction.access?,
      kinds[access.1]? = some access.2 := by
    intro access hmem
    obtain ⟨instruction, hinstruction, heq⟩ := List.mem_filterMap.1 hmem
    have hinside := hrefers instruction hinstruction
    cases instruction <;> cases heq <;> exact hinside
  refine ⟨hlabelled.distinct, ?_, ?_, ?_, ?_, ?_⟩
  · intro label hlabel
    rw [hlabelled.distinct.count, if_pos (hlabelled.closed label hlabel)]
  · intro access hmem
    rw [← hlength]
    exact (List.getElem?_eq_some_iff.1 (haccess access hmem)).1
  · intro slot kind other hkind hother
    exact Option.some.inj ((haccess _ hkind).symm.trans (haccess _ hother))
  · intro name hmem
    obtain ⟨instruction, hinstruction, heq⟩ := List.mem_filterMap.1 hmem
    have hinside := hrefers instruction hinstruction
    apply hprovides.fields
    cases instruction <;> cases heq <;> exact hinside
  · intro call hmem
    obtain ⟨instruction, hinstruction, heq⟩ := List.mem_filterMap.1 hmem
    have hinside := hrefers instruction hinstruction
    cases instruction with
    | call name argc returns =>
      cases heq
      obtain ⟨entry, hentry, hreturns⟩ := hinside
      obtain ⟨callee, hcallee, hsame⟩ := hprovides.calls.find_left hentry
      exact ⟨callee, hcallee, hsame ▸ hreturns⟩
    | _ => cases heq

namespace Generation
variable {globals : Globals}

theorem kept_initial : Kept [.reference] Frame.initial :=
  ⟨rfl, rfl, .empty⟩

/-- All parameters of a function get slots, also two of one name. -/
theorem declareParameters_kept (params : List Parameter) {kinds : List Descriptor} {frame : Frame}
    (h : Kept kinds frame) : ∃ more after, declareParameters params frame = .ok ((), after) ∧
      after.label = frame.label ∧ Kept more after := by
  induction params generalizing kinds frame with
  | nil => exact ⟨kinds, frame, rfl, rfl, h⟩
  | cons param rest ih =>
    obtain ⟨more, after, hafter, hlabel, hkept⟩ := ih (h.declare param.name param.ty)
    refine ⟨more, after, ?_, hlabel, hkept⟩
    rw [declareParameters, bind_ok (declareLocal_ok _ _ _)]
    exact hafter

theorem routine_refers {params : List Parameter} {returns : Ty} {body : List (Stmt Info)}
    {compiled : Routine} (h : routine globals params returns body = .ok compiled) :
    compiled.Refers globals ∧ compiled.returns = returns := by
  obtain ⟨more, frame, hparams, hlabel, hkept⟩ := declareParameters_kept params kept_initial
  rw [routine] at h
  simp only [StateT.run] at h
  rw [bind_ok hparams] at h
  obtain ⟨⟨code, last⟩, hcode, h⟩ := Except.bind_ok h
  obtain ⟨after, hcode, rfl⟩ := ok_of_inScope hcode
  obtain ⟨kinds, hbuilds⟩ := statements_builds body (.ofFunction returns) nofun hkept.push hcode
  cases h
  have hpiece := hbuilds.piece
  rw [show frame.label = 0 from hlabel] at hpiece
  refine ⟨⟨kinds, after.label, hbuilds.kept.length, ?_⟩, rfl⟩
  by_cases hvoid : returns = .void
  · simp only [if_pos hvoid]
    exact hpiece.append (.plain _ (by simp) rfl rfl)
  · simp only [if_neg hvoid]
    exact hpiece

/-- There is a routine for every function, one for all of a name, and what it returns is what the
last of them returns. -/
theorem routines_refer {body : List (Stmt Info)} {known : Scope (List Parameter × Ty)}
    {found compiled : Scope Routine} (h : routines globals found body = .ok compiled)
    (hdistinct : (found.map Prod.fst).Nodup) (hrefers : ∀ entry ∈ found, entry.2.Refers globals)
    (hmatch : Scope.Match (fun entry callee => callee.returns = entry.2) known found) :
    (compiled.map Prod.fst).Nodup ∧ (∀ entry ∈ compiled, entry.2.Refers globals) ∧
      Scope.Match (fun entry callee => callee.returns = entry.2) (functions known body) compiled := by
  induction body generalizing known found with
  | nil =>
    cases h
    exact ⟨hdistinct, hrefers, hmatch⟩
  | cons s rest ih =>
    cases s with
    | function info name params returns inner =>
      rw [routines] at h
      obtain ⟨code, hcode, h⟩ := Except.bind_ok h
      obtain ⟨hcode, hreturns⟩ := routine_refers hcode
      refine ih h (Scope.nodup_bind hdistinct name code) ?_ (hmatch.bind name hreturns)
      intro entry hentry
      rcases Scope.mem_bind hentry with rfl | hentry
      · exact hcode
      · exact hrefers entry hentry
    | _ => exact ih h hdistinct hrefers hmatch

theorem mem_of_fields {body : List (Stmt Info)} {declared : List (String × Ty)}
    (h : fields body = .ok declared) {info : Info} {name : String} {ty? : Option Ty} {e : Expr Info}
    (hmem : .declaration info name ty? e ∈ body) : name ∈ declared.map Prod.fst := by
  induction body generalizing declared with
  | nil => cases hmem
  | cons s rest ih =>
    cases s with
    | declaration other first firstTy? firstValue =>
      rw [fields] at h
      obtain ⟨ty, -, h⟩ := Except.bind_ok h
      obtain ⟨others, hothers, h⟩ := Except.bind_ok h
      cases h
      rcases List.mem_cons.1 hmem with heq | hmem
      · cases heq
        exact List.mem_cons_self
      · exact List.mem_cons_of_mem _ (ih hothers hmem)
    | _ =>
      rcases List.mem_cons.1 hmem with heq | hmem
      · cases heq
      · exact ih h hmem

theorem isSome_field {declared : List (String × Ty)} {name : String} :
    (Scope.find? (declared.foldl (fun scope field => scope.bind field.1 field.2) []) name).isSome =
      true ↔ name ∈ declared.map Prod.fst := by
  rw [Scope.isSome_foldl_bind Prod.fst Prod.snd declared [] name]
  simp [Scope.find?_nil]

theorem fielded_of_fields {body : List (Stmt Info)} {declared : List (String × Ty)}
    {functions : Scope (List Parameter × Ty)} (h : fields body = .ok declared) :
    ∀ s ∈ body, Fielded
      ⟨declared.foldl (fun scope field => scope.bind field.1 field.2) [], functions⟩ s := by
  intro s hs
  cases s with
  | declaration => exact isSome_field.2 (mem_of_fields h hs)
  | _ => trivial

theorem provides_program (declared : List (String × Ty)) (main : Routine)
    {functions : Scope (List Parameter × Ty)} {compiled : Scope Routine}
    (hmatch : Scope.Match (fun entry callee => callee.returns = entry.2) functions compiled) :
    Executable.Provides
      ⟨declared.map fun field => ⟨field.1, .of field.2⟩, compiled, main⟩
      ⟨declared.foldl (fun scope field => scope.bind field.1 field.2) [], functions⟩ := by
  refine ⟨?_, hmatch⟩
  intro name hfield
  obtain ⟨field, hmem, rfl⟩ := List.mem_map.1 (isSome_field.1 hfield)
  exact ⟨_, List.mem_map_of_mem hmem, rfl⟩

theorem mainRoutine_refers {kinds : List Descriptor} {code : List Instruction} {last : Label}
    (h : Piece globals kinds 0 last code) : (mainRoutine code kinds.length).Refers globals :=
  ⟨kinds, last, rfl, h.append (.plain last (by simp) rfl rfl)⟩

theorem program_intact {returnType : Except Fault (Option Ty)} {p : Program Info}
    {executable : Executable} (h : program returnType p = .ok executable) : executable.Intact := by
  cases p with
  | expression info body =>
    rw [program] at h
    obtain ⟨⟨code, last⟩, hcode, h⟩ := Except.bind_ok h
    obtain ⟨ty, -, h⟩ := Except.bind_ok h
    cases h
    have hhoused : Housed [.reference] Scopes.empty := ⟨rfl, .empty⟩
    have hpiece := expression_piece hhoused body hcode
    have hprinted : Piece ⟨[], []⟩ [.reference] 0 last (.loadRef 0 :: code ++
        (if ty = .void then [.pushNull] else coerce ty .object) ++ [.invoke .print]) := by
      refine hpiece.around ?_ ?_ ?_ <;> split <;>
        simp [hpiece.refers, Instruction.place?, Instruction.target?]
    refine ⟨List.nodup_nil, nofun, (mainRoutine_refers hprinted).intact ⟨?_, .nil⟩⟩
    intro name hfield
    cases hfield
  | statements info body =>
    rw [program] at h
    obtain ⟨declared, hdeclared, h⟩ := Except.bind_ok h
    obtain ⟨compiled, hcompiled, h⟩ := Except.bind_ok h
    obtain ⟨⟨code, frame⟩, hcode, h⟩ := Except.bind_ok h
    cases h
    obtain ⟨hdistinct, hrefers, hmatch⟩ :=
      routines_refer hcompiled List.nodup_nil nofun (.nil : Scope.Match _ [] [])
    obtain ⟨kinds, hbuilds⟩ := statements_builds body (.ofProgram returnType)
      (fun s hs _ => fielded_of_fields hdeclared s hs) kept_initial hcode
    have hmain := mainRoutine_refers hbuilds.piece
    rw [hbuilds.kept.length] at hmain
    have hprovides := provides_program declared (mainRoutine code frame.slot) hmatch
    refine ⟨hdistinct, ?_, hmain.intact hprovides⟩
    intro entry hentry
    exact (hrefers entry hentry).intact hprovides

end Generation

/-- Whatever is compiled from an arena is intact. -/
theorem Executable.intact_of_compile {arena : Arena} {executable : Executable}
    (h : arena.compile = .ok executable) : executable.Intact := by
  unfold Arena.compile at h
  split at h
  · cases h
  · cases h
  · exact Generation.program_intact h

end CatScript
