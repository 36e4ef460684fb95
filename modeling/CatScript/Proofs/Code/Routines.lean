import Mathlib.Data.List.Nodup
import CatScript.Proofs.Code.Frames
import CatScript.Proofs.Typing.Functions

/-! # Routines of well-typed functions

The parameters of a function get the first slots, in order.  A function that takes and gives what
its signature says has a routine (`Generation.routine_ok`). -/
set_option autoImplicit false
namespace CatScript
namespace Generation

def homes (slot : Nat) : List Parameter → Scope Local
  | [] => []
  | param :: rest => (param.name, ⟨slot, param.ty⟩) :: homes (slot + 1) rest

theorem homes_slots (slot : Nat) (params : List Parameter) :
    (homes slot params).map (fun entry => (entry.2.slot : Nat)) =
      List.range' slot params.length := by
  induction params generalizing slot with
  | nil => rfl
  | cons param rest ih =>
    rw [homes, List.map_cons, List.length_cons, List.range'_succ, ih]

theorem homes_range {slot : Nat} {params : List Parameter} {entry : String × Local}
    (h : entry ∈ homes slot params) :
    slot ≤ (entry.2.slot : Nat) ∧ (entry.2.slot : Nat) < slot + params.length := by
  have hmem : (entry.2.slot : Nat) ∈ List.range' slot params.length := by
    rw [← homes_slots]
    exact List.mem_map_of_mem h
  exact List.mem_range'_1.1 hmem

theorem foldl_bind_eq_append {α : Type} (f : Parameter → α) (params : List Parameter)
    (found : Scope α) (h : (found.map Prod.fst ++ params.map Parameter.name).Nodup) :
    params.foldl (fun scope param => scope.bind param.name (f param)) found =
      found ++ params.map fun param => (param.name, f param) := by
  induction params generalizing found with
  | nil => rw [List.map_nil, List.append_nil]; rfl
  | cons param rest ih =>
    have hfresh : found.find? param.name = none := by
      refine Scope.find?_eq_none fun hmem => ?_
      exact (List.nodup_append.1 h).2.2 _ hmem _ List.mem_cons_self rfl
    rw [List.foldl_cons, Scope.bind_eq_append hfresh, ih, List.append_assoc]
    · rfl
    · rw [List.map_append, List.append_assoc]
      exact h

theorem declareParameters_ok (params : List Parameter) (label slot : Nat) (found : Scope Local)
    (h : (found.map Prod.fst ++ params.map Parameter.name).Nodup) :
    declareParameters params ⟨label, slot, ⟨found, []⟩⟩ =
      .ok ((), ⟨label, slot + params.length, ⟨found ++ homes slot params, []⟩⟩) := by
  induction params generalizing slot found with
  | nil => rw [homes, List.append_nil]; rfl
  | cons param rest ih =>
    have hfresh : found.find? param.name = none := by
      refine Scope.find?_eq_none fun hmem => ?_
      exact (List.nodup_append.1 h).2.2 _ hmem _ List.mem_cons_self rfl
    have hdeclare : Scopes.declare param.name ⟨slot, param.ty⟩ ⟨found, []⟩ =
        ⟨found ++ [(param.name, (⟨slot, param.ty⟩ : Local))], []⟩ := by
      rw [Scopes.declare, Scope.bind_eq_append hfresh]
    rw [declareParameters, bind_ok (declareLocal_ok _ _ _)]
    dsimp only
    rw [hdeclare, ih (slot + 1) _ (by rw [List.map_append, List.append_assoc]; exact h),
      List.append_assoc, List.length_cons, Nat.add_assoc, Nat.add_comm 1]
    rfl

def bodyFrame (params : List Parameter) : Frame :=
  ⟨0, 1 + params.length, ⟨homes 1 params, [[]]⟩⟩

theorem match_homes (slot : Nat) (params : List Parameter)
    (h : (params.map Parameter.name).Nodup) :
    Scope.Match (fun (home : Local) ty => home.ty = ty) (homes slot params)
      (Typing.parameterScope params) := by
  rw [Typing.parameterScope, foldl_bind_eq_append Parameter.ty params [] h, List.nil_append]
  clear h
  intro name
  induction params generalizing slot with
  | nil => exact .none
  | cons param rest ih =>
    rw [homes, List.map_cons, Scope.find?_cons, Scope.find?_cons]
    split
    · exact .some rfl
    · exact ih (slot + 1)

/-- The functions that code may call are those of a table of signatures. -/
def Serves (globals : Globals) (table : Scope Signature) : Prop :=
  ∀ name signature, table.find? name = some signature →
    ∃ params, globals.functions.find? name = some (params, signature.returns) ∧
      params.map Parameter.ty = signature.params

theorem framed_bodyFrame {globals : Globals} {table : Scope Signature} {outermost : Scope Ty}
    {params : List Parameter} (hserves : Serves globals table)
    (hfields : Scope.Sub outermost globals.fields) (hdistinct : (params.map Parameter.name).Nodup) :
    Framed ⟨⟨outermost, [Typing.parameterScope params]⟩, table⟩ globals (bodyFrame params) := by
  have hlevels : (bodyFrame params).locals.levels = [homes 1 params] := rfl
  refine ⟨⟨fun hnil => (nomatch hnil), ?_, hfields, hserves⟩, ?_, ?_, ?_⟩
  · rw [hlevels]
    exact .cons (match_homes 1 params hdistinct) .nil
  · rw [hlevels, List.flatten_singleton, homes_slots]
    exact List.nodup_range'
  · rw [hlevels, List.flatten_singleton]
    exact fun entry => homes_range
  · exact Nat.le_add_right 1 _

/-- What there is to know of the routine of a function: its code is that of the body, and nothing is
returned where the code of a `void` function ends. -/
structure Compiles (globals : Globals) (definition : Definition) (after : Symbols)
    (frame : Frame) (code : List Instruction) : Prop where
  statements : statements globals (.ofFunction definition.returns) definition.body
    (bodyFrame definition.params) = .ok (code, frame)
  leads : Leads after globals (bodyFrame definition.params) frame code

def routineOf (definition : Definition) (code : List Instruction) (slots : Nat) : Routine :=
  ⟨definition.params.map Parameter.ty, definition.returns,
    if definition.returns = .void then code ++ [.returnVoid] else code, slots⟩

theorem routine_eq {globals : Globals} {definition : Definition} {after : Symbols} {frame : Frame}
    {code : List Instruction} (hdistinct : (definition.params.map Parameter.name).Nodup)
    (h : Compiles globals definition after frame code) :
    routine globals definition.params definition.returns definition.body =
      .ok (routineOf definition code frame.slot) := by
  have hparams : declareParameters definition.params Frame.initial =
      .ok ((), ⟨0, 1 + definition.params.length, ⟨homes 1 definition.params, []⟩⟩) :=
    declareParameters_ok definition.params 0 1 [] hdistinct
  rw [routine]
  simp only [StateT.run]
  rw [bind_ok hparams, inScope_ok h.statements]
  rfl

theorem routine_ok {globals : Globals} {table : Scope Signature} {definition : Definition}
    {signature : Signature} (hserves : Serves globals table)
    (h : definition.WellTyped globals.fields table signature) :
    ∃ outermost after frame code, Scope.Sub outermost globals.fields ∧
      Typing.ChecksAll (some definition.returns)
        ⟨⟨outermost, [Typing.parameterScope definition.params]⟩, table⟩ definition.body after ∧
      Compiles globals definition after frame code := by
  obtain ⟨outermost, after, hsub, hbody⟩ := h.body
  have hne : (⟨⟨outermost, [Typing.parameterScope definition.params]⟩, table⟩ :
      Symbols).scopes.nested ≠ [] := List.cons_ne_nil _ _
  have hsurrounds : Surrounds (.ofFunction definition.returns)
      ⟨⟨outermost, [Typing.parameterScope definition.params]⟩, table⟩ (some definition.returns) :=
    ⟨rfl, rfl⟩
  obtain ⟨code, frame, hcode, hleads⟩ := statements_ok definition.body hbody
    (hbody.grows.sub hne hsub) hsurrounds _ (framed_bodyFrame hserves hsub h.callable.distinct)
  exact ⟨outermost, after, frame, code, hsub, hbody, hcode, hleads⟩

end Generation
end CatScript
