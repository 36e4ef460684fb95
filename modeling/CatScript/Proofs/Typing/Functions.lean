import CatScript.Evaluation.Run
import CatScript.Proofs.Typing.Judgement

/-! # The functions of a program

Typing, evaluation and code generation each collect the functions of a program in a table of their
own.  What such a table holds comes from a definition in the program, and every function defined in
it is there. -/
set_option autoImplicit false
namespace CatScript

def Defines (body : List (Stmt Info)) (definition : Definition) : Prop :=
  ∃ info, Stmt.function info definition.name definition.params definition.returns
    definition.body ∈ body

namespace Typing

theorem register_scopes (symbols : Symbols) (body : List (Stmt Info)) :
    (register symbols body).1.scopes = symbols.scopes := by
  induction body generalizing symbols with
  | nil => rfl
  | cons s rest ih =>
    cases s with
    | function info name params returns inner =>
      rw [register]
      simp only [Symbols.register]
      split <;> exact ih _
    | _ => exact ih symbols

theorem defines_of_register {symbols : Symbols} {body : List (Stmt Info)} {name : String}
    {signature : Signature}
    (h : (register symbols body).1.functions.find? name = some signature) :
    symbols.functions.find? name = some signature ∨
      ∃ definition, Defines body definition ∧ definition.name = name := by
  induction body generalizing symbols with
  | nil => exact .inl h
  | cons s rest ih =>
    have hrest : ∀ {symbols' : Symbols},
        (register symbols' rest).1.functions.find? name = some signature →
        symbols'.functions.find? name = some signature ∨
          ∃ definition, Defines (s :: rest) definition ∧ definition.name = name := by
      intro symbols' h'
      rcases ih h' with hfound | ⟨definition, ⟨info, hmem⟩, hname⟩
      · exact .inl hfound
      · exact .inr ⟨definition, ⟨info, List.mem_cons_of_mem _ hmem⟩, hname⟩
    cases s with
    | function info other params returns inner =>
      rw [register] at h
      simp only [Symbols.register] at h
      cases hfound : symbols.functions.find? other with
      | some old => rw [hfound] at h; exact hrest h
      | none =>
        rw [hfound] at h
        rcases hrest h with hfind | hdefined
        · rw [Scope.find?_bind] at hfind
          by_cases hname : other = name
          · exact .inr ⟨⟨other, params, returns, inner⟩, ⟨info, List.mem_cons_self⟩, hname⟩
          · rw [if_neg hname] at hfind; exact .inl hfind
        · exact .inr hdefined
    | _ => exact hrest h

theorem ChecksAll.of_mem {returns : Option Ty} {body : List (Stmt Info)} {s : Stmt Info}
    (hs : s ∈ body) : {before after : Symbols} → ChecksAll returns before body after →
    ∃ first last, Checks returns first s last ∧ Grows before first ∧ Grows last after := by
  induction body with
  | nil => cases hs
  | cons other rest ih =>
    intro before after h
    cases h with
    | cons hother hrest =>
      rcases List.mem_cons.1 hs with rfl | hs
      · exact ⟨_, _, hother, .refl _, hrest.grows⟩
      · obtain ⟨first, last, hchecks, hbefore, hafter⟩ := ih hs hrest
        exact ⟨first, last, hchecks, hother.grows.trans hbefore, hafter⟩

end Typing

namespace Evaluation

theorem definitions_find? {functions : Scope Definition} {body : List (Stmt Info)} {name : String}
    {definition : Definition}
    (h : (definitions functions body).find? name = some definition) :
    functions.find? name = some definition ∨ Defines body definition ∧ definition.name = name := by
  induction body generalizing functions with
  | nil => exact .inl h
  | cons s rest ih =>
    have hrest : ∀ {functions' : Scope Definition},
        (definitions functions' rest).find? name = some definition →
        functions'.find? name = some definition ∨
          Defines (s :: rest) definition ∧ definition.name = name := by
      intro functions' h'
      rcases ih h' with hfound | ⟨⟨info, hmem⟩, hname⟩
      · exact .inl hfound
      · exact .inr ⟨⟨info, List.mem_cons_of_mem _ hmem⟩, hname⟩
    cases s with
    | function info other params returns inner =>
      rw [definitions] at h
      cases hfound : functions.find? other with
      | some old => rw [hfound] at h; exact hrest h
      | none =>
        rw [hfound] at h
        rcases hrest h with hfind | hdefined
        · rw [Scope.find?_bind] at hfind
          by_cases hname : other = name
          · rw [if_pos hname] at hfind
            cases hfind
            exact .inr ⟨⟨info, List.mem_cons_self⟩, hname⟩
          · rw [if_neg hname] at hfind; exact .inl hfind
        · exact .inr hdefined
    | _ => exact hrest h

theorem definitions_keeps {functions : Scope Definition} {name : String} {definition : Definition}
    (h : functions.find? name = some definition) (body : List (Stmt Info)) :
    (definitions functions body).find? name = some definition := by
  induction body generalizing functions with
  | nil => exact h
  | cons s rest ih =>
    cases s with
    | function info other params returns inner =>
      rw [definitions]
      cases hfound : functions.find? other with
      | some old => exact ih h
      | none =>
        refine ih ?_
        rw [Scope.find?_bind]
        by_cases hname : other = name
        · subst hname; rw [hfound] at h; cases h
        · rw [if_neg hname]; exact h
    | _ => exact ih h

theorem definitions_of_defines (functions : Scope Definition) {body : List (Stmt Info)}
    {definition : Definition} (h : Defines body definition) :
    ∃ found, (definitions functions body).find? definition.name = some found := by
  obtain ⟨info, hmem⟩ := h
  induction body generalizing functions with
  | nil => cases hmem
  | cons s rest ih =>
    rcases List.mem_cons.1 hmem with rfl | hrest
    · rw [definitions]
      cases hfound : functions.find? definition.name with
      | some old => exact ⟨old, definitions_keeps hfound rest⟩
      | none => exact ⟨_, definitions_keeps (by rw [Scope.find?_bind, if_pos rfl]) rest⟩
    · cases s with
      | function _ other _ _ _ =>
        rw [definitions]
        cases functions.find? other with
        | some old => exact ih _ hrest
        | none => exact ih _ hrest
      | _ => exact ih _ hrest

end Evaluation

structure Definition.WellTyped (globals : Scope Ty) (table : Scope Signature)
    (definition : Definition) (signature : Signature) : Prop where
  params : signature.params = definition.params.map Parameter.ty
  returns : signature.returns = definition.returns
  callable : Typing.Callable definition.params definition.returns definition.body
  body : ∃ outermost after, Scope.Sub outermost globals ∧
    Typing.ChecksAll (some definition.returns)
      ⟨⟨outermost, [Typing.parameterScope definition.params]⟩, table⟩ definition.body after

/-- Every function of a table is defined, and takes and gives what the table says. -/
def WellDefined (globals : Scope Ty) (table : Scope Signature)
    (functions : Scope Definition) : Prop :=
  ∀ name signature, table.find? name = some signature →
    ∃ definition, functions.find? name = some definition ∧
      definition.WellTyped globals table signature

/-- Where the statements of a program check, each function defined in it takes and gives what its
signature says. -/
theorem Typing.ChecksAll.of_defines {body : List (Stmt Info)} {symbols after : Symbols}
    (h : ChecksAll none symbols body after) {definition : Definition}
    (hdefines : Defines body definition) :
    ∃ signature, symbols.functions.find? definition.name = some signature ∧
      definition.WellTyped after.scopes.outermost symbols.functions signature := by
  obtain ⟨info, hmem⟩ := hdefines
  obtain ⟨first, last, hchecks, hbefore, hafter⟩ := h.of_mem hmem
  cases hchecks with
  | function hnested hfunction hcallable hbody =>
    rw [Symbols.function?, hbefore.functions] at hfunction
    rw [hbefore.functions] at hbody
    exact ⟨_, hfunction, rfl, rfl, hcallable, first.scopes.outermost, _, hafter.outermost, hbody⟩

theorem Typing.ChecksAll.wellDefined {body : List (Stmt Info)} {after : Symbols}
    (h : ChecksAll none (initialSymbols body) body after) :
    WellDefined after.scopes.outermost (initialSymbols body).functions
      (Evaluation.definitions [] body) := by
  intro name signature hfind
  obtain ⟨defined, hdefines, rfl⟩ := (defines_of_register hfind).resolve_left (by nofun)
  obtain ⟨definition, hdefinition⟩ := Evaluation.definitions_of_defines [] hdefines
  obtain ⟨hdefines, hname⟩ :=
    (Evaluation.definitions_find? hdefinition).resolve_left (by nofun)
  obtain ⟨other, hother, hwell⟩ := h.of_defines hdefines
  rw [hname, hfind] at hother
  cases hother
  exact ⟨definition, hdefinition, hwell⟩

end CatScript
