import CatScript.Proofs.Scope
import CatScript.Evaluation.Store
import CatScript.Proofs.Typing.Judgement

/-! # Scopes that cover others

Loops that declare their variables in the scope around them leave names behind, and so do top-level
variables that have values before they are declared.  `Aligned` says that nested scopes hold such
names beside those of others: every name that the types have in sight is found the same
(`Aligned.find?`) and may be changed (`Aligned.assign`), and others may be declared
(`Aligned.extra`). -/
set_option autoImplicit false
namespace CatScript

/-- How a scope stands to the covering scopes: it has a counterpart there, or it is the scope of the
variable of a loop, which the innermost of the scopes below holds. -/
inductive Standing where
  | scope | loop
deriving DecidableEq

/-- The nested scopes `rest'` over `values'` hold what the nested scopes `rest` over `values` hold.
Names that only they have are out of sight. -/
inductive Aligned (types : Scope Ty) (values values' : Scope Value) :
    List Standing → List (Scope Ty) → List (Scope Value) → List (Scope Value) → Prop where
  | nil : Aligned types values values' [] [] [] []
  | scope {shape : List Standing} {own : Scope Ty} {nested : List (Scope Ty)}
      {first first' : Scope Value} {rest rest' : List (Scope Value)} :
      Scope.Match (fun _ _ => True) first own → Scope.Sub first first' →
      (∀ name, first.find? name = none → first'.find? name ≠ none →
        Scopes.find? ⟨types, nested⟩ name = none) →
      Aligned types values values' shape nested rest rest' →
      Aligned types values values' (.scope :: shape) (own :: nested) (first :: rest)
        (first' :: rest')
  | loop {shape : List Standing} {name : String} {ty : Ty} {value : Value}
      {nested : List (Scope Ty)} {rest rest' : List (Scope Value)} :
      Scopes.find? ⟨types, nested⟩ name = none →
      (Scopes.innermost ⟨values', rest'⟩).find? name = some value →
      (rest' = [] → values.find? name = none) →
      Aligned types values values' shape nested rest rest' →
      Aligned types values values' (.loop :: shape) ([(name, ty)] :: nested)
        ([(name, value)] :: rest) rest'

namespace Aligned
variable {types : Scope Ty} {values values' : Scope Value} {shape : List Standing}
  {nested : List (Scope Ty)} {rest rest' : List (Scope Value)} {name : String}

theorem find? (h : Aligned types values values' shape nested rest rest')
    (hsub : Scope.Sub values values') {ty : Ty} {value : Value}
    (hty : Scopes.find? ⟨types, nested⟩ name = some ty)
    (hvalue : Scopes.find? ⟨values, rest⟩ name = some value) :
    Scopes.find? ⟨values', rest'⟩ name = some value := by
  induction h with
  | nil => exact hsub name value hvalue
  | @scope _ own nested first first' rest rest' hmatch hfirst hextra _ ih =>
    rw [Scopes.find?_cons] at hty hvalue ⊢
    cases hfound : first.find? name with
    | some found =>
      rw [hfound] at hvalue
      rw [hfirst name found hfound]
      exact hvalue
    | none =>
      rw [hfound] at hvalue
      rw [(hmatch.none_iff name).1 hfound] at hty
      cases hfound' : first'.find? name with
      | some found =>
        rw [hextra name hfound (by rw [hfound']; simp)] at hty
        cases hty
      | none => exact ih hty hvalue
  | @loop _ other ty' value' nested rest rest' _ hbound _ _ ih =>
    rw [Scopes.find?_cons, Scope.find?_cons] at hty hvalue
    by_cases hname : other = name
    · subst hname
      rw [if_pos rfl] at hvalue
      cases hvalue
      exact Scopes.find?_of_innermost hbound
    · rw [if_neg hname] at hty hvalue
      exact ih hty hvalue

theorem extra (h : Aligned types values values' shape nested rest rest')
    (hname : Scopes.find? ⟨types, nested⟩ name = none) (value : Value) :
    Aligned types values (Scopes.declare name value ⟨values', rest'⟩).outermost shape nested rest
      (Scopes.declare name value ⟨values', rest'⟩).nested := by
  induction h with
  | nil => exact .nil
  | @scope _ own nested first first' rest rest' hmatch hfirst hextra hrest _ =>
    rw [Scopes.find?_cons, Option.or_eq_none_iff] at hname
    have hfresh := (hmatch.none_iff name).2 hname.1
    refine .scope hmatch (fun other found hfound => ?_) (fun other hother hother' => ?_) hrest
    · rw [Scope.find?_bind, if_neg (fun heq => by subst heq; rw [hfresh] at hfound; cases hfound)]
      exact hfirst other found hfound
    · rw [Scope.find?_bind] at hother'
      by_cases heq : name = other
      · subst heq; exact hname.2
      · rw [if_neg heq] at hother'; exact hextra other hother hother'
  | @loop _ other ty' value' nested rest rest' hhidden hbound hfresh _ ih =>
    rw [Scopes.find?_cons, Option.or_eq_none_iff, Scope.find?_cons] at hname
    have hne : ¬name = other := fun heq => by rw [if_pos heq.symm] at hname; cases hname.1
    refine .loop hhidden ?_ (fun hnil => hfresh ?_) (ih hname.2)
    · exact Scopes.innermost_declare.trans ((if_neg hne).trans hbound)
    · cases rest' with
      | nil => rfl
      | cons first' rest' => cases hnil

theorem not_mem_of_nil (h : Aligned types values values' shape nested rest []) :
    Standing.scope ∉ shape := by
  generalize hrest : ([] : List (Scope Value)) = rest' at h
  induction h with
  | nil => exact List.not_mem_nil
  | scope => cases hrest
  | loop _ _ _ _ ih => simpa using ih hrest

theorem ne_nil (h : Aligned types values values' shape nested rest rest')
    (hshape : shape.getLast? = some .scope) : rest' ≠ [] := by
  induction h with
  | nil => cases hshape
  | scope => exact List.cons_ne_nil _ _
  | @loop shape _ _ _ _ _ _ _ _ _ _ ih =>
    cases shape with
    | nil => cases hshape
    | cons standing shape => exact ih (by rwa [List.getLast?_cons_cons] at hshape)

end Aligned

namespace Aligned
variable {types : Scope Ty} {values values' : Scope Value} {shape : List Standing}
  {nested : List (Scope Ty)} {rest rest' : List (Scope Value)} {name : String}

/-- The scopes `after'` come from `⟨values', rest'⟩` by a change of the variable `name`, and `after`
from scopes over `values` that these cover. -/
structure Changed (types : Scope Ty) (values values' : Scope Value) (shape : List Standing)
    (nested : List (Scope Ty)) (rest' : List (Scope Value)) (name : String)
    (after after' : Scopes Value) : Prop where
  outermost : Scope.Sub after.outermost after'.outermost
  aligned : Aligned types after.outermost after'.outermost shape nested after.nested after'.nested
  names : ∀ other, values.find? other = none → after.outermost.find? other = none
  extras : shape.getLast? ≠ some .loop → ∀ other, values.find? other = none →
    after'.outermost.find? other = values'.find? other
  depth : after'.nested = [] → rest' = []
  innermost : ∀ other, other ≠ name →
    after'.innermost.find? other = (Scopes.innermost ⟨values', rest'⟩).find? other

namespace Changed
variable {value value' : Value} {own : Scope Ty} {first first' : Scope Value} {other : String}
  {after after' : Scopes Value} {ty : Ty}

theorem top (hsub : Scope.Sub values values') (hold : values.find? name = some value') :
    Changed types values values' [] [] [] name ⟨values.bind name value, []⟩
      ⟨values'.bind name value, []⟩ := by
  have hother : ∀ {other}, values.find? other = none → ¬name = other := by
    rintro other hother rfl
    rw [hold] at hother
    cases hother
  exact {
    outermost := hsub.bind name value
    aligned := .nil
    names := fun other h => (Scope.find?_bind ..).trans ((if_neg (hother h)).trans h)
    extras := fun _ other h => (Scope.find?_bind ..).trans (if_neg (hother h))
    depth := fun _ => rfl
    innermost := fun other hne => (Scope.find?_bind ..).trans (if_neg fun heq => hne heq.symm) }

theorem here (hsub : Scope.Sub values values')
    (hmatch : Scope.Match (fun _ _ => True) first own) (hfirst : Scope.Sub first first')
    (hextra : ∀ name, first.find? name = none → first'.find? name ≠ none →
      Scopes.find? ⟨types, nested⟩ name = none)
    (hrest : Aligned types values values' shape nested rest rest')
    (hold : first.find? name = some value') :
    Changed types values values' (.scope :: shape) (own :: nested) (first' :: rest') name
      ⟨values, first.bind name value :: rest⟩ ⟨values', first'.bind name value :: rest'⟩ := by
  obtain ⟨found, hfound, -⟩ := hmatch.find_left hold
  refine ⟨hsub, .scope (fun other => ?_) (hfirst.bind name value) (fun other hother hother' => ?_)
    hrest, fun _ h => h, fun _ _ _ => rfl, (fun hnil => by cases hnil), fun other hne => ?_⟩
  · rw [Scope.find?_bind]
    by_cases hname : name = other
    · subst hname; rw [if_pos rfl, hfound]; exact .some trivial
    · rw [if_neg hname]; exact hmatch other
  · rw [Scope.find?_bind] at hother hother'
    by_cases hname : name = other
    · rw [if_pos hname] at hother; cases hother
    · rw [if_neg hname] at hother hother'; exact hextra other hother hother'
  · exact (Scope.find?_bind ..).trans (if_neg fun heq => hne heq.symm)

theorem under (h : Changed types values values' shape nested rest' name after after')
    (hmatch : Scope.Match (fun _ _ => True) first own) (hfirst : Scope.Sub first first')
    (hextra : ∀ name, first.find? name = none → first'.find? name ≠ none →
      Scopes.find? ⟨types, nested⟩ name = none) :
    Changed types values values' (.scope :: shape) (own :: nested) (first' :: rest') name
      ⟨after.outermost, first :: after.nested⟩ ⟨after'.outermost, first' :: after'.nested⟩ := by
  refine ⟨h.outermost, .scope hmatch hfirst hextra h.aligned, h.names, fun hshape => h.extras ?_,
    (fun hnil => by cases hnil), fun _ _ => rfl⟩
  cases shape with
  | nil => simp
  | cons standing shape => rwa [List.getLast?_cons_cons] at hshape

theorem below (hshape : (Standing.loop :: shape).getLast? ≠ some .loop) :
    shape.getLast? = some .scope := by
  cases shape with
  | nil => exact absurd rfl hshape
  | cons standing shape =>
    rw [List.getLast?_cons_cons] at hshape
    rw [List.getLast?_eq_some_getLast (List.cons_ne_nil _ _)] at hshape ⊢
    cases hlast : (standing :: shape).getLast (List.cons_ne_nil _ _) with
    | scope => rfl
    | loop => rw [hlast] at hshape; exact absurd rfl hshape

/-- The variable is the one of a loop, which the covering scopes hold in their innermost scope. -/
theorem ofLoop (hsub : Scope.Sub values values')
    (hhidden : Scopes.find? ⟨types, nested⟩ name = none)
    (hfresh : rest' = [] → values.find? name = none)
    (hrest : Aligned types values values' shape nested rest rest') :
    Changed types values values' (.loop :: shape) ([(name, ty)] :: nested) rest' name
      ⟨values, [(name, value)] :: rest⟩ (Scopes.declare name value ⟨values', rest'⟩) := by
  have hnil : (Scopes.declare name value ⟨values', rest'⟩).nested = [] → rest' = [] := by
    intro hnil
    cases rest' with
    | nil => rfl
    | cons first' rest' => cases hnil
  refine ⟨fun n found hfound => ?_, .loop hhidden (Scopes.innermost_declare.trans (if_pos rfl))
    (fun h => hfresh (hnil h)) (hrest.extra hhidden value), fun _ h => h, fun hshape n hn => ?_,
    hnil, fun n hn => Scopes.innermost_declare.trans (if_neg fun heq => hn heq.symm)⟩
  · cases rest' with
    | nil =>
      refine (Scope.find?_bind ..).trans ((if_neg ?_).trans (hsub n found hfound))
      rintro rfl
      rw [hfresh rfl] at hfound
      cases hfound
    | cons first' rest' => exact hsub n found hfound
  · cases rest' with
    | nil => exact absurd rfl (hrest.ne_nil (below hshape))
    | cons first' rest' => rfl

theorem besideLoop (h : Changed types values values' shape nested rest' name after after')
    (hne : ¬other = name) (hhidden : Scopes.find? ⟨types, nested⟩ other = none)
    (hbound : (Scopes.innermost ⟨values', rest'⟩).find? other = some value)
    (hfresh : rest' = [] → values.find? other = none) :
    Changed types values values' (.loop :: shape) ([(other, ty)] :: nested) rest' name
      ⟨after.outermost, [(other, value)] :: after.nested⟩ after' := by
  refine ⟨h.outermost, .loop hhidden ((h.innermost other hne).trans hbound)
    (fun hnil => h.names other (hfresh (h.depth hnil))) h.aligned, h.names,
    fun hshape => h.extras ?_, h.depth, h.innermost⟩
  rw [below hshape]
  simp

end Changed

/-- What is changed in scopes can be changed in those that cover them.  Only the variable of a loop
is changed where the others do not have it. -/
theorem assign (h : Aligned types values values' shape nested rest rest')
    (hsub : Scope.Sub values values') {ty : Ty} {value : Value} {after : Scopes Value}
    (hty : Scopes.find? ⟨types, nested⟩ name = some ty)
    (hassign : Scopes.assign? name value ⟨values, rest⟩ = some after) :
    ∃ after', Scopes.assign? name value ⟨values', rest'⟩ = some after' ∧
      Changed types values values' shape nested rest' name after after' := by
  induction h generalizing after with
  | nil =>
    rw [Scopes.assign?_nil] at hassign ⊢
    cases hold : values.find? name with
    | none => rw [hold] at hassign; cases hassign
    | some old =>
      rw [hold] at hassign
      cases hassign
      rw [hsub name old hold]
      exact ⟨_, rfl, .top hsub hold⟩
  | @scope shape own nested first first' rest rest' hmatch hfirst hextra hrest ih =>
    rw [Scopes.assign?_cons] at hassign ⊢
    rw [Scopes.find?_cons] at hty
    cases hold : first.find? name with
    | some old =>
      rw [hold] at hassign
      cases hassign
      rw [hfirst name old hold]
      exact ⟨_, rfl, .here hsub hmatch hfirst hextra hrest hold⟩
    | none =>
      rw [hold] at hassign
      rw [(hmatch.none_iff name).1 hold] at hty
      obtain ⟨middle, hmiddle, rfl⟩ := Option.map_eq_some_iff.1 hassign
      obtain ⟨middle', hmiddle', hchanged⟩ := ih hty hmiddle
      -- The name is in sight further out, so the covering scope does not have it here either.
      have hfresh : first'.find? name = none := by
        cases hfound : first'.find? name with
        | none => rfl
        | some found =>
          rw [hextra name hold (by rw [hfound]; simp)] at hty
          cases hty
      rw [hfresh, hmiddle']
      exact ⟨_, rfl, hchanged.under hmatch hfirst hextra⟩
  | @loop shape other ty' value' nested rest rest' hhidden hbound hfresh hrest ih =>
    rw [Scopes.assign?_cons, Scope.find?_cons] at hassign
    rw [Scopes.find?_cons, Scope.find?_cons] at hty
    by_cases hname : other = name
    · subst hname
      rw [if_pos rfl] at hassign
      cases hassign
      have hbind : Scope.bind other value [(other, value')] = [(other, value)] := by
        simp [Scope.bind]
      rw [hbind]
      exact ⟨_, Scopes.assign?_of_innermost value hbound, .ofLoop hsub hhidden hfresh hrest⟩
    · rw [if_neg hname] at hassign hty
      obtain ⟨middle, hmiddle, rfl⟩ := Option.map_eq_some_iff.1 hassign
      obtain ⟨middle', hmiddle', hchanged⟩ := ih hty hmiddle
      exact ⟨middle', hmiddle', hchanged.besideLoop hname hhidden hbound hfresh⟩

/-- Changes of the outermost scopes that keep the names of the one and the rest of the other do no
harm. -/
theorem outermost {after after' : Scope Value}
    (h : Aligned types values values' shape nested rest rest')
    (hkept : ∀ name, values.find? name = none →
      after.find? name = none ∧ after'.find? name = values'.find? name) :
    Aligned types after after' shape nested rest rest' := by
  induction h with
  | nil => exact .nil
  | scope hmatch hfirst hextra _ ih => exact .scope hmatch hfirst hextra ih
  | @loop _ name _ _ _ _ rest' hhidden hbound hfresh _ ih =>
    refine .loop hhidden ?_ (fun hnil => (hkept name (hfresh hnil)).1) ih
    cases rest' with
    | nil => exact ((hkept name (hfresh rfl)).2).trans hbound
    | cons first' rest' => exact hbound

end Aligned
end CatScript
