import CatScript.Proofs.Evaluation.Ensures
import CatScript.Proofs.Typing.Judgement

/-! # Scopes that follow the text

Where the variable of a loop has a scope of its own, the scopes of a run follow the text of the
program: there is one for each scope of types in sight, with a value for each type in it.  Only the
outermost scope may still lack variables, as functions can be called before these are declared.
`Lexical` says this of scopes; whatever evaluation does to the scopes keeps it. -/
set_option autoImplicit false
namespace CatScript

abbrev Inhabited (values : Scope Value) (types : Scope Ty) : Prop :=
  Scope.Match (fun value ty => ty.admits value = true) values types

/-- What is known of the top-level variables of a program: the types that they end up with, and
whether all of them have values from the start. -/
structure TopLevel where
  types : Scope Ty
  complete : Prop

/-- The scopes follow the types of the nested scopes in sight, and those of the top level. -/
structure Lexical (top : TopLevel) (nested : List (Scope Ty)) (scopes : Scopes Value) : Prop where
  outermost : ∀ name value, scopes.outermost.find? name = some value →
    ∃ ty, top.types.find? name = some ty ∧ ty.admits value = true
  filled : top.complete → ∀ name ty, top.types.find? name = some ty →
    ∃ value, scopes.outermost.find? name = some value
  nested : List.Forall₂ Inhabited scopes.nested nested

namespace Lexical
variable {top : TopLevel} {nested : List (Scope Ty)} {Γ : Symbols} {scopes : Scopes Value}
  {name : String} {ty : Ty} {value : Value}

theorem found (h : Lexical top Γ.scopes.nested scopes)
    (hglobals : Scope.Sub Γ.scopes.outermost top.types)
    (hty : Γ.typeOf? name = some ty) (hvalue : scopes.find? name = some value) :
    ty.admits value = true := by
  have hrel := Scopes.findSome?_match h.nested name
  rw [Symbols.typeOf?, Scopes.find?] at hty
  rw [Scopes.find?] at hvalue
  cases hv : scopes.nested.findSome? (·.find? name) with
  | some inner =>
    rw [hv] at hvalue hrel
    cases hvalue
    cases ht : Γ.scopes.nested.findSome? (·.find? name) with
    | some other => rw [ht] at hty hrel; cases hty; cases hrel with | some hadmits => exact hadmits
    | none => rw [ht] at hrel; cases hrel
  | none =>
    rw [hv] at hvalue hrel
    cases ht : Γ.scopes.nested.findSome? (·.find? name) with
    | some inner => rw [ht] at hrel; cases hrel
    | none =>
      rw [ht] at hty
      obtain ⟨other, hother, hadmits⟩ := h.outermost name value hvalue
      rw [hglobals name ty hty] at hother
      cases hother
      exact hadmits

theorem missing (h : Lexical top Γ.scopes.nested scopes)
    (hglobals : Scope.Sub Γ.scopes.outermost top.types) (hty : Γ.typeOf? name = some ty)
    (hvalue : scopes.find? name = none) : ¬top.complete := by
  intro hcomplete
  have hrel := Scopes.findSome?_match h.nested name
  rw [Symbols.typeOf?, Scopes.find?] at hty
  rw [Scopes.find?] at hvalue
  cases hv : scopes.nested.findSome? (·.find? name) with
  | some inner => rw [hv] at hvalue; cases hvalue
  | none =>
    rw [hv] at hvalue hrel
    cases ht : Γ.scopes.nested.findSome? (·.find? name) with
    | some inner => rw [ht] at hrel; cases hrel
    | none =>
      rw [ht] at hty
      obtain ⟨found, hfound⟩ := h.filled hcomplete name ty (hglobals name ty hty)
      rw [hfound] at hvalue
      cases hvalue

theorem bind (h : Lexical top nested scopes) (hty : top.types.find? name = some ty)
    (hvalue : ty.admits value = true) : Lexical top nested
      { scopes with outermost := scopes.outermost.bind name value } := by
  refine ⟨fun other found hfound => ?_, fun hcomplete other other' hother => ?_, h.nested⟩
  · rw [Scope.find?_bind] at hfound
    split at hfound
    · next hname =>
      cases hname
      cases hfound
      exact ⟨ty, hty, hvalue⟩
    · exact h.outermost other found hfound
  · rw [Scope.find?_bind]
    split
    · exact ⟨value, rfl⟩
    · exact h.filled hcomplete other other' hother

theorem declare (h : Lexical top Γ.scopes.nested scopes)
    (hglobals : Scope.Sub (Γ.declare name ty).scopes.outermost top.types)
    (hvalue : ty.admits value = true) :
    Lexical top (Γ.declare name ty).scopes.nested (scopes.declare name value) := by
  obtain ⟨⟨types, nested⟩, functions⟩ := Γ
  obtain ⟨values, inner⟩ := scopes
  obtain ⟨hvalues, hfilled, hnested⟩ := h
  cases hnested with
  | nil =>
    have hty : top.types.find? name = some ty := hglobals name ty (by
      simp [Symbols.declare, Scopes.declare, Scope.find?_bind])
    exact bind ⟨hvalues, hfilled, .nil⟩ hty hvalue
  | cons hfirst hrest => exact ⟨hvalues, hfilled, .cons (hfirst.bind name hvalue) hrest⟩

theorem assign {after : Scopes Value} (h : Lexical top Γ.scopes.nested scopes)
    (hglobals : Scope.Sub Γ.scopes.outermost top.types)
    (hty : Γ.typeOf? name = some ty) (hvalue : ty.admits value = true)
    (hafter : scopes.assign? name value = some after) :
    Lexical top Γ.scopes.nested after := by
  rw [Symbols.typeOf?, Scopes.find?] at hty
  rw [Scopes.assign?] at hafter
  cases ht : Γ.scopes.nested.findSome? (·.find? name) with
  | some inner =>
    rw [ht] at hty
    cases hty
    obtain ⟨nested, hrebind, hnested⟩ := Scopes.rebind?_match h.nested ht hvalue
    rw [hrebind] at hafter
    cases hafter
    exact ⟨h.outermost, h.filled, hnested⟩
  | none =>
    rw [ht] at hty
    have hrel := Scopes.findSome?_match h.nested name
    rw [ht] at hrel
    cases hv : scopes.nested.findSome? (·.find? name) with
    | some inner => rw [hv] at hrel; cases hrel
    | none =>
      rw [Scopes.rebind?_none hv] at hafter
      cases hold : scopes.outermost.find? name with
      | none => rw [hold] at hafter; cases hafter
      | some old =>
        rw [hold] at hafter
        cases hafter
        exact h.bind (hglobals name ty hty) hvalue

theorem push (h : Lexical top nested scopes) : Lexical top ([] :: nested) scopes.push :=
  ⟨h.outermost, h.filled, .cons .nil h.nested⟩

theorem pop {scope : Scope Ty} (h : Lexical top (scope :: nested) scopes) :
    Lexical top nested scopes.pop := by
  obtain ⟨first, rest, -, hrest, heq⟩ := List.forall₂_cons_right_iff.1 h.nested
  refine ⟨h.outermost, h.filled, ?_⟩
  rw [Scopes.pop, heq]
  exact hrest

theorem enter {params : Scope Ty} {bound : Scope Value} (h : Lexical top nested scopes)
    (hbound : Inhabited bound params) :
    Lexical top [params] { scopes with nested := [bound] } :=
  ⟨h.outermost, h.filled, .cons hbound .nil⟩

theorem leave {inner : List (Scope Ty)} {before : Scopes Value}
    (hbefore : Lexical top nested before) (h : Lexical top inner scopes) :
    Lexical top nested { scopes with nested := before.nested } :=
  ⟨h.outermost, h.filled, hbefore.nested⟩

end Lexical
end CatScript
