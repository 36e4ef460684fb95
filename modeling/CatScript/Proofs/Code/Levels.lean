import CatScript.Code.Generation
import CatScript.Proofs.Scope

/-! # The levels of local variables

A function binds its parameters in the outermost scope and its other variables in a scope inside
that.  The two make one level, as its variables share one scope elsewhere; every other scope is a
level of its own. -/
set_option autoImplicit false
namespace CatScript
namespace Scopes

variable {α : Type}

def levelsOf (outermost : Scope α) : List (Scope α) → List (Scope α)
  | [] => []
  | [last] => [last ++ outermost]
  | first :: next :: rest => first :: levelsOf outermost (next :: rest)

def levels (scopes : Scopes α) : List (Scope α) :=
  levelsOf scopes.outermost scopes.nested

/-- The scopes are nested, or there is nothing in the outermost one. -/
def Based (scopes : Scopes α) : Prop :=
  scopes.nested = [] → scopes.outermost = []

variable {outermost : Scope α} {nested : List (Scope α)} {name : String} {value : α}

theorem findSome?_levelsOf (h : nested ≠ []) :
    (levelsOf outermost nested).findSome? (·.find? name) = find? ⟨outermost, nested⟩ name := by
  induction nested with
  | nil => exact absurd rfl h
  | cons first rest ih =>
    cases rest with
    | nil =>
      rw [levelsOf, List.findSome?_cons, Scope.find?_append, find?_cons, find?_nil]
      cases (first.find? name).or (outermost.find? name) <;> rfl
    | cons next rest =>
      rw [levelsOf, List.findSome?_cons, find?_cons, ih (List.cons_ne_nil _ _)]
      cases first.find? name <;> rfl

theorem find?_levels {scopes : Scopes α} (h : scopes.Based) :
    scopes.levels.findSome? (·.find? name) = scopes.find? name := by
  obtain ⟨outermost, nested⟩ := scopes
  cases nested with
  | nil => rw [show outermost = [] from h rfl]; rfl
  | cons first rest => exact findSome?_levelsOf (List.cons_ne_nil _ _)

theorem levels_push {scopes : Scopes α} (h : scopes.Based) :
    scopes.push.levels = [] :: scopes.levels := by
  obtain ⟨outermost, nested⟩ := scopes
  cases nested with
  | nil => rw [show outermost = [] from h rfl]; rfl
  | cons first rest => rfl

theorem levels_pop (scopes : Scopes α) : scopes.pop.levels = scopes.levels.tail := by
  obtain ⟨outermost, nested⟩ := scopes
  match nested with
  | [] => rfl
  | [_] => rfl
  | _ :: _ :: _ => rfl

theorem levels_declare {scopes : Scopes α} {first : Scope α} {rest : List (Scope α)}
    (h : scopes.levels = first :: rest) (name : String) (value : α) :
    ∃ level : Scope α, (scopes.declare name value).levels = level :: rest ∧
      (∀ other, level.find? other = if name = other then some value else first.find? other) ∧
      (first.find? name = none → level.Perm ((name, value) :: first)) := by
  obtain ⟨outermost, nested⟩ := scopes
  match nested with
  | [] => cases h
  | [last] =>
    obtain ⟨rfl, rfl⟩ := List.cons.inj h
    refine ⟨last.bind name value ++ outermost, rfl, fun other => ?_, fun hfresh => ?_⟩
    · rw [Scope.find?_append, Scope.find?_append, Scope.find?_bind]
      split <;> rfl
    · rw [Scope.find?_append, Option.or_eq_none_iff] at hfresh
      rw [Scope.bind_eq_append hfresh.1, List.append_assoc, List.singleton_append]
      exact List.perm_middle
  | scope :: next :: nested =>
    obtain ⟨rfl, rfl⟩ := List.cons.inj h
    refine ⟨scope.bind name value, rfl, fun other => Scope.find?_bind .., fun hfresh => ?_⟩
    rw [Scope.bind_eq_append hfresh]
    exact List.perm_append_singleton ..

end Scopes
end CatScript
