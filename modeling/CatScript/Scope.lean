/-! # Scopes

A scope binds names, each at most once; scopes nest over one outermost scope.  `find?_bind` and
`find?_declare` say what a binding does to every name, `find?_push` that an empty scope hides
nothing. -/
set_option autoImplicit false
namespace CatScript

variable {α : Type}

/-- The names bound by one stretch of a program. -/
abbrev Scope (α : Type) := List (String × α)

namespace Scope

def find? : Scope α → String → Option α
  | [], _ => none
  | (other, value) :: rest, name => if other = name then some value else find? rest name

/-- Binds a name, in place of what it was bound to before. -/
def bind (name : String) (value : α) : Scope α → Scope α
  | [] => [(name, value)]
  | (other, old) :: rest =>
    if other = name then (name, value) :: rest else (other, old) :: bind name value rest

theorem find?_nil (name : String) : find? ([] : Scope α) name = none := rfl

theorem find?_cons (entry : String × α) (scope : Scope α) (name : String) :
    find? (entry :: scope) name = if entry.1 = name then some entry.2 else find? scope name := rfl

theorem find?_bind (scope : Scope α) (name : String) (value : α) (other : String) :
    find? (bind name value scope) other =
      if name = other then some value else find? scope other := by
  induction scope with
  | nil => simp [bind, find?_cons]
  | cons entry rest ih =>
    obtain ⟨first, old⟩ := entry
    unfold bind
    by_cases h : first = name
    · subst h; simp only [if_true, find?_cons]; split <;> simp_all
    · simp only [h, if_false, find?_cons, ih]
      by_cases hf : first = other <;> by_cases hn : name = other <;> simp_all

end Scope

/-- Nested scopes: the outermost one, and those inside it, the innermost first. -/
structure Scopes (α : Type) where
  outermost : Scope α
  nested : List (Scope α)

namespace Scopes

def empty : Scopes α := ⟨[], []⟩

def push (scopes : Scopes α) : Scopes α :=
  { scopes with nested := [] :: scopes.nested }

/-- The scopes without the innermost one, unless that is the outermost too. -/
def pop? (scopes : Scopes α) : Option (Scopes α) :=
  match scopes.nested with
  | [] => none
  | _ :: rest => some { scopes with nested := rest }

/-- The scopes without the innermost one; the outermost scope stays. -/
def pop (scopes : Scopes α) : Scopes α :=
  { scopes with nested := scopes.nested.tail }

def innermost (scopes : Scopes α) : Scope α :=
  scopes.nested.headD scopes.outermost

/-- What a name is bound to in the innermost scope that binds it. -/
def find? (scopes : Scopes α) (name : String) : Option α :=
  match scopes.nested.findSome? (·.find? name) with
  | some value => some value
  | none => scopes.outermost.find? name

def declare (name : String) (value : α) (scopes : Scopes α) : Scopes α :=
  match scopes.nested with
  | [] => { scopes with outermost := scopes.outermost.bind name value }
  | scope :: rest => { scopes with nested := scope.bind name value :: rest }

/-- Binds a name anew in the first of `scopes` that binds it. -/
def rebind? (name : String) (value : α) : List (Scope α) → Option (List (Scope α))
  | [] => none
  | scope :: rest =>
    match scope.find? name with
    | some _ => some (scope.bind name value :: rest)
    | none => (rebind? name value rest).map (scope :: ·)

def assign? (name : String) (value : α) (scopes : Scopes α) : Option (Scopes α) :=
  match rebind? name value scopes.nested with
  | some nested => some { scopes with nested }
  | none =>
    match scopes.outermost.find? name with
    | some _ => some { scopes with outermost := scopes.outermost.bind name value }
    | none => none

theorem find?_push (scopes : Scopes α) (name : String) :
    scopes.push.find? name = scopes.find? name := by
  simp [find?, push, List.findSome?_cons, Scope.find?_nil]

theorem find?_declare (scopes : Scopes α) (name : String) (value : α) (other : String) :
    (scopes.declare name value).find? other =
      if name = other then some value else scopes.find? other := by
  obtain ⟨outermost, nested⟩ := scopes
  cases nested with
  | nil => simp [declare, find?, Scope.find?_bind]
  | cons scope rest =>
    by_cases h : name = other <;>
      simp [declare, find?, List.findSome?_cons, Scope.find?_bind, h]

end Scopes
end CatScript
