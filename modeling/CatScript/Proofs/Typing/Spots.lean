import CatScript.Proofs.Arena.Rows
import CatScript.Proofs.Scope

/-! # Spots in a program

A spot is known by the lists of statements around it: which names each of them starts with, and
which of its statements stand before the spot.  From this alone, without any table of symbols, it
is told which declarations are visible at the spot and to which of them a name refers.  Every node
of a program but its root has a spot (`Program.has_of_mem`). -/
set_option autoImplicit false
namespace CatScript

/-- A list of statements around a spot: the names that are bound at its start, with their types,
and the statements of the list before the spot. -/
structure Stretch where
  bound : List (String × Option Ty)
  before : List (Stmt Info)

/-- The lists of statements around a spot, the innermost first. -/
abbrev Spot := List Stretch

namespace Stmt

def declares : Stmt Info → List (String × Option Ty)
  | .declaration info name _ _ => [(name, info.ty)]
  | _ => []

/-- The expressions that a statement evaluates where it stands, before its blocks. -/
def values : Stmt Info → List (Expr Info)
  | .declaration _ _ _ value | .assignment _ _ value | .ifThen _ value _ | .ifThenElse _ value _ _
  | .loop _ _ value _ | .print _ value | .call _ value | .returning _ (some value)
  | .bare value => [value]
  | .function .. | .returning _ none | .broken .. => []

/-- The blocks of a statement, with the names that are bound at their start: parameters in the body
of a function, the variable of a loop in its body. -/
def blocks : Stmt Info → List (List (String × Option Ty) × List (Stmt Info))
  | .function _ _ params _ body => [(params.map fun param => (param.name, some param.ty), body)]
  | .ifThen _ _ thenBody => [([], thenBody)]
  | .ifThenElse _ _ thenBody elseBody => [([], thenBody), ([], elseBody)]
  | .loop info name _ body => [([(name, info.ty)], body)]
  | _ => []

variable {s : Stmt Info} {body : List (Stmt Info)}

theorem blocks_ifThenElse {info : Info} {condition : Expr Info}
    {thenBody elseBody : List (Stmt Info)} {bound : List (String × Option Ty)}
    (h : (bound, body) ∈ (ifThenElse info condition thenBody elseBody).blocks) :
    bound = [] ∧ (body = thenBody ∨ body = elseBody) := by
  rcases List.mem_cons.1 h with heq | h
  · cases heq
    exact ⟨rfl, .inl rfl⟩
  · cases List.mem_singleton.1 h
    exact ⟨rfl, .inr rfl⟩

theorem rows_subset (hs : s ∈ body) : s.rows ⊆ rowsAll body := by
  induction body with
  | nil => cases hs
  | cons first rest ih =>
    rw [rowsAll]
    rcases List.mem_cons.1 hs with rfl | hs
    · exact List.subset_append_left _ _
    · exact List.subset_append_of_subset_right _ (ih hs)

theorem rows_values {e : Expr Info} (he : e ∈ s.values) : e.rows ⊆ s.rows := by
  cases s with
  | function | broken => cases he
  | returning info value =>
    cases value with
    | none => cases he
    | some value =>
      cases List.mem_singleton.1 he
      exact List.subset_cons_self _ _
  | declaration | assignment | print | call =>
    cases List.mem_singleton.1 he
    exact List.subset_cons_self _ _
  | ifThen | loop =>
    cases List.mem_singleton.1 he
    exact fun row hrow => List.mem_cons_of_mem _ (List.mem_append_left _ hrow)
  | ifThenElse =>
    cases List.mem_singleton.1 he
    exact fun row hrow =>
      List.mem_cons_of_mem _ (List.mem_append_left _ (List.mem_append_left _ hrow))
  | bare =>
    cases List.mem_singleton.1 he
    exact List.Subset.refl _

theorem rows_blocks {bound : List (String × Option Ty)} (h : (bound, body) ∈ s.blocks) :
    rowsAll body ⊆ s.rows := by
  cases s with
  | function =>
    cases List.mem_singleton.1 h
    exact List.subset_cons_self _ _
  | ifThen | loop =>
    cases List.mem_singleton.1 h
    exact fun row hrow => List.mem_cons_of_mem _ (List.mem_append_right _ hrow)
  | ifThenElse info condition thenBody elseBody =>
    obtain ⟨rfl, rfl | rfl⟩ := blocks_ifThenElse h
    · exact fun row hrow =>
        List.mem_cons_of_mem _ (List.mem_append_left _ (List.mem_append_right _ hrow))
    · exact fun row hrow => List.mem_cons_of_mem _ (List.mem_append_right _ hrow)
  | _ => cases h

end Stmt

def Stretch.declared (stretch : Stretch) : List (String × Option Ty) :=
  stretch.bound ++ stretch.before.flatMap Stmt.declares

theorem Stretch.declared_append (bound : List (String × Option Ty)) (before : List (Stmt Info))
    (s : Stmt Info) : Stretch.declared ⟨bound, before ++ [s]⟩ =
      Stretch.declared ⟨bound, before⟩ ++ s.declares := by
  simp [Stretch.declared]

def Stretch.names (stretch : Stretch) : List String :=
  stretch.declared.map Prod.fst

namespace Spot

def Visible (spot : Spot) (name : String) : Prop :=
  ∃ stretch ∈ spot, name ∈ stretch.names

def DeclaredHere (spot : Spot) (name : String) : Prop :=
  ∃ stretch rest, spot = stretch :: rest ∧ name ∈ stretch.names

/-- At the spot the name refers to a declaration of the type: the earliest one of the innermost
list that has one. -/
inductive Refers (name : String) (ty : Option Ty) : Spot → Prop where
  | here {stretch : Stretch} {rest : Spot} {earlier later : List (String × Option Ty)} :
    stretch.declared = earlier ++ (name, ty) :: later → name ∉ earlier.map Prod.fst →
    Refers name ty (stretch :: rest)
  | outside {stretch : Stretch} {rest : Spot} :
    name ∉ stretch.names → Refers name ty rest → Refers name ty (stretch :: rest)

end Spot

namespace Program

inductive Stands (p : Program Info) : Spot → Stmt Info → Prop where
  | top {mark : Info} {before after : List (Stmt Info)} {s : Stmt Info} :
    p = .statements mark (before ++ s :: after) → Stands p [⟨[], before⟩] s
  | inside {spot : Spot} {around s : Stmt Info} {bound : List (String × Option Ty)}
    {before after : List (Stmt Info)} :
    Stands p spot around → (bound, before ++ s :: after) ∈ around.blocks →
    Stands p (⟨bound, before⟩ :: spot) s

/-- The node has the spot in the program: it is a statement that stands there, or a part of an
expression of one.  Nothing is around the expression that a program consists of. -/
inductive Has (p : Program Info) : Spot → Row → Prop where
  | alone {mark : Info} {body : Expr Info} {row : Row} :
    p = .expression mark body → row ∈ body.rows → Has p [⟨[], []⟩] row
  | statement {spot : Spot} {s : Stmt Info} {row : Row} :
    p.Stands spot s → s.rows.head? = some row → Has p spot row
  | part {spot : Spot} {s : Stmt Info} {e : Expr Info} {row : Row} :
    p.Stands spot s → e ∈ s.values → row ∈ e.rows → Has p spot row

variable {p : Program Info}

theorem Stands.rows_subset {spot : Spot} {s : Stmt Info} (h : p.Stands spot s) :
    s.rows ⊆ p.rows := by
  induction h with
  | @top mark before after s heq =>
    subst heq
    have hmem : s ∈ before ++ s :: after := List.mem_append_right _ List.mem_cons_self
    exact List.subset_cons_of_subset _ (Stmt.rows_subset hmem)
  | @inside spot around s bound before after _ hblock ih =>
    have hmem : s ∈ before ++ s :: after := List.mem_append_right _ List.mem_cons_self
    exact List.Subset.trans (Stmt.rows_subset hmem) (List.Subset.trans (Stmt.rows_blocks hblock) ih)

theorem exists_stands {mark : Info} {body : List (Stmt Info)} (hp : p = .statements mark body) :
    ∀ s ∈ body, ∃ spot, p.Stands spot s := by
  intro s hs
  obtain ⟨before, after, rfl⟩ := List.append_of_mem hs
  exact ⟨_, .top hp⟩

theorem Stands.block {spot : Spot} {around : Stmt Info} {body : List (Stmt Info)}
    (h : p.Stands spot around) (hbody : body ∈ around.blocks.map Prod.snd) :
    ∀ s ∈ body, ∃ spot, p.Stands spot s := by
  intro s hs
  obtain ⟨before, after, rfl⟩ := List.append_of_mem hs
  obtain ⟨⟨bound, _⟩, hblock, rfl⟩ := List.mem_map.1 hbody
  exact ⟨⟨bound, before⟩ :: spot, .inside h hblock⟩

mutual

theorem has_of_mem_rows : (s : Stmt Info) → {spot : Spot} → p.Stands spot s →
    ∀ row ∈ s.rows, ∃ spot, p.Has spot row
  | .declaration .., spot, h, row, hrow | .assignment .., spot, h, row, hrow
  | .print .., spot, h, row, hrow | .call .., spot, h, row, hrow
  | .returning _ (some _), spot, h, row, hrow => by
    rcases List.mem_cons.1 hrow with rfl | hrow
    · exact ⟨spot, .statement h rfl⟩
    · exact ⟨spot, .part h List.mem_cons_self hrow⟩
  | .bare _, spot, h, row, hrow => ⟨spot, .part h List.mem_cons_self hrow⟩
  | .broken .., spot, h, row, hrow | .returning _ none, spot, h, row, hrow => by
    cases List.mem_singleton.1 hrow
    exact ⟨spot, .statement h rfl⟩
  | .function _ _ _ _ body, spot, h, row, hrow => by
    rcases List.mem_cons.1 hrow with rfl | hrow
    · exact ⟨spot, .statement h rfl⟩
    · exact has_of_mem_rowsAll body (h.block List.mem_cons_self) row hrow
  | .ifThen _ _ body, spot, h, row, hrow | .loop _ _ _ body, spot, h, row, hrow => by
    rcases List.mem_cons.1 hrow with rfl | hrow
    · exact ⟨spot, .statement h rfl⟩
    · rcases List.mem_append.1 hrow with hrow | hrow
      · exact ⟨spot, .part h List.mem_cons_self hrow⟩
      · exact has_of_mem_rowsAll body (h.block List.mem_cons_self) row hrow
  | .ifThenElse _ _ thenBody elseBody, spot, h, row, hrow => by
    rcases List.mem_cons.1 hrow with rfl | hrow
    · exact ⟨spot, .statement h rfl⟩
    · rcases List.mem_append.1 hrow with hrow | hrow
      · rcases List.mem_append.1 hrow with hrow | hrow
        · exact ⟨spot, .part h List.mem_cons_self hrow⟩
        · exact has_of_mem_rowsAll thenBody (h.block List.mem_cons_self) row hrow
      · have hblock : elseBody ∈ [thenBody, elseBody] := List.mem_cons_of_mem _ List.mem_cons_self
        exact has_of_mem_rowsAll elseBody (h.block hblock) row hrow

theorem has_of_mem_rowsAll : (body : List (Stmt Info)) →
    (∀ s ∈ body, ∃ spot, p.Stands spot s) → ∀ row ∈ Stmt.rowsAll body, ∃ spot, p.Has spot row
  | [], _, _, hrow => nomatch hrow
  | s :: rest, h, row, hrow => by
    obtain ⟨⟨spot, hs⟩, hrest⟩ := List.forall_mem_cons.1 h
    rcases List.mem_append.1 hrow with hrow | hrow
    · exact has_of_mem_rows s hs row hrow
    · exact has_of_mem_rowsAll rest hrest row hrow

end

/-- Every node of a program but its root has a spot. -/
theorem has_of_mem : ∀ row ∈ p.rows.tail, ∃ spot, p.Has spot row := by
  intro row hrow
  cases hp : p with
  | expression mark body =>
    rw [hp] at hrow
    exact ⟨_, .alone rfl hrow⟩
  | statements mark body =>
    rw [hp] at hrow
    exact has_of_mem_rowsAll body (exists_stands rfl) row hrow

theorem has_of_isProgram {row : Row} (hrow : row ∈ p.rows) (hkind : row.2.isProgram = false) :
    ∃ spot, p.Has spot row := by
  cases p with
  | expression mark body | statements mark body =>
    rcases List.mem_cons.1 hrow with rfl | hrow
    · cases hkind
    · exact has_of_mem row hrow

end Program

namespace Spot

/-- What a name refers to at the spot, found by looking through the lists around it. -/
def find? (spot : Spot) (name : String) : Option (Option Ty) :=
  (spot.map Stretch.declared).findSome? (Scope.find? · name)

variable {spot : Spot} {stretch : Stretch} {name : String} {ty : Option Ty}

theorem find?_cons (stretch : Stretch) (spot : Spot) (name : String) :
    find? (stretch :: spot) name = (Scope.find? stretch.declared name).or (spot.find? name) := by
  rw [find?, List.map_cons, List.findSome?_cons]
  cases Scope.find? stretch.declared name <;> rfl

/-- Looking through the lists finds what a name refers to. -/
theorem refers_iff : spot.Refers name ty ↔ spot.find? name = some ty := by
  constructor
  · intro h
    induction h with
    | here hdeclared hearlier =>
      rw [find?_cons, Scope.find?_eq_some_iff.2 ⟨_, _, hdeclared, hearlier⟩]
      rfl
    | outside hnames _ ih =>
      rw [find?_cons, Scope.find?_eq_none_iff.2 hnames]
      exact ih
  · intro h
    induction spot with
    | nil => cases h
    | cons stretch spot ih =>
      rw [find?_cons] at h
      cases hfind : Scope.find? stretch.declared name with
      | none =>
        rw [hfind] at h
        exact .outside (Scope.find?_eq_none_iff.1 hfind) (ih h)
      | some found =>
        rw [hfind] at h
        cases h
        obtain ⟨earlier, later, hdeclared, hearlier⟩ := Scope.find?_eq_some_iff.1 hfind
        exact .here hdeclared hearlier

theorem not_visible_iff : ¬spot.Visible name ↔ spot.find? name = none := by
  induction spot with
  | nil => exact iff_of_true (fun ⟨_, hstretch, _⟩ => nomatch hstretch) rfl
  | cons stretch spot ih =>
    rw [find?_cons, Option.or_eq_none_iff, Scope.find?_eq_none_iff, ← ih, ← not_or]
    refine not_congr ⟨?_, ?_⟩
    · rintro ⟨other, hother, hname⟩
      rcases List.mem_cons.1 hother with rfl | hother
      · exact .inl hname
      · exact .inr ⟨other, hother, hname⟩
    · rintro (hname | ⟨other, hother, hname⟩)
      · exact ⟨stretch, List.mem_cons_self, hname⟩
      · exact ⟨other, List.mem_cons_of_mem _ hother, hname⟩

end Spot
end CatScript
