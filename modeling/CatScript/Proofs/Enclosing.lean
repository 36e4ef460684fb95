import CatScript.Proofs.Arena.Links
import CatScript.Proofs.Arena.Typed
import CatScript.Proofs.Typing.Paths
import CatScript.Proofs.Typing.Spots

/-! # The function around a `return`

A reader takes `return` for a statement inside of functions alone, so a `return` that stands in a
tree has a function around it, however badly the text is formed.  The arena finds that function on
the way up from the `return`, and the statements of a program are never left by one
(`Arena.returns_enclosed`). -/
set_option autoImplicit false
namespace CatScript

variable {α β : Type}

mutual

/-- Every `return` in the statement stands in a function: in one around the statement, if there is
one, or in one inside. -/
def Stmt.Guarded (inFunction : Bool) : Stmt α → Prop
  | .function _ _ _ _ body => Stmt.GuardedAll true body
  | .ifThen _ _ body | .loop _ _ _ body => Stmt.GuardedAll inFunction body
  | .ifThenElse _ _ thenBody elseBody =>
    Stmt.GuardedAll inFunction thenBody ∧ Stmt.GuardedAll inFunction elseBody
  | .returning _ _ => inFunction = true
  | .declaration .. | .assignment .. | .print .. | .call .. | .broken .. | .bare _ => True

def Stmt.GuardedAll (inFunction : Bool) : List (Stmt α) → Prop
  | [] => True
  | s :: rest => s.Guarded inFunction ∧ Stmt.GuardedAll inFunction rest

end

def Program.Guarded : Program α → Prop
  | .expression _ _ => True
  | .statements _ body => Stmt.GuardedAll false body

theorem Stmt.GuardedAll.of_mem {inFunction : Bool} {body : List (Stmt α)} {s : Stmt α}
    (h : GuardedAll inFunction body) (hs : s ∈ body) : s.Guarded inFunction := by
  induction body with
  | nil => cases hs
  | cons first rest ih =>
    simp only [GuardedAll] at h
    rcases List.mem_cons.1 hs with rfl | hs
    · exact h.1
    · exact ih h.2 hs

section Trees

mutual

/-- Only the shape of a tree matters for where its `return`s stand. -/
theorem Stmt.guarded_map (f : α → β) {inFunction : Bool} : (s : Stmt α) →
    ((s.map f).Guarded inFunction ↔ s.Guarded inFunction)
  | .function _ _ _ _ body | .ifThen _ _ body | .loop _ _ _ body => by
    simp only [Stmt.map, Stmt.Guarded, Stmt.guardedAll_map f body]
  | .ifThenElse _ _ thenBody elseBody => by
    simp only [Stmt.map, Stmt.Guarded, Stmt.guardedAll_map f thenBody,
      Stmt.guardedAll_map f elseBody]
  | .returning _ none | .returning _ (some _) => by simp only [Stmt.map, Stmt.Guarded]
  | .declaration .. | .assignment .. | .print .. | .call .. | .broken .. | .bare _ => by
    simp only [Stmt.map, Stmt.Guarded]

theorem Stmt.guardedAll_map (f : α → β) {inFunction : Bool} : (body : List (Stmt α)) →
    (Stmt.GuardedAll inFunction (Stmt.mapAll f body) ↔ Stmt.GuardedAll inFunction body)
  | [] => by simp only [Stmt.mapAll, Stmt.GuardedAll]
  | s :: rest => by
    simp only [Stmt.mapAll, Stmt.GuardedAll, Stmt.guarded_map f s, Stmt.guardedAll_map f rest]

end

theorem Program.guarded_map (f : α → β) (p : Program α) : (p.map f).Guarded ↔ p.Guarded := by
  cases p with
  | expression mark body => exact Iff.rfl
  | statements mark body => exact Stmt.guardedAll_map f body

variable {reported : α → Prop}

mutual

theorem Stmt.guarded_of_whole {inFunction : Bool} : (s : Stmt α) →
    s.Whole reported inFunction → s.Guarded inFunction
  | .function _ _ _ _ body, h => by
    simp only [Stmt.Whole, Stmt.Guarded] at h ⊢
    exact Stmt.guardedAll_of_whole body h.2.2
  | .ifThen _ _ body, h | .loop _ _ _ body, h => by
    simp only [Stmt.Whole, Stmt.Guarded] at h ⊢
    exact Stmt.guardedAll_of_whole body h.2
  | .ifThenElse _ _ thenBody elseBody, h => by
    simp only [Stmt.Whole, Stmt.Guarded] at h ⊢
    exact ⟨Stmt.guardedAll_of_whole thenBody h.2.1, Stmt.guardedAll_of_whole elseBody h.2.2⟩
  | .returning _ none, h => by
    simp only [Stmt.Whole, Stmt.Guarded] at h ⊢
    exact h
  | .returning _ (some _), h => by
    simp only [Stmt.Whole, Stmt.Guarded] at h ⊢
    exact h.1
  | .declaration .., _ | .assignment .., _ | .print .., _ | .call .., _ | .broken .., _
  | .bare _, _ => by simp only [Stmt.Guarded]

theorem Stmt.guardedAll_of_whole {inFunction : Bool} : (body : List (Stmt α)) →
    Stmt.WholeAll reported inFunction body → Stmt.GuardedAll inFunction body
  | [], _ => by simp only [Stmt.GuardedAll]
  | s :: rest, h => by
    simp only [Stmt.WholeAll, Stmt.GuardedAll] at h ⊢
    exact ⟨Stmt.guarded_of_whole s h.1, Stmt.guardedAll_of_whole rest h.2⟩

end

theorem Program.guarded_of_whole (p : Program α) (h : p.Whole reported) : p.Guarded := by
  cases p with
  | expression mark body => trivial
  | statements mark body => exact Stmt.guardedAll_of_whole body h

mutual

/-- Outside of functions no path returns. -/
theorem Stmt.Path.through_of_guarded : {s : Stmt α} → {exit : Exit} → Stmt.Path s exit →
    s.Guarded false → exit = .through
  | _, _, .plain _, _ | _, _, .skipped, _ | _, _, .done, _ => rfl
  | _, _, .returning, h => by
    simp only [Stmt.Guarded] at h
    cases h
  | _, _, .taken hbody, h => by
    simp only [Stmt.Guarded] at h
    exact hbody.through_of_guarded h
  | _, _, .first hbody, h => by
    simp only [Stmt.Guarded] at h
    exact hbody.through_of_guarded h.1
  | _, _, .second hbody, h => by
    simp only [Stmt.Guarded] at h
    exact hbody.through_of_guarded h.2
  | _, _, .round _ hrest, h => hrest.through_of_guarded h
  | _, _, .broken hbody, h => by
    simp only [Stmt.Guarded] at h
    exact hbody.through_of_guarded h

theorem Stmt.Paths.through_of_guarded : {body : List (Stmt α)} → {exit : Exit} →
    Stmt.Paths body exit → Stmt.GuardedAll false body → exit = .through
  | _, _, .nil, _ => rfl
  | _, _, .next _ hrest, h => by
    simp only [Stmt.GuardedAll] at h
    exact hrest.through_of_guarded h.2
  | _, _, .stop hs, h => by
    simp only [Stmt.GuardedAll] at h
    exact hs.through_of_guarded h.1

end

end Trees

/-- Statements without a `return` of their own come to their end or fail. -/
theorem Evaluation.statements_through {body : List (Stmt Info)} (h : Stmt.GuardedAll false body)
    (functions : Scope Definition) (invoke : Invoke Eval) (rule : LoopRule) (store : Store) :
    (∃ after, statements functions invoke rule body store = .ok .normal after) ∨
      ∃ cause after, statements functions invoke rule body store = .error cause after := by
  cases hrun : statements functions invoke rule body store with
  | error cause after => exact .inr ⟨cause, after, rfl⟩
  | ok flow after =>
    have hpath := statements_path functions invoke rule body store flow after hrun
    have hexit := hpath.through_of_guarded h
    cases flow with
    | normal => exact .inl ⟨after, rfl⟩
    | returned value => cases hexit

namespace Arena
variable {arena : Arena}

theorem Around.up (h : Tracked arena []) {parent child : NodeId} (hlists : arena.Lists parent child)
    (haround : arena.Around child none) : arena.Around parent none ∧
      ∀ node, arena.nodes[parent]? = some node →
        ∀ name params returns body, node.kind ≠ .function name params returns body := by
  cases haround with
  | nothing hnothing => exact absurd hlists (hnothing parent)
  | @above _ other node _ hother hnode hkind habove =>
    obtain ⟨_, htaken, hparent⟩ := h.taken parent child hlists
    obtain ⟨_, htaken', hother⟩ := h.taken other child hother
    cases htaken.symm.trans htaken'
    cases hparent.symm.trans hother
    refine ⟨habove, fun same hsame => ?_⟩
    cases hnode.symm.trans hsame
    exact hkind

end Arena

section Rows

theorem Expr.not_returning {value : Option NodeId} (e : Expr Info) :
    ∀ row ∈ e.rows, row.2 ≠ .returning value := by
  intro row hrow heq
  have hkind := e.isExpression_of_mem row hrow
  rw [heq] at hkind
  cases hkind

/-- A block belongs to the node of its statement.  Its `return`s stand in the functions around the
statement, or the statement is a function itself. -/
theorem Stmt.block_rows {s : Stmt Info} {bound : List (String × Option Ty)}
    {body : List (Stmt Info)} (h : (bound, body) ∈ s.blocks) : ∃ kind, (s.mark, kind) ∈ s.rows ∧
      (∀ inner ∈ body, inner.mark.id ∈ kind.children) ∧
      ∀ inFunction, s.Guarded inFunction → Stmt.GuardedAll inFunction body ∨
        Stmt.GuardedAll true body ∧
          ∃ name params returns ids, kind = .function name params returns ids := by
  have hids : ∀ inner ∈ body, inner.mark.id ∈ Stmt.ids body :=
    fun inner hinner => List.mem_map_of_mem hinner
  cases s with
  | function info name params returns statements =>
    cases List.mem_singleton.1 h
    refine ⟨_, List.mem_cons_self, hids, fun _ hguarded => ?_⟩
    simp only [Stmt.Guarded] at hguarded
    exact .inr ⟨hguarded, _, _, _, _, rfl⟩
  | ifThen info condition statements | loop info name condition statements =>
    cases List.mem_singleton.1 h
    refine ⟨_, List.mem_cons_self, fun inner hinner => List.mem_cons_of_mem _ (hids inner hinner),
      fun _ hguarded => ?_⟩
    simp only [Stmt.Guarded] at hguarded
    exact .inl hguarded
  | ifThenElse info condition thenBody elseBody =>
    obtain ⟨-, hbody⟩ := blocks_ifThenElse h
    refine ⟨_, List.mem_cons_self, fun inner hinner => ?_, fun _ hguarded => ?_⟩
    · refine List.mem_cons_of_mem _ ?_
      rcases hbody with rfl | rfl
      · exact List.mem_append_left _ (hids inner hinner)
      · exact List.mem_append_right _ (hids inner hinner)
    · simp only [Stmt.Guarded] at hguarded
      rcases hbody with rfl | rfl
      · exact .inl hguarded.1
      · exact .inl hguarded.2
  | _ => cases h

end Rows

namespace Arena
variable {arena : Arena} {p : Program Info}

theorem Holds.enclosed (h : arena.Holds p) (hlinks : Tracked arena []) (hp : p.Guarded)
    {spot : Spot} {s : Stmt Info} (hs : p.Stands spot s) :
    ∃ inFunction, s.Guarded inFunction ∧
      (inFunction = true → ¬arena.Around s.mark.id none) := by
  induction hs with
  | @top mark before after s heq =>
    subst heq
    exact ⟨false, hp.of_mem (List.mem_append_right _ List.mem_cons_self), nofun⟩
  | @inside spot around s bound before after hstands hblock ih =>
    obtain ⟨inFunction, hguarded, haround⟩ := ih
    obtain ⟨kind, hrow, hchildren, hinside⟩ := Stmt.block_rows hblock
    have hmem : s ∈ before ++ s :: after := List.mem_append_right _ List.mem_cons_self
    obtain ⟨parent, hnode⟩ := (h.stands _ (hstands.rows_subset hrow)).node
    have hlists : arena.Lists around.mark.id s.mark.id := ⟨_, hnode, hchildren s hmem⟩
    rcases hinside inFunction hguarded with hguards | ⟨hguards, name, params, returns, ids, hkind⟩
    · refine ⟨inFunction, hguards.of_mem hmem, fun hin hnone => haround hin ?_⟩
      exact (Around.up hlinks hlists hnone).1
    · refine ⟨true, hguards.of_mem hmem, fun _ hnone => ?_⟩
      exact (Around.up hlinks hlists hnone).2 _ hnode name params returns ids hkind

/-- The way up from a `return` comes to a function. -/
theorem Holds.returning_enclosed (h : arena.Holds p) (hlinks : Tracked arena []) (hp : p.Guarded)
    {row : Row} (hrow : row ∈ p.rows) {value : Option NodeId} (hkind : row.2 = .returning value) :
    ¬arena.Around row.1.id none := by
  obtain ⟨spot, hspot⟩ := Program.has_of_isProgram hrow (by rw [hkind]; rfl)
  cases hspot with
  | alone _ hmem | part _ _ hmem => exact absurd hkind (Expr.not_returning _ row hmem)
  | @statement _ s _ hs hhead =>
    obtain ⟨inFunction, hguarded, haround⟩ := h.enclosed hlinks hp hs
    cases s with
    | returning info value =>
      have hmark : row.1 = info := by
        cases value <;> exact congrArg Prod.fst (Option.some.inj hhead).symm
      simp only [Stmt.Guarded] at hguarded
      rw [hmark]
      exact haround hguarded
    | bare e =>
      have hmem : row ∈ e.rows := List.mem_of_mem_head? hhead
      exact absurd hkind (Expr.not_returning e row hmem)
    | _ =>
      cases hhead
      cases hkind

/-- Each `return` of a text, well formed or not, has a function around it, which the arena finds.
So the statements of a program come to their end or fail, whether they have been typed or not. -/
theorem returns_enclosed (source : String) :
    (∀ (id : Nat) (node : Node) (value : Option NodeId), (parse source).nodes[id]? = some node →
      node.kind = .returning value → ∃ found,
        (parse source).enclosingFunction id = .ok (some found) ∧
          (parse source).Around id (some found)) ∧
    ∀ arena, (arena = parse source ∨ (parse source).validate = .ok arena) →
      ∀ info body, arena.program? = .ok (some (.statements info body)) →
        ∀ functions (invoke : Invoke Eval) rule store,
          (∃ after, Evaluation.statements functions invoke rule body store = .ok .normal after) ∨
            ∃ cause after,
              Evaluation.statements functions invoke rule body store = .error cause after := by
  obtain ⟨landed, hlanded, hholds, -, hcovers⟩ := holds_ofProgram (Grammar.parse source)
  have hguarded : landed.Guarded := by
    rw [← Program.guarded_map Info.read, hlanded]
    exact Program.guarded_of_whole _ (Grammar.whole_parse source)
  have hlinks : Tracked (parse source) [] := tracked_ofProgram (Grammar.parse source)
  refine ⟨fun id node value hnode hkind => ?_, fun arena harena info body hp functions invoke rule
    store => Evaluation.statements_through ?_ functions invoke rule store⟩
  · obtain ⟨row, hrow, rfl⟩ := hcovers id (Array.getElem?_eq_some_iff.1 hnode).1
    obtain ⟨parent, hrownode⟩ := (hholds.stands row hrow).node
    cases hnode.symm.trans hrownode
    have hnone := hholds.returning_enclosed hlinks hguarded hrow hkind
    obtain ⟨found, hfound, haround⟩ := hlinks.enclosingFunction hnode
    cases found with
    | none => exact absurd haround hnone
    | some found => exact ⟨found, hfound, haround⟩
  · rcases harena with rfl | hvalidate
    · cases hholds.program?.symm.trans hp
      exact hguarded
    · obtain ⟨typed, htyped, htypedHolds⟩ := hholds.validate hvalidate
      cases htypedHolds.program?.symm.trans hp
      have hshape := Typing.program_shape htyped
      rw [← Program.guarded_map Info.bare, ← hshape, Program.guarded_map] at hguarded
      exact hguarded

/-- A text that breaks off in the middle of a function: the `return` at place 2 stands in the
function at place 4. -/
theorem returns_enclosed_unclosed : ∃ node,
    (parse "function f() \x7b if (x) \x7b return 1").nodes[2]? = some node ∧
      node.kind = .returning (some 1) ∧
      (parse "function f() \x7b if (x) \x7b return 1").enclosingFunction 2 = .ok (some 4) ∧
      (parse "function f() \x7b if (x) \x7b return 1").Around 2 (some 4) := by
  have hkind : (parse "function f() \x7b if (x) \x7b return 1").nodes[2]?.map Node.kind =
      some (.returning (some 1)) := by decide +kernel
  have hfunction : (parse "function f() \x7b if (x) \x7b return 1").enclosingFunction 2 =
      .ok (some 4) := by decide +kernel
  obtain ⟨node, hnode, hkind⟩ := Option.map_eq_some_iff.1 hkind
  obtain ⟨found, hfound, haround⟩ := (returns_enclosed _).1 2 node (some 1) hnode hkind
  cases hfunction.symm.trans hfound
  exact ⟨node, hnode, hkind, hfunction, haround⟩

end Arena
end CatScript
