import CatScript.Proofs.Arena.Typed
import CatScript.Proofs.Typing.Checking.Statement

/-! # Programs typed in place

On the arena of a text the checker ends without a fault, and leaves the arena that typing the tree
gives (`Arena.validate_total`).  Where the nodes of an arena make no tree it may fail. -/
set_option autoImplicit false
namespace CatScript
open Typing (Typed program_step)

/-- Typing the nodes of the arena in place comes to an end: no place is looked at where no node is,
no node gets a second type and no scope is closed that was not opened.  The arena that is left is
typed, it is the one that typing the tree gives, and the global scope is the only one open. -/
def Arena.TypedInPlace (arena : Arena) : Prop :=
  ∃ last : Checker, Checking.Ends Checking.program ⟨arena, .empty⟩ () last ∧
    arena.TypedAs last.arena ∧ arena.validate = .ok last.arena ∧ last.symbols.scopes.nested = []

namespace Checking
variable {arena : Arena} {place : List Info → List Info}

/-- The functions of a program are registered in place, and those that cannot be are reported. -/
theorem registerAll_ends (body : List (Stmt Info)) (symbols : Symbols)
    {place : List Info → List Info} (hshapes : arena.Shapes (Stmt.rowsAll body))
    (hroom : Room arena place (Stmt.marksAll body)) :
    Ends (fun _ => registerAll (Stmt.ids body))
      ⟨arena.recordAll (place (Stmt.marksAll body)), symbols⟩ ()
      ⟨arena.recordAll (place (Stmt.marksAll (Typing.register symbols body).2)),
        (Typing.register symbols body).1⟩ := by
  induction body generalizing symbols place with
  | nil => exact .pure
  | cons s rest ih =>
    have hrest (symbols : Symbols) {marks : List Info} (hsame : SameNodes marks s.marks) :=
      ih symbols hshapes.right (hroom.right hsame)
    cases s with
    | function info name params returns inner =>
      refine .bind (kindAt_ends hshapes.head) (.bind (.of_ok rfl) ?_)
      refine .bind (reportIf_ends (hroom.left (.refl _)) (.refl _) (.refl _) _ _) ?_
      exact hrest _ (.cons (Info.bare_flagIf _ _ _) (.refl _))
    | returning info value =>
      cases value <;> exact .bind (kindAt_ends hshapes.head) (.bind .pure (hrest _ (.refl _)))
    | bare value =>
      cases value <;> exact .bind (kindAt_ends hshapes.head) (.bind .pure (hrest _ (.refl _)))
    | _ => exact .bind (kindAt_ends hshapes.head) (.bind .pure (hrest _ (.refl _)))

end Checking

section Trees
variable {arena : Arena}

theorem Arena.Shapes.of_same {body others : List (Stmt Info)}
    (h : arena.Shapes (Stmt.rowsAll body))
    (hsame : Stmt.mapAll Info.bare others = Stmt.mapAll Info.bare body) :
    arena.Shapes (Stmt.rowsAll others) := by
  have hbare : ∀ info : Info, info.bare.id = info.id := fun _ => rfl
  have hrows := congrArg Stmt.rowsAll hsame
  rw [Stmt.rowsAll_map hbare, Stmt.rowsAll_map hbare] at hrows
  intro row hrow
  have hmem : Prod.map Info.bare id row ∈ (Stmt.rowsAll body).map (Prod.map Info.bare id) :=
    hrows ▸ List.mem_map_of_mem hrow
  obtain ⟨old, hold, heq⟩ := List.mem_map.1 hmem
  obtain ⟨hinfo, hkind⟩ := Prod.mk.inj heq
  have hid : old.1.bare.id = row.1.bare.id := congrArg Info.id hinfo
  have hthere := h old hold
  rw [show old.1.id = row.1.id from hid, show old.2 = row.2 from hkind] at hthere
  exact hthere

theorem Stmt.ids_of_same {body others : List (Stmt Info)}
    (hsame : Stmt.mapAll Info.bare others = Stmt.mapAll Info.bare body) :
    Stmt.ids others = Stmt.ids body := by
  have hbare : ∀ info : Info, info.bare.id = info.id := fun _ => rfl
  rw [← Stmt.ids_map hbare, hsame, Stmt.ids_map hbare]

theorem Symbols.nested_eq_nil {symbols : Symbols}
    (h : symbols.leave = .error .globalScopePopped) : symbols.scopes.nested = [] := by
  obtain ⟨⟨outermost, nested⟩, functions⟩ := symbols
  cases nested with
  | nil => rfl
  | cons scope rest => cases h

theorem Typing.scopes_register (symbols : Symbols) (body : List (Stmt Info)) :
    (register symbols body).1.scopes = symbols.scopes := by
  induction body generalizing symbols with
  | nil => rfl
  | cons s rest ih =>
    cases s with
    | function info name params returns inner =>
      refine (ih _).trans ?_
      split <;> rfl
    | _ => exact ih symbols

namespace Arena.Holds
open Checking
variable {p q : Program Info} (h : arena.Holds p)
include h

theorem shapes : arena.Shapes p.rows := by
  intro row hrow
  obtain ⟨⟨parent, hnode⟩, -⟩ := h.stands row hrow
  exact ⟨_, hnode, rfl⟩

theorem recordAll_marks : arena.recordAll p.marks = arena := by
  rw [← p.rows_marks]
  exact recordAll_stands h.stands

theorem room : Room arena id p.marks := by
  refine ⟨⟨[], [], fun inner => by simp⟩, ?_, fun info hinfo => ?_⟩
  · rw [id, ← p.rows_marks, List.map_map]
    exact h.distinct
  · rw [id, ← p.rows_marks] at hinfo
    obtain ⟨row, hrow, rfl⟩ := List.mem_map.1 hinfo
    obtain ⟨⟨parent, hnode⟩, -⟩ := h.stands row hrow
    exact ⟨_, hnode, rfl⟩

theorem not_lists_root (hlinks : arena.Tracked []) (parent : NodeId) :
    ¬arena.Lists parent p.mark.id := by
  intro hlists
  obtain ⟨node, hnode, hnone⟩ := h.orphan
  obtain ⟨same, hsame, hparent⟩ := hlinks.taken parent _ hlists
  cases hnode.symm.trans hsame
  cases hnone.symm.trans hparent

/-- The program of an arena is typed in place as the tree is. -/
theorem program_ends (hlinks : arena.Tracked []) (huntyped : Untyped p.marks)
    (htyped : Typing.program (.ok none) p = .ok q) : ∃ symbols : Symbols,
      Ends program ⟨arena, .empty⟩ () ⟨arena.adopt q, symbols⟩ ∧
        symbols.scopes.nested = [] := by
  have hroot : (arena.recordAll p.marks).root = some p.mark.id :=
    (root_foldl_record p.marks arena).trans h.root
  suffices hends : ∃ symbols : Symbols,
      Ends program ⟨arena.recordAll p.marks, .empty⟩ () ⟨arena.adopt q, symbols⟩ ∧
        symbols.scopes.nested = [] by
    rwa [h.recordAll_marks] at hends
  cases program_step htyped with
  | @expression info body value hbody =>
    have hsame := SameNodes.of_expr (Typing.expression_shape body hbody)
    refine ⟨.empty, .bind (.of_ok rfl) ?_, rfl⟩
    dsimp only
    rw [hroot]
    refine .bind (kindAt_ends h.shapes.head) ?_
    refine .bind (expression_ends body _ _ h.shapes.tail huntyped.tail hbody h.room.tail) ?_
    exact settle_ends h.room huntyped.head (.refl _) hsame _
  | @statements info body inner last hbody =>
    have hregistered := Typing.register_shape .empty body
    have hsame := (Typing.statements_shape _ hbody).trans hregistered
    have hwithin : ∀ s ∈ (Typing.register .empty body).2,
        Within arena s.mark.id (.ofProgram (.ok none)) := by
      intro s hs
      refine .ofProgram h.shapes.head (h.not_lists_root hlinks) ?_
      rw [← Stmt.ids_of_same hregistered]
      exact List.mem_map_of_mem hs
    have hleave : last.leave = .error .globalScopePopped := by
      rw [Typing.statements_leave hbody, Symbols.leave, Typing.scopes_register]
      rfl
    refine ⟨last, .bind (.of_ok rfl) ?_, Symbols.nested_eq_nil hleave⟩
    dsimp only
    rw [hroot]
    refine .bind (kindAt_ends h.shapes.head) ?_
    have huntyped' := Typing.Untyped.grown huntyped.tail (Typing.register_grows .empty body)
    have hstatements := statements_end hlinks _ _ _ _ _ _ (h.shapes.tail.of_same hregistered)
      huntyped' hbody (h.room.tail.refill (.of_stmts hregistered)) hwithin
    rw [Stmt.ids_of_same hregistered] at hstatements
    refine .bind (registerAll_ends body .empty h.shapes.tail h.room.tail) (.bind hstatements ?_)
    exact settle_ends h.room huntyped.head (.refl _) (.of_stmts hsame) _

end Arena.Holds
end Trees

section Texts

theorem Arena.ofProgram_typedInPlace {reader : Reader (Program Mark)} {reported : Mark → Prop}
    (hreader : Reader.Yields reader (Program.Whole reported)) (cursor : Cursor) :
    (ofProgram (reader.run cursor).1).TypedInPlace := by
  obtain ⟨landed, hread, hholds, huntyped, hcovers⟩ := holds_ofProgram (reader.run cursor).1
  have hwhole := hreader.run cursor
  rw [← hread] at hwhole
  obtain ⟨typed, htyped, hchecked⟩ := Typing.program_total huntyped (landed.whole_of_map hwhole)
  obtain ⟨symbols, hends, hscopes⟩ :=
    hholds.program_ends (tracked_ofProgram _) huntyped htyped
  have htypedAs := hholds.typedAs (Typing.program_shape htyped) hchecked hcovers
  refine ⟨_, hends, htypedAs, ?_, hscopes⟩
  rw [hholds.validate_eq, htyped]
  rfl

/-- Typing the tree of a text in place is no fault, whether the text is read as a program or as one
expression. -/
theorem Arena.validate_total (source : String) :
    (parse source).TypedInPlace ∧ (parseExpression source).TypedInPlace := by
  constructor
  · exact ofProgram_typedInPlace Grammar.whole_program _
  · exact ofProgram_typedInPlace Grammar.whole_expressionProgram _

-- What no text makes: a child that is missing, a node that is listed twice, a scope too many that
-- is closed.
example : Checking.program 4 ⟨⟨#[⟨.print 5, ⟨0, 8, 1, 0⟩, some 1, [], none⟩,
    ⟨.statementProgram [0], ⟨0, 8, 1, 0⟩, none, [], none⟩], some 1⟩, .empty⟩ =
      some (.error (.outOfRange 2 5)) := rfl

example : Checking.program 6 ⟨⟨#[⟨.null, ⟨1, 5, 1, 1⟩, some 1, [], none⟩,
    ⟨.list [0, 0], ⟨0, 6, 1, 0⟩, some 2, [], none⟩,
    ⟨.expressionProgram 1, ⟨0, 6, 1, 0⟩, none, [], none⟩], some 2⟩, .empty⟩ =
      some (.error (.typeSetTwice 0)) := rfl

example : Checking.leave ⟨.empty, .empty⟩ = some (.error .globalScopePopped) := rfl

end Texts
end CatScript
