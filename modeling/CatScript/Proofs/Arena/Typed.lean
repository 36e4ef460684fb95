import CatScript.Arena.Validate
import CatScript.Proofs.Arena.Holding
import CatScript.Proofs.Grammar.Whole
import CatScript.Proofs.Typing.Totality

/-! # Typing an arena

The arena of a text is typed without a fault (`Arena.ofProgram_validate`): every node gets a type
but the expressions that could not be read, and nothing else about the nodes changes but that
problems are added at the end. -/
set_option autoImplicit false
namespace CatScript

/-- What typing makes of an arena. -/
structure Arena.TypedAs (arena typed : Arena) : Prop where
  root : typed.root = arena.root
  size : typed.size = arena.size
  nodes : ∀ (id : Nat) (node : Node), arena.nodes[id]? = some node →
    ∃ now : Node, typed.nodes[id]? = some now ∧ now.kind = node.kind ∧ now.span = node.span ∧
      now.parent = node.parent ∧ node.errors <+: now.errors ∧
      (now.ty = none ↔ ∃ text, node.kind = .brokenExpression text)

namespace Arena.Holds
variable {arena : Arena} {p : Program Info} (h : arena.Holds p)
include h

theorem validate_eq :
    arena.validate = Typing.program (.ok none) p >>= fun typed => pure (arena.adopt typed) := by
  rw [Arena.validate, h.root, h.program?]
  show Typing.program (arena.returnTypeAround p.mark.id) p >>= _ = _
  rw [h.returnTypeAround]

theorem validate {typed : Arena} (hvalidate : arena.validate = .ok typed) : ∃ q,
    Typing.program (.ok none) p = .ok q ∧ typed.Holds q := by
  rw [h.validate_eq] at hvalidate
  obtain ⟨q, hq, hadopt⟩ := Except.bind_ok hvalidate
  cases hadopt
  exact ⟨q, hq, h.adopt (Typing.program_shape hq)⟩

/-- An arena that holds a checked program is the arena of the program as it was, typed. -/
theorem typedAs {q : Program Info} (hshape : q.map Info.bare = p.map Info.bare)
    (hchecked : CheckedAll p.marks q.rows)
    (hcovers : ∀ id : Nat, id < arena.size → ∃ row ∈ p.rows, row.1.id = id) :
    arena.TypedAs (arena.adopt q) := by
  have hadopted := h.adopt hshape
  refine ⟨root_foldl_record _ _, size_foldl_record _ _, ?_⟩
  intro id node hnode
  obtain ⟨row, hrow, rfl⟩ := hcovers id (Array.getElem?_eq_some_iff.1 hnode).1
  obtain ⟨⟨parent, hstands⟩, -⟩ := h.stands row hrow
  obtain ⟨now, hnow, hid, herrors, hty⟩ :=
    hchecked.row_of_mem (p.rows_marks ▸ List.mem_map_of_mem hrow)
  obtain ⟨⟨later, hlater⟩, -⟩ := hadopted.stands now hnow
  -- the node is what it was, with the errors and the type of the mark in its place
  have hdistinct : (q.marks.map Info.id).Nodup := by
    rw [← q.rows_marks, List.map_map]
    exact hadopted.distinct
  have hmark : now.1 ∈ q.marks := q.rows_marks ▸ List.mem_map_of_mem hnow
  have hrecord := foldl_record hdistinct hmark (hid ▸ hnode)
  have hkind : node.kind = now.2 :=
    congrArg Node.kind (Option.some.inj (hrecord.symm.trans hlater))
  have hold : node.errors = row.1.errors :=
    congrArg Node.errors (Option.some.inj (hnode.symm.trans hstands))
  rw [← hid, hkind, hold]
  exact ⟨_, hrecord, hkind, rfl, rfl, herrors, hty⟩

end Arena.Holds

/-- Typing is no fault on the tree that a reader gives, if the tree is whole. -/
theorem Arena.ofProgram_validate {reader : Reader (Program Mark)} {reported : Mark → Prop}
    (hreader : Reader.Yields reader (Program.Whole reported)) (cursor : Cursor) :
    ∃ typed, (ofProgram (reader.run cursor).1).validate = .ok typed ∧
      (ofProgram (reader.run cursor).1).TypedAs typed := by
  obtain ⟨landed, hread, hholds, huntyped, hcovers⟩ := holds_ofProgram (reader.run cursor).1
  have hwhole := hreader.run cursor
  rw [← hread] at hwhole
  obtain ⟨typed, htyped, hchecked⟩ := Typing.program_total huntyped (landed.whole_of_map hwhole)
  rw [hholds.validate_eq]
  exact Typing.exists_bind htyped
    ⟨_, rfl, hholds.typedAs (Typing.program_shape htyped) hchecked hcovers⟩

end CatScript
