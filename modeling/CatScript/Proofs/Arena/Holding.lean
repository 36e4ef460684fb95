import CatScript.Proofs.Arena.Storing

/-! # Arenas that hold a program

An arena holds the program that it was made of (`Arena.holds_ofProgram`), and after it has adopted a
program of the same shape it holds that one (`Arena.Holds.adopt`). -/
set_option autoImplicit false
namespace CatScript

/-- The program stands in the arena, each node in a place of its own and the root above all. -/
structure Arena.Holds (arena : Arena) (p : Program Info) : Prop where
  root : arena.root = some p.mark.id
  stands : StandAll arena p.rows
  distinct : (p.rows.map fun row => row.1.id).Nodup
  orphan : ∃ node, arena.nodes[p.mark.id]? = some node ∧ node.parent = none

theorem Program.mark_mem_rows (p : Program Info) : ∃ kind, (p.mark, kind) ∈ p.rows := by
  cases p with
  | expression mark body => exact ⟨_, List.mem_cons_self⟩
  | statements mark body => exact ⟨_, List.mem_cons_self⟩

namespace Arena.Holds
variable {arena : Arena} {p : Program Info} (h : arena.Holds p)
include h

theorem program? : arena.program? = .ok (some p) := by
  rw [Arena.program?, h.root]
  dsimp only
  rw [p.seen h.stands]
  rfl

theorem diagnostics : arena.diagnostics = .ok (Diagnostic.sort (troubles p.rows)) := by
  rw [Arena.diagnostics, h.root]
  dsimp only
  rw [p.report h.stands]

theorem returnTypeAround : arena.returnTypeAround p.mark.id = .ok none := by
  obtain ⟨node, hnode, hparent⟩ := h.orphan
  have hget : arena.node p.mark.id = .ok node := by rw [Arena.node, hnode]
  rw [Arena.returnTypeAround, Arena.enclosingFunction, hget]
  show (arena.functionFrom (arena.size + 1) node.parent >>= _) = _
  rw [hparent, Arena.functionFrom]
  rfl

theorem clean (hdiagnostics : arena.diagnostics = .ok []) : ∀ info ∈ p.marks, info.errors = [] := by
  rw [h.diagnostics] at hdiagnostics
  have hsort := Diagnostic.sort_perm (troubles p.rows)
  rw [Except.ok.inj hdiagnostics] at hsort
  have hnil : troubles p.rows = [] := hsort.symm.eq_nil
  intro info hinfo
  rw [← p.rows_marks] at hinfo
  obtain ⟨row, hrow, rfl⟩ := List.mem_map.1 hinfo
  exact List.flatMap_eq_nil_iff.1 hnil row hrow

end Arena.Holds

section Adopt

theorem record_other {arena : Arena} {info : Info} {id : NodeId} (h : id ≠ info.id) :
    (arena.record info).nodes[id]? = arena.nodes[id]? := by
  simp only [Arena.record, Array.getElem?_modify, if_neg (Ne.symm h)]

theorem record_self {arena : Arena} {info : Info} {node : Node}
    (h : arena.nodes[info.id]? = some node) :
    (arena.record info).nodes[info.id]? =
      some { node with errors := info.errors, ty := info.ty } := by
  simp only [Arena.record, Array.getElem?_modify, if_true, h, Option.map_some]

theorem foldl_record_other {marks : List Info} {id : NodeId} (h : id ∉ marks.map Info.id)
    (arena : Arena) : (marks.foldl Arena.record arena).nodes[id]? = arena.nodes[id]? := by
  induction marks generalizing arena with
  | nil => rfl
  | cons info rest ih =>
    rw [List.map_cons, List.mem_cons, not_or] at h
    rw [List.foldl_cons, ih h.2, record_other h.1]

/-- Of marks with different places, each is written in its own. -/
theorem foldl_record {marks : List Info} (hdistinct : (marks.map Info.id).Nodup) {info : Info}
    (hinfo : info ∈ marks) {arena : Arena} {node : Node} (h : arena.nodes[info.id]? = some node) :
    (marks.foldl Arena.record arena).nodes[info.id]? =
      some { node with errors := info.errors, ty := info.ty } := by
  induction marks generalizing arena with
  | nil => cases hinfo
  | cons first rest ih =>
    obtain ⟨hfirst, hrest⟩ := List.nodup_cons.1 hdistinct
    rw [List.foldl_cons]
    rcases List.mem_cons.1 hinfo with rfl | hinfo
    · rw [foldl_record_other hfirst, record_self h]
    · have hne : info.id ≠ first.id := fun heq =>
        hfirst (heq ▸ List.mem_map_of_mem hinfo)
      exact ih hrest hinfo ((record_other hne).trans h)

theorem root_foldl_record (marks : List Info) (arena : Arena) :
    (marks.foldl Arena.record arena).root = arena.root := by
  induction marks generalizing arena with
  | nil => rfl
  | cons info rest ih => exact ih _

theorem size_foldl_record (marks : List Info) (arena : Arena) :
    (marks.foldl Arena.record arena).size = arena.size := by
  induction marks generalizing arena with
  | nil => rfl
  | cons info rest ih => exact (ih _).trans Array.size_modify

/-- After adopting a program of the same shape, the arena holds that one. -/
theorem Arena.Holds.adopt {arena : Arena} {p q : Program Info} (h : arena.Holds p)
    (hshape : q.map Info.bare = p.map Info.bare) : (arena.adopt q).Holds q := by
  have hrows : q.rows.map (Prod.map Info.bare id) = p.rows.map (Prod.map Info.bare id) := by
    have hbare : ∀ info : Info, info.bare.id = info.id := fun _ => rfl
    rw [← Program.rows_map hbare, hshape, Program.rows_map hbare]
  have hids : q.rows.map (fun row => row.1.id) = p.rows.map fun row => row.1.id := by
    have := congrArg (List.map fun row : Row => row.1.id) hrows
    rw [List.map_map, List.map_map] at this
    exact this
  have hmark : q.mark.id = p.mark.id := by
    have := congrArg (fun r : Program Info => r.mark.id) hshape
    cases p <;> cases q <;> exact this
  have hdistinct : (q.marks.map Info.id).Nodup := by
    rw [← q.rows_marks, List.map_map]
    exact hids ▸ h.distinct
  -- every mark of `q` stands where a mark of `p` stood
  have hrow : ∀ row ∈ q.rows, ∃ node, arena.nodes[row.1.id]? = some node ∧
      node.kind = row.2 ∧ node.span = row.1.span ∧ ∀ child ∈ row.2.children, child < row.1.id := by
    intro row hmem
    have hin : Prod.map Info.bare id row ∈ p.rows.map (Prod.map Info.bare id) :=
      hrows ▸ List.mem_map_of_mem hmem
    obtain ⟨⟨old, oldKind⟩, hold, heq⟩ := List.mem_map.1 hin
    obtain ⟨⟨parent, hnode⟩, hbelow⟩ := h.stands _ hold
    obtain ⟨hinfo, hkind⟩ := Prod.mk.inj heq
    have hid : old.bare.id = row.1.bare.id := congrArg Info.id hinfo
    have hspan : old.bare.span = row.1.bare.span := congrArg Info.span hinfo
    dsimp only [id, Info.bare] at hnode hbelow hkind hid hspan
    rw [hid] at hnode
    rw [hkind, hid] at hbelow
    exact ⟨_, hnode, hkind, hspan, hbelow⟩
  refine ⟨?_, fun row hmem => ?_, hids ▸ h.distinct, ?_⟩
  · rw [Arena.adopt, root_foldl_record, h.root, hmark]
  · obtain ⟨node, hnode, hkind, hspan, hbelow⟩ := hrow row hmem
    have hmarks : row.1 ∈ q.marks := q.rows_marks ▸ List.mem_map_of_mem hmem
    refine ⟨⟨node.parent, (foldl_record hdistinct hmarks hnode).trans ?_⟩, hbelow⟩
    rw [hkind, hspan]
  · obtain ⟨node, hnode, hparent⟩ := h.orphan
    obtain ⟨kind, hmem⟩ := q.mark_mem_rows
    have hmarks : q.mark ∈ q.marks := q.rows_marks ▸ List.mem_map_of_mem hmem
    exact ⟨_, foldl_record hdistinct hmarks (hmark ▸ hnode), hparent⟩

end Adopt

/-- The arena of a program holds the program, without types, and nothing else. -/
theorem Arena.holds_ofProgram (p : Program Mark) : ∃ landed : Program Info,
    landed.map Info.read = p ∧ (Arena.ofProgram p).Holds landed ∧
      (∀ info ∈ landed.marks, info.ty = none) ∧
      ∀ id : Nat, id < (Arena.ofProgram p).size → ∃ row ∈ landed.rows, row.1.id = id := by
  obtain ⟨landed, hread, hlands, node, hnode, hparent⟩ := p.store_lands .empty
  refine ⟨landed, hread, ⟨congrArg some hlands.id, fun row hrow => ?_, hlands.stored.distinct,
    node, hnode, hparent⟩, fun info hinfo => ?_, fun id hid => ?_⟩
  · obtain ⟨hstands, hbelow⟩ := hlands.stored.stands row hrow
    exact ⟨hstands, hbelow⟩
  · rw [← landed.rows_marks] at hinfo
    obtain ⟨row, hrow, rfl⟩ := List.mem_map.1 hinfo
    exact hlands.stored.untyped row hrow
  · exact hlands.stored.covers id (Nat.zero_le _) hid

end CatScript
