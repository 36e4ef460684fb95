import CatScript.Arena.Numbering
import CatScript.Proofs.Arena.Views

/-! # Trees on their way into an arena

Storing a tree gives each node a place of its own (`Program.store_lands`).  The places are new, and
what stands in the arena already stays there. -/
set_option autoImplicit false
namespace CatScript

def Info.read (info : Info) : Mark :=
  ⟨info.span, info.errors⟩

/-- The arena has come to hold new rows, in places of their own and without types. -/
structure Stored (before after : Arena) (rows : List Row) : Prop where
  size : before.size ≤ after.size
  keeps : ∀ row, Stands before row → Stands after row
  stands : StandAll after rows
  range : ∀ row ∈ rows, before.size ≤ row.1.id ∧ row.1.id < after.size
  distinct : (rows.map fun row => row.1.id).Nodup
  untyped : ∀ row ∈ rows, row.1.ty = none
  covers : ∀ id : Nat, before.size ≤ id → id < after.size → ∃ row ∈ rows, row.1.id = id

namespace Stored

theorem refl (arena : Arena) : Stored arena arena [] := by
  refine ⟨Nat.le_refl _, fun _ h => h, nofun, nofun, List.nodup_nil, nofun, fun _ hlow hhigh => ?_⟩
  exact absurd hhigh (Nat.not_lt.2 hlow)

theorem append {a b c : Arena} {rows others : List Row} (hab : Stored a b rows)
    (hbc : Stored b c others) : Stored a c (rows ++ others) := by
  have hsize := hab.size
  have hsize' := hbc.size
  refine ⟨by omega, fun row h => hbc.keeps row (hab.keeps row h), fun row hrow => ?_,
    fun row hrow => ?_, ?_, fun row hrow => ?_, fun id hlow hhigh => ?_⟩
  · rcases List.mem_append.1 hrow with hrow | hrow
    · exact hbc.keeps row (hab.stands row hrow)
    · exact hbc.stands row hrow
  · rcases List.mem_append.1 hrow with hrow | hrow
    · have := hab.range row hrow
      omega
    · have := hbc.range row hrow
      omega
  · rw [List.map_append]
    refine List.nodup_append.2 ⟨hab.distinct, hbc.distinct, ?_⟩
    rintro _ hrow _ hother rfl
    obtain ⟨row, hrow, hid⟩ := List.mem_map.1 hrow
    obtain ⟨other, hother, hid'⟩ := List.mem_map.1 hother
    have := hab.range row hrow
    have := hbc.range other hother
    omega
  · rcases List.mem_append.1 hrow with hrow | hrow
    · exact hab.untyped row hrow
    · exact hbc.untyped row hrow
  · by_cases hid : id < b.size
    · obtain ⟨row, hrow, hrow'⟩ := hab.covers id hlow hid
      exact ⟨row, List.mem_append_left _ hrow, hrow'⟩
    · obtain ⟨row, hrow, hrow'⟩ := hbc.covers id (by omega) hhigh
      exact ⟨row, List.mem_append_right _ hrow, hrow'⟩

end Stored

section Place

theorem size_attach (parent : NodeId) (children : List NodeId) (nodes : Array Node) :
    (children.foldl (fun nodes child =>
      nodes.modify child fun node => { node with parent := some parent }) nodes).size =
      nodes.size := by
  induction children generalizing nodes with
  | nil => rfl
  | cons child rest ih => rw [List.foldl_cons, ih, Array.size_modify]

theorem getElem?_attach (parent : NodeId) (children : List NodeId) (nodes : Array Node)
    (id : NodeId) : (children.foldl (fun nodes child =>
      nodes.modify child fun node => { node with parent := some parent }) nodes)[id]? =
      nodes[id]?.map fun node =>
        if id ∈ children then { node with parent := some parent } else node := by
  induction children generalizing nodes with
  | nil => simp
  | cons child rest ih =>
    rw [List.foldl_cons, ih, Array.getElem?_modify]
    by_cases h : child = id
    · subst h
      cases nodes[child]? <;> simp
    · simp [h, Ne.symm h]

theorem size_place (kind : NodeKind) (mark : Mark) (arena : Arena) :
    (arena.place kind mark).2.size = arena.size + 1 := by
  simp only [Arena.place, Arena.size, Array.size_push, size_attach]

theorem getElem?_place_lt (kind : NodeKind) (mark : Mark) {arena : Arena} {id : Nat}
    (h : id < arena.size) : (arena.place kind mark).2.nodes[id]? =
      arena.nodes[id]?.map fun node =>
        if id ∈ kind.children then { node with parent := some arena.size } else node := by
  rw [← getElem?_attach]
  have hlt : id < (kind.children.foldl (fun nodes child =>
      nodes.modify child fun node => { node with parent := some arena.size }) arena.nodes).size := by
    rw [size_attach]
    exact h
  exact (Array.getElem?_push_lt hlt).trans (Array.getElem?_eq_getElem hlt).symm

theorem keeps_place (kind : NodeKind) (mark : Mark) {arena : Arena} {row : Row}
    (h : Stands arena row) : Stands (arena.place kind mark).2 row := by
  obtain ⟨⟨parent, hnode⟩, hbelow⟩ := h
  have hlt := (Array.getElem?_eq_some_iff.1 hnode).1
  refine ⟨?_, hbelow⟩
  rw [getElem?_place_lt kind mark hlt, hnode, Option.map_some]
  by_cases hchild : row.1.id ∈ kind.children
  · exact ⟨some arena.size, by rw [if_pos hchild]⟩
  · exact ⟨parent, by rw [if_neg hchild]⟩

theorem getElem?_place (kind : NodeKind) (mark : Mark) (arena : Arena) :
    (arena.place kind mark).2.nodes[arena.size]? =
      some ⟨kind, mark.span, none, mark.errors, none⟩ := by
  have hsize := size_attach arena.size kind.children arena.nodes
  rw [Arena.size] at hsize ⊢
  exact (congrArg _ hsize.symm).trans Array.getElem?_push_size

/-- A tree has been stored: its root is at `result.1`, and the arena is `result.2` now. -/
structure Lands (before : Arena) (info : Info) (rows : List Row) (result : NodeId × Arena) :
    Prop where
  id : result.1 = info.id
  bound : info.id < result.2.size
  stored : Stored before result.2 rows

theorem Stored.place {before middle : Arena} {rest : List Row} {kind : NodeKind} {mark : Mark}
    {result : NodeId × Arena} (h : Stored before middle rest)
    (hresult : result = middle.place kind mark)
    (hchildren : ∀ child ∈ kind.children, child < middle.size) :
    Lands before ⟨middle.size, mark.span, mark.errors, none⟩
      ((⟨middle.size, mark.span, mark.errors, none⟩, kind) :: rest) result := by
  have hsize := size_place kind mark middle
  have hgrows := h.size
  rw [hresult]
  refine ⟨rfl, by rw [hsize]; exact Nat.lt_succ_self _, by omega,
    fun row hrow => keeps_place kind mark (h.keeps row hrow), fun row hrow => ?_,
    fun row hrow => ?_, ?_, fun row hrow => ?_, fun id hlow hhigh => ?_⟩
  · rcases List.mem_cons.1 hrow with rfl | hrow
    · exact ⟨⟨none, getElem?_place kind mark middle⟩, hchildren⟩
    · exact keeps_place kind mark (h.stands row hrow)
  · rw [hsize]
    rcases List.mem_cons.1 hrow with rfl | hrow
    · exact ⟨hgrows, Nat.lt_succ_self _⟩
    · have := h.range row hrow
      omega
  · refine List.nodup_cons.2 ⟨fun hmem => ?_, h.distinct⟩
    obtain ⟨row, hrow, hid⟩ := List.mem_map.1 hmem
    have := h.range row hrow
    dsimp only at hid
    omega
  · rcases List.mem_cons.1 hrow with rfl | hrow
    · rfl
    · exact h.untyped row hrow
  · by_cases hid : id < middle.size
    · obtain ⟨row, hrow, hrow'⟩ := h.covers id hlow hid
      exact ⟨row, List.mem_cons_of_mem _ hrow, hrow'⟩
    · exact ⟨_, List.mem_cons_self, by dsimp only; omega⟩

end Place

section Trees

structure LandAll (before : Arena) (ids : List NodeId) (rows : List Row)
    (result : List NodeId × Arena) : Prop where
  places : result.1 = ids
  bound : ∀ id ∈ ids, id < result.2.size
  stored : Stored before result.2 rows

theorem LandAll.nil (before : Arena) : LandAll before [] [] ([], before) :=
  ⟨rfl, nofun, .refl before⟩

theorem LandAll.cons {before : Arena} {info : Info} {rows others : List Row} {ids : List NodeId}
    {first : NodeId × Arena} {rest : List NodeId × Arena} (hfirst : Lands before info rows first)
    (hrest : LandAll first.2 ids others rest) :
    LandAll before (info.id :: ids) (rows ++ others) (first.1 :: rest.1, rest.2) := by
  refine ⟨by rw [hfirst.id, hrest.places], fun id hid => ?_, hfirst.stored.append hrest.stored⟩
  rcases List.mem_cons.1 hid with rfl | hid
  · exact Nat.lt_of_lt_of_le hfirst.bound hrest.stored.size
  · exact hrest.bound id hid

theorem LandAll.later {before : Arena} {ids : List NodeId} {rows others : List Row}
    {first : List NodeId × Arena} {after : Arena} (h : LandAll before ids rows first)
    (hlater : Stored first.2 after others) : ∀ id ∈ ids, id < after.size := by
  intro id hid
  exact Nat.lt_of_lt_of_le (h.bound id hid) hlater.size

theorem Lands.before_all {before : Arena} {info : Info} {rows others : List Row}
    {ids : List NodeId} {first : NodeId × Arena} {after : Arena} (h : Lands before info rows first)
    (hlater : Stored first.2 after others) (hids : ∀ id ∈ ids, id < after.size) :
    ∀ id ∈ info.id :: ids, id < after.size :=
  List.forall_mem_cons.2 ⟨Nat.lt_of_lt_of_le h.bound hlater.size, hids⟩

theorem Lands.bounds {before : Arena} {info other : Info} {rows others : List Row}
    {first second : NodeId × Arena} (hfirst : Lands before info rows first)
    (hsecond : Lands first.2 other others second) :
    ∀ id ∈ [info.id, other.id], id < second.2.size :=
  hfirst.before_all hsecond.stored (List.forall_mem_singleton.2 hsecond.bound)

mutual

theorem Expr.store_lands : (e : Expr Mark) → (before : Arena) → ∃ landed : Expr Info,
    landed.map Info.read = e ∧ Lands before landed.mark landed.rows (e.store.run before)
  | .identifier mark name, before =>
    ⟨.identifier _ name, rfl, (Stored.refl before).place rfl nofun⟩
  | .integer mark value, before =>
    ⟨.integer _ value, rfl, (Stored.refl before).place rfl nofun⟩
  | .string mark text, before =>
    ⟨.string _ text, rfl, (Stored.refl before).place rfl nofun⟩
  | .boolean mark value, before =>
    ⟨.boolean _ value, rfl, (Stored.refl before).place rfl nofun⟩
  | .null mark, before =>
    ⟨.null _, rfl, (Stored.refl before).place rfl nofun⟩
  | .broken mark text, before =>
    ⟨.broken _ text, rfl, (Stored.refl before).place rfl nofun⟩
  | .list mark items, before => by
    obtain ⟨landed, rfl, h⟩ := Expr.storeAll_lands items before
    exact ⟨.list _ landed, rfl, h.stored.place (by rw [← h.places]; rfl) h.bound⟩
  | .call mark name args, before => by
    obtain ⟨landed, rfl, h⟩ := Expr.storeAll_lands args before
    exact ⟨.call _ name landed, rfl, h.stored.place (by rw [← h.places]; rfl) h.bound⟩
  | .parenthesized mark inner, before => by
    obtain ⟨landed, rfl, h⟩ := Expr.store_lands inner before
    exact ⟨.parenthesized _ landed, rfl,
      h.stored.place (by rw [← h.id]; rfl) (List.forall_mem_singleton.2 h.bound)⟩
  | .unary mark op operand, before => by
    obtain ⟨landed, rfl, h⟩ := Expr.store_lands operand before
    exact ⟨.unary _ op landed, rfl,
      h.stored.place (by rw [← h.id]; rfl) (List.forall_mem_singleton.2 h.bound)⟩
  | .binary mark op left right, before => by
    obtain ⟨l, rfl, hleft⟩ := Expr.store_lands left before
    obtain ⟨r, rfl, hright⟩ := Expr.store_lands right ((l.map Info.read).store.run before).2
    exact ⟨.binary _ op l r, rfl, (hleft.stored.append hright.stored).place
      (by rw [← hleft.id, ← hright.id]; rfl) (hleft.bounds hright)⟩
  | .comparison mark op left right, before => by
    obtain ⟨l, rfl, hleft⟩ := Expr.store_lands left before
    obtain ⟨r, rfl, hright⟩ := Expr.store_lands right ((l.map Info.read).store.run before).2
    exact ⟨.comparison _ op l r, rfl, (hleft.stored.append hright.stored).place
      (by rw [← hleft.id, ← hright.id]; rfl) (hleft.bounds hright)⟩
  | .equality mark op left right, before => by
    obtain ⟨l, rfl, hleft⟩ := Expr.store_lands left before
    obtain ⟨r, rfl, hright⟩ := Expr.store_lands right ((l.map Info.read).store.run before).2
    exact ⟨.equality _ op l r, rfl, (hleft.stored.append hright.stored).place
      (by rw [← hleft.id, ← hright.id]; rfl) (hleft.bounds hright)⟩

theorem Expr.storeAll_lands : (items : List (Expr Mark)) → (before : Arena) →
    ∃ landed : List (Expr Info), Expr.mapAll Info.read landed = items ∧
      LandAll before (Expr.ids landed) (Expr.rowsAll landed) ((Expr.storeAll items).run before)
  | [], before => ⟨[], rfl, .nil before⟩
  | e :: rest, before => by
    obtain ⟨first, rfl, hfirst⟩ := Expr.store_lands e before
    obtain ⟨others, rfl, hothers⟩ := Expr.storeAll_lands rest _
    exact ⟨first :: others, rfl, .cons hfirst hothers⟩

end

mutual

theorem Stmt.store_lands : (s : Stmt Mark) → (before : Arena) → ∃ landed : Stmt Info,
    landed.map Info.read = s ∧ Lands before landed.mark landed.rows (s.store.run before)
  | .declaration mark name ty? value, before => by
    obtain ⟨e, rfl, h⟩ := Expr.store_lands value before
    exact ⟨.declaration _ name ty? e, rfl,
      h.stored.place (by rw [← h.id]; rfl) (List.forall_mem_singleton.2 h.bound)⟩
  | .assignment mark name value, before => by
    obtain ⟨e, rfl, h⟩ := Expr.store_lands value before
    exact ⟨.assignment _ name e, rfl,
      h.stored.place (by rw [← h.id]; rfl) (List.forall_mem_singleton.2 h.bound)⟩
  | .print mark value, before => by
    obtain ⟨e, rfl, h⟩ := Expr.store_lands value before
    exact ⟨.print _ e, rfl,
      h.stored.place (by rw [← h.id]; rfl) (List.forall_mem_singleton.2 h.bound)⟩
  | .call mark value, before => by
    obtain ⟨e, rfl, h⟩ := Expr.store_lands value before
    exact ⟨.call _ e, rfl,
      h.stored.place (by rw [← h.id]; rfl) (List.forall_mem_singleton.2 h.bound)⟩
  | .returning mark (some value), before => by
    obtain ⟨e, rfl, h⟩ := Expr.store_lands value before
    exact ⟨.returning _ (some e), rfl,
      h.stored.place (by rw [← h.id]; rfl) (List.forall_mem_singleton.2 h.bound)⟩
  | .returning mark none, before =>
    ⟨.returning _ none, rfl, (Stored.refl before).place rfl nofun⟩
  | .broken mark text, before =>
    ⟨.broken _ text, rfl, (Stored.refl before).place rfl nofun⟩
  | .bare value, before => by
    obtain ⟨e, rfl, h⟩ := Expr.store_lands value before
    exact ⟨.bare e, rfl, h⟩
  | .function mark name params returns body, before => by
    obtain ⟨landed, rfl, h⟩ := Stmt.storeAll_lands body before
    exact ⟨.function _ name params returns landed, rfl,
      h.stored.place (by rw [← h.places]; rfl) h.bound⟩
  | .ifThen mark condition thenBody, before => by
    obtain ⟨e, rfl, he⟩ := Expr.store_lands condition before
    obtain ⟨body, rfl, hbody⟩ :=
      Stmt.storeAll_lands thenBody ((e.map Info.read).store.run before).2
    exact ⟨.ifThen _ e body, rfl, (he.stored.append hbody.stored).place
      (by rw [← he.id, ← hbody.places]; rfl) (he.before_all hbody.stored hbody.bound)⟩
  | .loop mark name iterable body, before => by
    obtain ⟨e, rfl, he⟩ := Expr.store_lands iterable before
    obtain ⟨body, rfl, hbody⟩ :=
      Stmt.storeAll_lands body ((e.map Info.read).store.run before).2
    exact ⟨.loop _ name e body, rfl, (he.stored.append hbody.stored).place
      (by rw [← he.id, ← hbody.places]; rfl) (he.before_all hbody.stored hbody.bound)⟩
  | .ifThenElse mark condition thenBody elseBody, before => by
    obtain ⟨e, rfl, he⟩ := Expr.store_lands condition before
    obtain ⟨first, rfl, hfirst⟩ :=
      Stmt.storeAll_lands thenBody ((e.map Info.read).store.run before).2
    obtain ⟨second, rfl, hsecond⟩ := Stmt.storeAll_lands elseBody
      ((Stmt.storeAll (Stmt.mapAll Info.read first)).run
        ((e.map Info.read).store.run before).2).2
    have hids : ∀ id ∈ Stmt.ids first ++ Stmt.ids second, id < _ :=
      List.forall_mem_append.2 ⟨hfirst.later hsecond.stored, hsecond.bound⟩
    refine ⟨.ifThenElse _ e first second, rfl,
      ((he.stored.append hfirst.stored).append hsecond.stored).place
      (by rw [← he.id, ← hfirst.places, ← hsecond.places]; rfl)
      (he.before_all (hfirst.stored.append hsecond.stored) hids)⟩

theorem Stmt.storeAll_lands : (body : List (Stmt Mark)) → (before : Arena) →
    ∃ landed : List (Stmt Info), Stmt.mapAll Info.read landed = body ∧
      LandAll before (Stmt.ids landed) (Stmt.rowsAll landed) ((Stmt.storeAll body).run before)
  | [], before => ⟨[], rfl, .nil before⟩
  | s :: rest, before => by
    obtain ⟨first, rfl, hfirst⟩ := Stmt.store_lands s before
    obtain ⟨others, rfl, hothers⟩ := Stmt.storeAll_lands rest _
    exact ⟨first :: others, rfl, .cons hfirst hothers⟩

end

/-- Every program lands, and is no part of anything. -/
theorem Program.store_lands (p : Program Mark) (before : Arena) : ∃ landed : Program Info,
    landed.map Info.read = p ∧ Lands before landed.mark landed.rows (p.store.run before) ∧
      ∃ node, (p.store.run before).2.nodes[landed.mark.id]? = some node ∧ node.parent = none := by
  cases p with
  | expression mark body =>
    obtain ⟨e, rfl, h⟩ := Expr.store_lands body before
    exact ⟨.expression _ e, rfl,
      h.stored.place (by rw [← h.id]; rfl) (List.forall_mem_singleton.2 h.bound),
      _, getElem?_place .., rfl⟩
  | statements mark body =>
    obtain ⟨landed, rfl, h⟩ := Stmt.storeAll_lands body before
    exact ⟨.statements _ landed, rfl, h.stored.place (by rw [← h.places]; rfl) h.bound,
      _, getElem?_place .., rfl⟩

end Trees
end CatScript
