import CatScript.Proofs.Arena.Storing

/-! # Arenas in post-order

The nodes of a stored tree are the post-order of the tree: below a node come its children, one after
the other, and nothing else (`Arena.ofProgram_inPostOrder`).  Each part of a tree takes up a stretch of
the arena (`Laid`), and a node on top of parts that lie side by side completes a longer one. -/
set_option autoImplicit false
namespace CatScript

mutual

/-- `order` is the post-order of the tree under the node `id`. -/
inductive PostOrder (arena : Arena) : (id : NodeId) → (order : List NodeId) → Prop where
  | node {id : NodeId} {node : Node} {below : List NodeId} : arena.nodes[id]? = some node →
      PostOrderAll arena node.kind.children below → PostOrder arena id (below ++ [id])

inductive PostOrderAll (arena : Arena) : (ids order : List NodeId) → Prop where
  | nil : PostOrderAll arena [] []
  | cons {id : NodeId} {ids first rest : List NodeId} : PostOrder arena id first →
      PostOrderAll arena ids rest → PostOrderAll arena (id :: ids) (first ++ rest)

end

def Arena.Lists (arena : Arena) (parent child : NodeId) : Prop :=
  ∃ above, arena.nodes[parent]? = some above ∧ child ∈ above.kind.children

/-- The nodes of the arena are the post-order of the tree under the root, which is the last node.
Every other node is listed once, by its parent alone. -/
structure Arena.InPostOrder (arena : Arena) (root : NodeId) : Prop where
  rooted : arena.root = some root
  last : root + 1 = arena.size
  order : PostOrder arena root (List.range arena.size)
  orphan : ∀ (id : Nat) (node : Node), arena.nodes[id]? = some node → (node.parent = none ↔ id = root)
  parent : ∀ (id : Nat) (node : Node), arena.nodes[id]? = some node →
    ∀ parent, node.parent = some parent ↔ arena.Lists parent id
  once : ∀ (id : Nat) (node : Node), arena.nodes[id]? = some node → node.kind.children.Nodup

section Orders
variable {arena other : Arena}

mutual

/-- The post-order depends on the kinds of the nodes alone. -/
theorem PostOrder.keeps (hkeeps : ∀ (id : Nat) (node : Node), arena.nodes[id]? = some node →
    ∃ now : Node, other.nodes[id]? = some now ∧ now.kind = node.kind) :
    {id : NodeId} → {order : List NodeId} → PostOrder arena id order → PostOrder other id order
  | _, _, .node hnode hbelow => by
    obtain ⟨now, hnow, hkind⟩ := hkeeps _ _ hnode
    apply PostOrder.node hnow
    rw [hkind]
    exact hbelow.keeps hkeeps

theorem PostOrderAll.keeps (hkeeps : ∀ (id : Nat) (node : Node),
    arena.nodes[id]? = some node → ∃ now : Node, other.nodes[id]? = some now ∧ now.kind = node.kind) :
    {ids order : List NodeId} → PostOrderAll arena ids order → PostOrderAll other ids order
  | _, _, .nil => .nil
  | _, _, .cons hfirst hrest => .cons (hfirst.keeps hkeeps) (hrest.keeps hkeeps)

end

theorem PostOrderAll.append {ids others order later : List NodeId}
    (h : PostOrderAll arena ids order) (hlater : PostOrderAll arena others later) :
    PostOrderAll arena (ids ++ others) (order ++ later) := by
  induction ids generalizing order with
  | nil =>
    cases h
    exact hlater
  | cons id ids ih =>
    cases h with
    | cons hfirst hrest =>
      rw [List.append_assoc]
      exact .cons hfirst (ih hrest)

theorem PostOrderAll.sublist {ids order : List NodeId} (h : PostOrderAll arena ids order) :
    ids.Sublist order := by
  induction ids generalizing order with
  | nil => exact List.nil_sublist _
  | cons id ids ih =>
    cases h with
    | cons hfirst hrest =>
      cases hfirst
      rw [List.append_assoc]
      exact List.sublist_append_of_sublist_right ((ih hrest).cons_cons id)

end Orders

/-- The arena has come to hold the trees under `roots`, whose nodes are the new ones in post-order.
Every new node that is not a root is listed by one new node, its parent, and once there. -/
structure Laid (before : Arena) (roots : List NodeId) (after : Arena) : Prop where
  size : before.size ≤ after.size
  old : ∀ id < before.size, after.nodes[id]? = before.nodes[id]?
  order : PostOrderAll after roots (List.range' before.size (after.size - before.size))
  inside : ∀ parent child : Nat, before.size ≤ parent → after.Lists parent child →
    before.size ≤ child ∧ child < parent
  orphan : ∀ (id : Nat) (node : Node), before.size ≤ id → after.nodes[id]? = some node →
    (node.parent = none ↔ id ∈ roots)
  parent : ∀ (id : Nat) (node : Node), before.size ≤ id → after.nodes[id]? = some node →
    ∀ parent : Nat, node.parent = some parent ↔ before.size ≤ parent ∧ after.Lists parent id
  once : ∀ (id : Nat) (node : Node), before.size ≤ id → after.nodes[id]? = some node →
    node.kind.children.Nodup

theorem Arena.Lists.lt_size {arena : Arena} {parent child : Nat} (h : arena.Lists parent child) :
    parent < arena.size := by
  obtain ⟨above, habove, -⟩ := h
  exact (Array.getElem?_eq_some_iff.1 habove).1

theorem Arena.lists_congr {arena other : Arena} {parent : NodeId} (child : NodeId)
    (h : other.nodes[parent]? = arena.nodes[parent]?) :
    other.Lists parent child ↔ arena.Lists parent child := by
  unfold Lists
  rw [h]

namespace Laid
variable {before middle after : Arena} {roots others : List NodeId}

theorem refl (arena : Arena) : Laid arena [] arena := by
  have hnone : ∀ (id : Nat) (node : Node), arena.size ≤ id → arena.nodes[id]? ≠ some node := by
    intro id node hid hnode
    have hlt := (Array.getElem?_eq_some_iff.1 hnode).1
    exact absurd hlt (Nat.not_lt.2 hid)
  refine ⟨Nat.le_refl _, fun _ _ => rfl, ?_, ?_, ?_, ?_, ?_⟩
  · rw [Nat.sub_self]
    exact .nil
  · intro parent child hparent hlists
    exact absurd hlists.lt_size (Nat.not_lt.2 hparent)
  all_goals
    intro id node hid hnode
    exact absurd hnode (hnone id node hid)

theorem sublist (h : Laid before roots after) :
    roots.Sublist (List.range' before.size (after.size - before.size)) :=
  h.order.sublist

theorem nodup (h : Laid before roots after) : roots.Nodup :=
  h.sublist.nodup List.nodup_range'

theorem range (h : Laid before roots after) :
    ∀ id : Nat, id ∈ roots → before.size ≤ id ∧ id < after.size := by
  intro id hid
  have hsize := h.size
  have hmem := List.mem_range'_1.1 (h.sublist.subset hid)
  omega

theorem not_mem (h : Laid before roots after) {id : Nat}
    (hid : id < before.size ∨ after.size ≤ id) : id ∉ roots := by
  intro hmem
  have hrange := h.range id hmem
  omega

theorem not_lists (h : Laid before roots after) {parent id : Nat} (hparent : before.size ≤ parent)
    (hid : id < before.size ∨ after.size ≤ id) : ¬after.Lists parent id := by
  intro hlists
  have hinside := h.inside parent id hparent hlists
  have hbound := hlists.lt_size
  omega

theorem lists_old (h' : Laid middle others after) {parent : Nat} (hparent : parent < middle.size)
    (child : Nat) : after.Lists parent child ↔ middle.Lists parent child :=
  Arena.lists_congr child (h'.old parent hparent)

theorem append_orphan (h : Laid before roots middle) (h' : Laid middle others after) {id : Nat}
    {node : Node} (hid : before.size ≤ id) (hnode : after.nodes[id]? = some node) :
    node.parent = none ↔ id ∈ roots ++ others := by
  rw [List.mem_append]
  by_cases hnew : middle.size ≤ id
  · rw [h'.orphan id node hnew hnode]
    simp [h.not_mem (.inr hnew)]
  · rw [h'.old id (by omega)] at hnode
    rw [h.orphan id node hid hnode]
    simp [h'.not_mem (.inl (Nat.lt_of_not_le hnew))]

theorem append_parent (h : Laid before roots middle) (h' : Laid middle others after) {id : Nat}
    {node : Node} (hid : before.size ≤ id) (hnode : after.nodes[id]? = some node) (parent : Nat) :
    node.parent = some parent ↔ before.size ≤ parent ∧ after.Lists parent id := by
  have hsize := h.size
  by_cases hnew : middle.size ≤ id
  · rw [h'.parent id node hnew hnode]
    constructor
    · rintro ⟨hparent, hchild⟩
      exact ⟨by omega, hchild⟩
    · rintro ⟨hparent, hchild⟩
      refine ⟨?_, hchild⟩
      by_contra hold
      rw [h'.lists_old (by omega)] at hchild
      exact h.not_lists hparent (.inr hnew) hchild
  · rw [h'.old id (by omega)] at hnode
    rw [h.parent id node hid hnode]
    by_cases hparent : middle.size ≤ parent
    · have hnot : ¬middle.Lists parent id := by
        intro hchild
        exact absurd hchild.lt_size (Nat.not_lt.2 hparent)
      simp [hnot, h'.not_lists hparent (.inl (Nat.lt_of_not_le hnew))]
    · rw [h'.lists_old (by omega)]

theorem append (h : Laid before roots middle) (h' : Laid middle others after) :
    Laid before (roots ++ others) after := by
  have hsize := h.size
  have hsize' := h'.size
  refine ⟨by omega, ?_, ?_, ?_, fun _ _ => h.append_orphan h', fun _ _ => h.append_parent h', ?_⟩
  · intro id hid
    rw [h'.old id (by omega), h.old id hid]
  · have hkeeps : PostOrderAll after roots _ := h.order.keeps fun id node hnode => by
      have hlt := (Array.getElem?_eq_some_iff.1 hnode).1
      exact ⟨node, (h'.old id hlt).trans hnode, rfl⟩
    have hall := hkeeps.append h'.order
    have hstart : middle.size = before.size + (middle.size - before.size) := by omega
    have hlength : after.size - before.size =
        (middle.size - before.size) + (after.size - middle.size) := by omega
    rw [hlength, ← List.range'_append_1, ← hstart]
    exact hall
  · intro parent child hparent hchild
    by_cases hnew : middle.size ≤ parent
    · have hinside := h'.inside parent child hnew hchild
      omega
    · rw [h'.lists_old (by omega)] at hchild
      exact h.inside parent child hparent hchild
  · intro id node hid hnode
    by_cases hnew : middle.size ≤ id
    · exact h'.once id node hnew hnode
    · rw [h'.old id (by omega)] at hnode
      exact h.once id node hid hnode

end Laid

section Place
variable {middle : Arena} (kind : NodeKind) (mark : Mark)

theorem Arena.getElem?_of_place {id : Nat} {node : Node}
    (h : (middle.place kind mark).2.nodes[id]? = some node) : id = middle.size ∨ id < middle.size := by
  have hlt := (Array.getElem?_eq_some_iff.1 h).1
  have hsize := size_place kind mark middle
  unfold Arena.size at hsize ⊢
  omega

theorem Arena.lists_place (parent child : Nat) : (middle.place kind mark).2.Lists parent child ↔
    (parent = middle.size ∧ child ∈ kind.children) ∨ middle.Lists parent child := by
  have hnew := getElem?_place kind mark middle
  constructor
  · rintro ⟨above, habove, hchild⟩
    rcases Arena.getElem?_of_place kind mark habove with rfl | hlt
    · rw [hnew] at habove
      cases habove
      exact .inl ⟨rfl, hchild⟩
    · rw [getElem?_place_lt kind mark hlt, Option.map_eq_some_iff] at habove
      obtain ⟨node, hnode, rfl⟩ := habove
      refine .inr ⟨node, hnode, ?_⟩
      split at hchild <;> exact hchild
  · rintro (⟨rfl, hchild⟩ | h)
    · exact ⟨_, hnew, hchild⟩
    · have hlt := h.lt_size
      obtain ⟨above, habove, hchild⟩ := h
      refine ⟨_, (getElem?_place_lt kind mark hlt).trans (congrArg _ habove), ?_⟩
      split <;> exact hchild

end Place

namespace Laid
variable {before middle : Arena} {kind : NodeKind} (h : Laid before kind.children middle)
  (mark : Mark)
include h

theorem place_orphan {id : Nat} {node : Node} (hid : before.size ≤ id)
    (hnode : (middle.place kind mark).2.nodes[id]? = some node) :
    node.parent = none ↔ id ∈ [middle.size] := by
  rw [List.mem_singleton]
  rcases Arena.getElem?_of_place kind mark hnode with rfl | hlt
  · rw [getElem?_place] at hnode
    cases hnode
    simp
  · rw [getElem?_place_lt kind mark hlt, Option.map_eq_some_iff] at hnode
    obtain ⟨old, hold, rfl⟩ := hnode
    have horphan := h.orphan id old hid hold
    have hne : id ≠ middle.size := Nat.ne_of_lt hlt
    by_cases hmem : id ∈ kind.children
    · simp [hmem, hne]
    · simp [hmem, hne, horphan]

theorem place_parent {id : Nat} {node : Node} (hid : before.size ≤ id)
    (hnode : (middle.place kind mark).2.nodes[id]? = some node) (parent : Nat) :
    node.parent = some parent ↔
      before.size ≤ parent ∧ (middle.place kind mark).2.Lists parent id := by
  have hsize := h.size
  rw [Arena.lists_place]
  rcases Arena.getElem?_of_place kind mark hnode with rfl | hlt
  · rw [getElem?_place] at hnode
    cases hnode
    have hnot : middle.size ∉ kind.children := h.not_mem (.inr (Nat.le_refl _))
    have hnone (hparent : before.size ≤ parent) : ¬middle.Lists parent middle.size :=
      h.not_lists hparent (.inr (Nat.le_refl _))
    simpa [hnot] using hnone
  · rw [getElem?_place_lt kind mark hlt, Option.map_eq_some_iff] at hnode
    obtain ⟨old, hold, rfl⟩ := hnode
    have hparents := h.parent id old hid hold parent
    by_cases hmem : id ∈ kind.children
    · -- a root of the parts had no parent
      have hnone : old.parent = none := (h.orphan id old hid hold).2 hmem
      rw [hnone] at hparents
      have hnot : ¬(before.size ≤ parent ∧ middle.Lists parent id) := by
        rw [← hparents]
        simp
      simp only [hmem, if_true, and_true, Option.some.injEq]
      constructor
      · rintro rfl
        exact ⟨hsize, .inl rfl⟩
      · rintro ⟨hparent, rfl | hchild⟩
        · rfl
        · exact absurd ⟨hparent, hchild⟩ hnot
    · simpa [hmem] using hparents

/-- A node above all the parts that are laid becomes the parent of their roots. -/
theorem place : Laid before [middle.size] (middle.place kind mark).2 := by
  have hsize := h.size
  have hgrown := size_place kind mark middle
  have hnew := getElem?_place kind mark middle
  have hother (id : Nat) (hid : id < middle.size) := getElem?_place_lt kind mark hid
  refine ⟨by omega, ?_, ?_, ?_, fun _ _ => h.place_orphan mark, fun _ _ => h.place_parent mark, ?_⟩
  · intro id hid
    rw [hother id (by omega)]
    simp [h.not_mem (.inl hid), h.old id hid]
  · have hkeeps : PostOrderAll (middle.place kind mark).2 kind.children _ :=
      h.order.keeps fun id node hnode => by
        have hlt := (Array.getElem?_eq_some_iff.1 hnode).1
        refine ⟨_, (hother id hlt).trans (congrArg _ hnode), ?_⟩
        split <;> rfl
    have hlength : (middle.place kind mark).2.size - before.size =
        (middle.size - before.size) + 1 := by omega
    have hlast : before.size + (middle.size - before.size) = middle.size := by omega
    rw [hlength, ← List.range'_append_1, hlast]
    have hroot := PostOrderAll.cons (.node hnew hkeeps) .nil
    rw [List.append_nil] at hroot
    exact hroot
  · intro parent child hparent hchild
    rcases (Arena.lists_place kind mark parent child).1 hchild with ⟨rfl, hmem⟩ | hchild
    · exact h.range child hmem
    · exact h.inside parent child hparent hchild
  · intro id node hid hnode
    rcases Arena.getElem?_of_place kind mark hnode with rfl | hlt
    · rw [hnew] at hnode
      cases hnode
      exact h.nodup
    · rw [hother id hlt, Option.map_eq_some_iff] at hnode
      obtain ⟨old, hold, rfl⟩ := hnode
      have honce := h.once id old hid hold
      split <;> exact honce

end Laid

section Trees

mutual

theorem Expr.store_laid : (e : Expr Mark) → (before : Arena) →
    Laid before [(e.store.run before).1] (e.store.run before).2
  | .identifier mark _, before | .integer mark _, before | .string mark _, before
  | .boolean mark _, before | .null mark, before | .broken mark _, before =>
    (Laid.refl before).place mark
  | .list mark items, before | .call mark _ items, before =>
    (Expr.storeAll_laid items before).place mark
  | .parenthesized mark inner, before | .unary mark _ inner, before =>
    (Expr.store_laid inner before).place mark
  | .binary mark _ left right, before | .comparison mark _ left right, before
  | .equality mark _ left right, before => by
    have hparts := (Expr.store_laid left before).append (Expr.store_laid right _)
    exact hparts.place mark

theorem Expr.storeAll_laid : (items : List (Expr Mark)) → (before : Arena) →
    Laid before ((Expr.storeAll items).run before).1 ((Expr.storeAll items).run before).2
  | [], before => .refl before
  | e :: rest, before => (Expr.store_laid e before).append (Expr.storeAll_laid rest _)

end

mutual

theorem Stmt.store_laid : (s : Stmt Mark) → (before : Arena) →
    Laid before [(s.store.run before).1] (s.store.run before).2
  | .declaration mark _ _ value, before | .assignment mark _ value, before
  | .print mark value, before | .call mark value, before
  | .returning mark (some value), before => (Expr.store_laid value before).place mark
  | .returning mark none, before | .broken mark _, before => (Laid.refl before).place mark
  | .bare value, before => Expr.store_laid value before
  | .function mark _ _ _ body, before => (Stmt.storeAll_laid body before).place mark
  | .ifThen mark condition body, before | .loop mark _ condition body, before => by
    have hparts := (Expr.store_laid condition before).append (Stmt.storeAll_laid body _)
    exact hparts.place mark
  | .ifThenElse mark condition thenBody elseBody, before => by
    have hparts := (Expr.store_laid condition before).append
      ((Stmt.storeAll_laid thenBody _).append (Stmt.storeAll_laid elseBody _))
    exact hparts.place mark

theorem Stmt.storeAll_laid : (body : List (Stmt Mark)) → (before : Arena) →
    Laid before ((Stmt.storeAll body).run before).1 ((Stmt.storeAll body).run before).2
  | [], before => .refl before
  | s :: rest, before => (Stmt.store_laid s before).append (Stmt.storeAll_laid rest _)

end

theorem Program.store_laid (p : Program Mark) (before : Arena) :
    Laid before [(p.store.run before).1] (p.store.run before).2 ∧
      (p.store.run before).1 + 1 = (p.store.run before).2.size := by
  cases p with
  | expression mark body =>
    exact ⟨(Expr.store_laid body before).place mark, (size_place ..).symm⟩
  | statements mark body =>
    exact ⟨(Stmt.storeAll_laid body before).place mark, (size_place ..).symm⟩

end Trees

theorem PostOrderAll.single {arena : Arena} {root : NodeId} {order : List NodeId}
    (h : PostOrderAll arena [root] order) : PostOrder arena root order := by
  cases h with
  | cons hfirst hrest =>
    cases hrest
    rw [List.append_nil]
    exact hfirst

theorem Laid.inPostOrder {after : Arena} {root : Nat} (h : Laid .empty [root] after)
    (hlast : root + 1 = after.size) : (after.setRoot root).InPostOrder root := by
  have horder : PostOrder after root (List.range after.size) := by
    rw [List.range_eq_range']
    exact h.order.single
  have hrooted : PostOrder (after.setRoot root) root (List.range after.size) := by
    apply horder.keeps
    intro id node hnode
    exact ⟨node, hnode, rfl⟩
  refine ⟨rfl, hlast, hrooted, ?_, ?_, ?_⟩
  · intro id node hnode
    rw [h.orphan id node (Nat.zero_le _) hnode, List.mem_singleton]
  · intro id node hnode parent
    rw [h.parent id node (Nat.zero_le _) hnode]
    exact and_iff_right (Nat.zero_le parent)
  · intro id node hnode
    exact h.once id node (Nat.zero_le _) hnode

/-- The arena of a program is the post-order of the program. -/
theorem Arena.ofProgram_inPostOrder (p : Program Mark) :
    ∃ root, (ofProgram p).InPostOrder root := by
  obtain ⟨hlaid, hlast⟩ := p.store_laid .empty
  exact ⟨_, hlaid.inPostOrder hlast⟩

end CatScript
