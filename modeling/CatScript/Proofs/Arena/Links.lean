import CatScript.Proofs.Arena.PostOrder

/-! # Links in an arena that shrinks

An arena grows by `push`, shrinks by `truncate`, and names its root by `setRoot`.  A node that is
listed by another one always has that one as its parent.  The converse is lost where `truncate`
drops a parent and leaves the child: the child keeps a link to a place that is empty, or taken by
another node later.  Those nodes are `stranded`, and they are the only ones: an arena without them
is `Linked`, the way up from each of its nodes ends at a node without a parent, and truncation gives
back the arena that was there (`run_links`). -/
set_option autoImplicit false
namespace CatScript.Arena

/-- A step of whoever builds a tree. -/
inductive Op where
  | push (kind : NodeKind) (span : Span)
  | truncate (size : Nat)
  | setRoot (id : NodeId)

def perform (arena : Arena) : Op → Except Fault Arena
  | .push kind span => Prod.snd <$> arena.push kind span
  | .truncate size => .ok (arena.truncate size)
  | .setRoot id => .ok (arena.setRoot id)

def performAll (arena : Arena) (ops : List Op) : Except Fault Arena :=
  ops.foldlM perform arena

/-- The nodes before place `size` whose parents stand at that place or behind it. -/
def severed (arena : Arena) (size : Nat) : List NodeId :=
  (List.range size).filter fun id => (arena.nodes[id]?.bind Node.parent).any (size ≤ ·)

/-- The stranded nodes after a step: those that were stranded and stay, and those that the step
severs. -/
def strand (arena : Arena) (stranded : List NodeId) : Op → List NodeId
  | .truncate size => stranded.filter (· < size) ++ arena.severed size
  | .push .. | .setRoot _ => stranded

def strandAll (arena : Arena) (stranded : List NodeId) : List Op → List NodeId
  | [] => stranded
  | op :: ops =>
    match arena.perform op with
    | .ok next => next.strandAll (arena.strand stranded op) ops
    | .error _ => stranded

def stranded (ops : List Op) : List NodeId :=
  empty.strandAll [] ops

/-- Links and lists of children say the same. -/
def Linked (arena : Arena) : Prop :=
  ∀ (id : Nat) (node : Node), arena.nodes[id]? = some node →
    ∀ parent : NodeId, node.parent = some parent ↔ arena.Lists parent id

/-- The function `found` is the innermost one around the node `id`: the first one that is met on the
way from a node to the one that lists it. -/
inductive Around (arena : Arena) : (id : NodeId) → (found : Option NodeId) → Prop where
  | nothing {id : NodeId} : (∀ parent, ¬ arena.Lists parent id) → Around arena id none
  | function {id parent : NodeId} {node : Node} {name : String} {params : List Parameter}
      {returns : Ty} {body : List NodeId} : arena.Lists parent id →
      arena.nodes[parent]? = some node → node.kind = .function name params returns body →
      Around arena id (some parent)
  | above {id parent : NodeId} {node : Node} {found : Option NodeId} : arena.Lists parent id →
      arena.nodes[parent]? = some node →
      (∀ name params returns body, node.kind ≠ .function name params returns body) →
      Around arena parent found → Around arena id found

section Steps
variable {arena next : Arena}

theorem perform_push {kind : NodeKind} {span : Span}
    (h : arena.perform (.push kind span) = .ok next) :
    arena.push kind span = .ok (arena.size, next) := by
  unfold perform push at h
  unfold push
  cases hnodes : kind.children.foldlM (attach arena.size) arena.nodes with
  | error fault => simp [hnodes, Functor.map, Except.map, bind, Except.bind] at h
  | ok nodes =>
    simp only [hnodes, Functor.map, Except.map, bind, Except.bind, pure, Except.pure,
      Except.ok.injEq] at h ⊢
    rw [h]

theorem performAll_cons {op : Op} {ops : List Op} (h : arena.performAll (op :: ops) = .ok next) :
    ∃ middle, arena.perform op = .ok middle ∧ middle.performAll ops = .ok next := by
  unfold performAll at h
  rw [List.foldlM_cons] at h
  cases hop : arena.perform op with
  | error fault => simp [hop, bind, Except.bind] at h
  | ok middle =>
    rw [hop] at h
    exact ⟨middle, rfl, h⟩

theorem performAll_append {ops later : List Op} (h : arena.performAll (ops ++ later) = .ok next) :
    ∃ middle, arena.performAll ops = .ok middle ∧ middle.performAll later = .ok next := by
  induction ops generalizing arena with
  | nil => exact ⟨arena, rfl, h⟩
  | cons op ops ih =>
    obtain ⟨first, hfirst, hrest⟩ := performAll_cons h
    obtain ⟨middle, hmiddle, hlater⟩ := ih hrest
    refine ⟨middle, ?_, hlater⟩
    rw [performAll, List.foldlM_cons, hfirst]
    exact hmiddle

/-- A node can only take nodes that are there and belong to no other one. -/
theorem orphans_of_attach {parent : NodeId} {nodes result : Array Node} {children : List NodeId}
    (h : children.foldlM (attach parent) nodes = .ok result) :
    ∀ child ∈ children, ∃ node, nodes[child]? = some node ∧ node.parent = none := by
  induction children generalizing nodes with
  | nil => nofun
  | cons first rest ih =>
    rw [List.foldlM_cons] at h
    unfold attach at h
    split at h
    · exact absurd h (by simp [bind, Except.bind])
    · rename_i node hnode
      split at h
      · exact absurd h (by simp [bind, Except.bind])
      · rename_i horphan
        have hfirst : node.parent = none := Option.not_isSome_iff_eq_none.1 horphan
        refine List.forall_mem_cons.2 ⟨⟨node, hnode, hfirst⟩, fun child hchild => ?_⟩
        obtain ⟨taken, htaken, hparent⟩ := ih h child hchild
        rw [Array.getElem?_modify] at htaken
        split at htaken
        · rename_i heq
          obtain ⟨old, -, rfl⟩ := Option.map_eq_some_iff.1 htaken
          simp at hparent
        · exact ⟨taken, htaken, hparent⟩

theorem orphans_of_push {kind : NodeKind} {span : Span} {id : NodeId}
    (h : arena.push kind span = .ok (id, next)) :
    ∀ child ∈ kind.children, ∃ node, arena.nodes[child]? = some node ∧ node.parent = none := by
  unfold push at h
  cases hnodes : kind.children.foldlM (attach arena.size) arena.nodes with
  | error fault => simp [hnodes, bind, Except.bind] at h
  | ok nodes => exact orphans_of_attach hnodes

theorem getElem?_truncate (arena : Arena) (size id : Nat) :
    (arena.truncate size).nodes[id]? = if id < size then arena.nodes[id]? else none := by
  unfold truncate
  rw [Array.take_eq_extract, Array.getElem?_extract, Nat.zero_add, Nat.sub_zero]
  by_cases hsize : id < size
  · by_cases hnodes : id < arena.nodes.size
    · rw [if_pos (by omega), if_pos hsize]
    · rw [if_neg (by omega), if_pos hsize, Array.getElem?_eq_none (Nat.not_lt.1 hnodes)]
  · rw [if_neg (by omega), if_neg hsize]

theorem getElem?_truncate_eq_some {size id : Nat} {node : Node} :
    (arena.truncate size).nodes[id]? = some node ↔ id < size ∧ arena.nodes[id]? = some node := by
  rw [getElem?_truncate]
  split
  · rename_i h
    exact ⟨fun hnode => ⟨h, hnode⟩, And.right⟩
  · rename_i h
    exact ⟨nofun, fun hnode => absurd hnode.1 h⟩

theorem lists_truncate {size parent child : Nat} :
    (arena.truncate size).Lists parent child ↔ parent < size ∧ arena.Lists parent child := by
  unfold Lists
  simp only [getElem?_truncate_eq_some, and_assoc, exists_and_left]

theorem mem_severed {size id : Nat} : id ∈ arena.severed size ↔
    id < size ∧ ∃ node parent, arena.nodes[id]? = some node ∧ node.parent = some parent ∧
      size ≤ parent := by
  simp only [severed, List.mem_filter, List.mem_range, Option.any_eq_true, Option.bind_eq_some_iff,
    decide_eq_true_eq]
  constructor
  · rintro ⟨h, parent, ⟨node, hnode, hparent⟩, hsize⟩
    exact ⟨h, node, parent, hnode, hparent, hsize⟩
  · rintro ⟨h, node, parent, hnode, hparent, hsize⟩
    exact ⟨h, parent, ⟨node, hnode, hparent⟩, hsize⟩

end Steps

/-- What every run keeps.  Children stand before their parents and know them; a parent that does not
know its child has been dropped, and the child is stranded. -/
structure Tracked (arena : Arena) (stranded : List NodeId) : Prop where
  taken : ∀ parent child : Nat, arena.Lists parent child →
    ∃ node, arena.nodes[child]? = some node ∧ node.parent = some parent
  upward : ∀ (id : Nat) (node : Node), arena.nodes[id]? = some node →
    ∀ parent, node.parent = some parent → id < parent
  kept : ∀ (id : Nat) (node : Node), arena.nodes[id]? = some node → id ∉ stranded →
    ∀ parent, node.parent = some parent → arena.Lists parent id
  lost : ∀ id ∈ stranded, ∃ node parent, arena.nodes[id]? = some node ∧
    node.parent = some parent ∧ ¬ arena.Lists parent id

namespace Tracked
variable {arena next : Arena} {lost : List NodeId}

theorem empty : Tracked empty [] :=
  ⟨nofun, nofun, nofun, nofun⟩

/-- A node that is pushed takes orphans alone, so no link is overwritten. -/
theorem push {kind : NodeKind} {span : Span} (h : Tracked arena lost)
    (hnext : arena.push kind span = .ok (arena.size, next)) : Tracked next lost := by
  have horphans := orphans_of_push hnext
  obtain rfl : (arena.place kind ⟨span, []⟩).2 = next := by rw [push_eq_place hnext]
  -- A node has just been taken, or is an older one that was not.
  have hold : ∀ {id parent : Nat} {node : Node},
      (arena.place kind ⟨span, []⟩).2.nodes[id]? = some node → node.parent = some parent →
      (id ∈ kind.children ∧ parent = arena.size) ∨ arena.nodes[id]? = some node := by
    intro id parent node hnode hparent
    rcases getElem?_of_place kind _ hnode with rfl | hid
    · rw [getElem?_place] at hnode
      cases hnode
      cases hparent
    · rw [getElem?_place_lt kind _ hid] at hnode
      obtain ⟨old, hold, rfl⟩ := Option.map_eq_some_iff.1 hnode
      by_cases hchild : id ∈ kind.children
      · rw [if_pos hchild] at hparent
        exact .inl ⟨hchild, (Option.some.inj hparent).symm⟩
      · rw [if_neg hchild]
        exact .inr hold
  -- A node that has a parent is not taken.
  have hstays : ∀ {id parent : Nat} {node : Node}, arena.nodes[id]? = some node →
      node.parent = some parent →
      id ∉ kind.children ∧ (arena.place kind ⟨span, []⟩).2.nodes[id]? = some node := by
    intro id parent node hnode hparent
    have hchild : id ∉ kind.children := by
      intro hchild
      obtain ⟨orphan, horphan, hnone⟩ := horphans id hchild
      rw [hnode] at horphan
      cases horphan
      simp [hparent] at hnone
    have hlt := (Array.getElem?_eq_some_iff.1 hnode).1
    exact ⟨hchild, by rw [getElem?_place_lt kind _ hlt, hnode, Option.map_some, if_neg hchild]⟩
  refine ⟨fun parent child hlists => ?_, fun id node hnode parent hparent => ?_,
    fun id node hnode hid parent hparent => ?_, fun id hid => ?_⟩
  · rcases (lists_place kind _ parent child).1 hlists with ⟨rfl, hchild⟩ | hlists
    · obtain ⟨orphan, horphan, -⟩ := horphans child hchild
      have hlt := (Array.getElem?_eq_some_iff.1 horphan).1
      exact ⟨_, by rw [getElem?_place_lt kind _ hlt, horphan, Option.map_some, if_pos hchild], rfl⟩
    · obtain ⟨node, hnode, hparent⟩ := h.taken parent child hlists
      exact ⟨node, (hstays hnode hparent).2, hparent⟩
  · rcases hold hnode hparent with ⟨hchild, rfl⟩ | hnode
    · obtain ⟨orphan, horphan, -⟩ := horphans id hchild
      exact (Array.getElem?_eq_some_iff.1 horphan).1
    · exact h.upward id node hnode parent hparent
  · rcases hold hnode hparent with ⟨hchild, rfl⟩ | hnode
    · exact (lists_place kind _ _ id).2 (.inl ⟨rfl, hchild⟩)
    · exact (lists_place kind _ parent id).2 (.inr (h.kept id node hnode hid parent hparent))
  · obtain ⟨node, parent, hnode, hparent, hlists⟩ := h.lost id hid
    have hnow := hstays hnode hparent
    refine ⟨node, parent, hnow.2, hparent, fun hlisted => ?_⟩
    rcases (lists_place kind _ parent id).1 hlisted with ⟨-, hchild⟩ | hlisted
    · exact hnow.1 hchild
    · exact hlists hlisted

theorem truncate (size : Nat) (h : Tracked arena lost) :
    Tracked (arena.truncate size) (lost.filter (· < size) ++ arena.severed size) := by
  refine ⟨fun parent child hlists => ?_,
    fun id node hnode => h.upward id node (getElem?_truncate_eq_some.1 hnode).2,
    fun id node hnode hid parent hparent => ?_, fun id hid => ?_⟩
  · obtain ⟨hsize, hlists⟩ := lists_truncate.1 hlists
    obtain ⟨node, hnode, hparent⟩ := h.taken parent child hlists
    have := h.upward child node hnode parent hparent
    exact ⟨node, getElem?_truncate_eq_some.2 ⟨by omega, hnode⟩, hparent⟩
  · obtain ⟨hsize, hnode⟩ := getElem?_truncate_eq_some.1 hnode
    have hlost : id ∉ lost := fun hlost =>
      hid (List.mem_append_left _ (List.mem_filter.2 ⟨hlost, decide_eq_true hsize⟩))
    have hparents : parent < size := by
      by_contra hparents
      exact hid (List.mem_append_right _
        (mem_severed.2 ⟨hsize, node, parent, hnode, hparent, Nat.not_lt.1 hparents⟩))
    exact lists_truncate.2 ⟨hparents, h.kept id node hnode hlost parent hparent⟩
  · rcases List.mem_append.1 hid with hid | hid
    · obtain ⟨hid, hsize⟩ := List.mem_filter.1 hid
      obtain ⟨node, parent, hnode, hparent, hlists⟩ := h.lost id hid
      exact ⟨node, parent, getElem?_truncate_eq_some.2 ⟨of_decide_eq_true hsize, hnode⟩, hparent,
        fun hnow => hlists (lists_truncate.1 hnow).2⟩
    · obtain ⟨hsize, node, parent, hnode, hparent, hparents⟩ := mem_severed.1 hid
      exact ⟨node, parent, getElem?_truncate_eq_some.2 ⟨hsize, hnode⟩, hparent,
        fun hnow => absurd (lists_truncate.1 hnow).1 (Nat.not_lt.2 hparents)⟩

theorem perform {op : Op} (h : Tracked arena lost) (hnext : arena.perform op = .ok next) :
    Tracked next (arena.strand lost op) := by
  cases op with
  | push kind span => exact h.push (perform_push hnext)
  | truncate size =>
    cases hnext
    exact h.truncate size
  | setRoot id =>
    cases hnext
    exact ⟨h.taken, h.upward, h.kept, h.lost⟩

theorem performAll {ops : List Op} (h : Tracked arena lost)
    (hnext : arena.performAll ops = .ok next) : Tracked next (arena.strandAll lost ops) := by
  induction ops generalizing arena lost with
  | nil =>
    cases hnext
    exact h
  | cons op ops ih =>
    obtain ⟨middle, hop, hrest⟩ := performAll_cons hnext
    simp only [strandAll, hop]
    exact ih (h.perform hop) hrest

/-- The links of an arena are right unless a node is stranded. -/
theorem linked_iff (h : Tracked arena lost) : arena.Linked ↔ lost = [] := by
  constructor
  · intro hlinked
    refine List.eq_nil_iff_forall_not_mem.2 fun id hid => ?_
    obtain ⟨node, parent, hnode, hparent, hlists⟩ := h.lost id hid
    exact hlists ((hlinked id node hnode parent).1 hparent)
  · rintro rfl id node hnode parent
    refine ⟨h.kept id node hnode List.not_mem_nil parent, fun hlists => ?_⟩
    obtain ⟨same, hsame, hparent⟩ := h.taken parent id hlists
    rw [hnode] at hsame
    cases hsame
    exact hparent

theorem isTopLevel (h : Tracked arena []) {id : Nat} {node : Node}
    (hnode : arena.nodes[id]? = some node) : ∃ top, arena.isTopLevel id = .ok top ∧
      (top = true ↔ ∃ (parent : Nat) (above : Node), arena.nodes[parent]? = some above ∧
        above.kind.isProgram = true ∧ id ∈ above.kind.children) := by
  have hlinked := h.linked_iff.2 rfl id node hnode
  cases hparent : node.parent with
  | none =>
    refine ⟨false, ?_, nofun, ?_⟩
    · simp only [Arena.isTopLevel, Arena.node, hnode, hparent, bind, Except.bind]
      rfl
    rintro ⟨parent, above, habove, -, hchild⟩
    have hsome := (hlinked parent).2 ⟨above, habove, hchild⟩
    simp [hparent] at hsome
  | some parent =>
    obtain ⟨above, habove, hchild⟩ := (hlinked parent).1 hparent
    refine ⟨above.kind.isProgram, ?_, fun htop => ⟨parent, above, habove, htop, hchild⟩, ?_⟩
    · simp only [Arena.isTopLevel, Arena.node, hnode, hparent, habove, bind, Except.bind]
      rfl
    rintro ⟨other, otherAbove, hother, htop, hlisted⟩
    have hsame := (hlinked other).2 ⟨otherAbove, hother, hlisted⟩
    rw [hparent] at hsame
    cases hsame
    rw [habove] at hother
    cases hother
    exact htop

/-- The way up ends: each step leads to a node that stands later. -/
theorem functionFrom (h : Tracked arena []) (bound : Nat) {id : Nat} {node : Node}
    (hnode : arena.nodes[id]? = some node) (hbound : arena.size ≤ id + bound) :
    ∃ found, arena.functionFrom bound node.parent = .ok found ∧ arena.Around id found := by
  have hlinked := h.linked_iff.2 rfl
  induction bound generalizing id node with
  | zero =>
    have hlt := (Array.getElem?_eq_some_iff.1 hnode).1
    exact absurd hlt (Nat.not_lt.2 hbound)
  | succ bound ih =>
    cases hparent : node.parent with
    | none =>
      refine ⟨none, rfl, .nothing fun parent hlists => ?_⟩
      have hsome := (hlinked id node hnode parent).2 hlists
      simp [hparent] at hsome
    | some parent =>
      have hlists := (hlinked id node hnode parent).1 hparent
      have hlater := h.upward id node hnode parent hparent
      have ⟨above, habove, _⟩ := hlists
      by_cases hkind : ∃ name params returns body, above.kind = .function name params returns body
      · obtain ⟨name, params, returns, body, hkind⟩ := hkind
        refine ⟨some parent, ?_, .function hlists habove hkind⟩
        simp only [Arena.functionFrom, Arena.node, habove, hkind, bind, Except.bind, pure,
          Except.pure]
      · have hother : ∀ name params returns body, above.kind ≠ .function name params returns body :=
          fun name params returns body hfunction => hkind ⟨name, params, returns, body, hfunction⟩
        obtain ⟨found, hfound, haround⟩ := ih habove (by omega)
        refine ⟨found, ?_, .above hlists habove hother haround⟩
        simp only [Arena.functionFrom, Arena.node, habove, bind, Except.bind]
        exact hfound

theorem enclosingFunction (h : Tracked arena []) {id : Nat} {node : Node}
    (hnode : arena.nodes[id]? = some node) :
    ∃ found, arena.enclosingFunction id = .ok found ∧ arena.Around id found := by
  obtain ⟨found, hfound, haround⟩ := h.functionFrom (arena.size + 1) hnode (by omega)
  refine ⟨found, ?_, haround⟩
  simp only [Arena.enclosingFunction, Arena.node, hnode, bind, Except.bind]
  exact hfound

end Tracked

/-- The arena holds what an earlier one held.  Since then nodes have been added, and some of the old
ones have become children of new ones. -/
structure Extends (old now : Arena) : Prop where
  size : old.size ≤ now.size
  node : ∀ (id : Nat) (node : Node), old.nodes[id]? = some node →
    ∃ parent, now.nodes[id]? = some { node with parent } ∧
      (parent = node.parent ∨ ∃ above, parent = some above ∧ old.size ≤ above)

namespace Extends
variable {old now next : Arena}

theorem refl (arena : Arena) : Extends arena arena := by
  refine ⟨Nat.le_refl _, fun _ node hnode => ?_⟩
  exact ⟨node.parent, hnode, .inl rfl⟩

theorem perform {op : Op} (h : Extends old now) (hnext : now.perform op = .ok next)
    (hop : ∀ size, op = .truncate size → old.size ≤ size) : Extends old next := by
  have hsize := h.size
  cases op with
  | push kind span =>
    have hplace := push_eq_place (perform_push hnext)
    obtain rfl : (now.place kind ⟨span, []⟩).2 = next := by rw [hplace]
    refine ⟨by rw [size_place]; omega, fun id node hnode => ?_⟩
    obtain ⟨parent, hnow, hparent⟩ := h.node id node hnode
    have hlt := (Array.getElem?_eq_some_iff.1 hnow).1
    rw [getElem?_place_lt kind _ hlt, hnow]
    by_cases hchild : id ∈ kind.children
    · exact ⟨some now.size, by rw [Option.map_some, if_pos hchild], .inr ⟨now.size, rfl, hsize⟩⟩
    · exact ⟨parent, by rw [Option.map_some, if_neg hchild], hparent⟩
  | truncate size =>
    have hle := hop size rfl
    cases hnext
    refine ⟨?_, fun id node hnode => ?_⟩
    · simp only [Arena.size, truncate, Array.take_eq_extract, Array.size_extract] at hsize hle ⊢
      omega
    · obtain ⟨parent, hnow, hparent⟩ := h.node id node hnode
      have hlt : id < old.size := (Array.getElem?_eq_some_iff.1 hnode).1
      exact ⟨parent, getElem?_truncate_eq_some.2 ⟨by omega, hnow⟩, hparent⟩
  | setRoot id =>
    cases hnext
    exact ⟨hsize, h.node⟩

theorem performAll {ops : List Op} (h : Extends old now) (hnext : now.performAll ops = .ok next)
    (hops : ∀ size, .truncate size ∈ ops → old.size ≤ size) : Extends old next := by
  induction ops generalizing now with
  | nil =>
    cases hnext
    exact h
  | cons op ops ih =>
    obtain ⟨middle, hop, hrest⟩ := performAll_cons hnext
    refine ih (h.perform hop fun size hsize => hops size ?_) hrest
      fun size hmem => hops size (List.mem_cons_of_mem _ hmem)
    rw [hsize]
    exact List.mem_cons_self

/-- Dropping all nodes that have been added since gives the old ones back, unless one of them is
stranded by that. -/
theorem truncate_nodes (h : Extends old now) (hlinked : (now.truncate old.size).Linked) :
    (now.truncate old.size).nodes = old.nodes := by
  refine Array.ext_getElem? fun id => ?_
  rw [getElem?_truncate]
  cases hnode : old.nodes[id]? with
  | none =>
    exact if_neg (Nat.not_lt.2 (Array.getElem?_eq_none_iff.1 hnode))
  | some node =>
    have hlt : id < old.size := (Array.getElem?_eq_some_iff.1 hnode).1
    obtain ⟨parent, hnow, rfl | ⟨above, rfl, hle⟩⟩ := h.node id node hnode
    · rw [if_pos hlt, hnow]
    · have hstays := getElem?_truncate_eq_some.2 ⟨hlt, hnow⟩
      have hlists := (hlinked id _ hstays above).1 rfl
      exact absurd (lists_truncate.1 hlists).1 (Nat.not_lt.2 hle)

end Extends

theorem root_perform {op : Op} {arena next : Arena} (h : arena.perform op = .ok next)
    (hset : ∀ id, op ≠ .setRoot id)
    (hroot : ∀ size, op = .truncate size → ∀ root, arena.root = some root → root < size) :
    next.root = arena.root := by
  cases op with
  | push kind span =>
    have hplace := push_eq_place (perform_push h)
    obtain rfl : (arena.place kind ⟨span, []⟩).2 = next := by rw [hplace]
    rfl
  | truncate size =>
    cases h
    change arena.root.filter (· < size) = arena.root
    cases hsome : arena.root with
    | none => rfl
    | some root => rw [Option.filter_some, if_pos (decide_eq_true (hroot size rfl root hsome))]
  | setRoot id => exact absurd rfl (hset id)

/-- The root stays while nobody names another one and no truncation reaches it. -/
theorem root_performAll {ops : List Op} {arena next : Arena}
    (h : arena.performAll ops = .ok next) (hset : ∀ id, .setRoot id ∉ ops)
    (hroot : ∀ size, .truncate size ∈ ops → ∀ root, arena.root = some root → root < size) :
    next.root = arena.root := by
  induction ops generalizing arena with
  | nil =>
    cases h
    rfl
  | cons op ops ih =>
    obtain ⟨middle, hop, hrest⟩ := performAll_cons h
    have hkeeps : middle.root = arena.root := by
      refine root_perform hop (fun id heq => hset id ?_) (fun size heq => hroot size ?_)
      all_goals
        rw [heq]
        exact List.mem_cons_self
    rw [← hkeeps]
    refine ih hrest (fun id hmem => hset id (List.mem_cons_of_mem _ hmem)) fun size hmem => ?_
    rw [hkeeps]
    exact hroot size (List.mem_cons_of_mem _ hmem)

/-- Links and lists of children agree in exactly those arenas in which no node is stranded.  There
every link points into the arena, the questions that follow links are answered, and for an arena
that had as many nodes before, the nodes are the ones it had then.  So is the root, if no other one
has been named since. -/
theorem run_links {ops : List Op} {arena : Arena} (hrun : empty.performAll ops = .ok arena) :
    (arena.Linked ↔ stranded ops = []) ∧
    (stranded ops = [] →
      (∀ (id : Nat) (node : Node), arena.nodes[id]? = some node →
        (∀ parent, node.parent = some parent → parent < arena.size) ∧
        (∃ top, arena.isTopLevel id = .ok top ∧
          (top = true ↔ ∃ (parent : Nat) (above : Node), arena.nodes[parent]? = some above ∧
            above.kind.isProgram = true ∧ id ∈ above.kind.children)) ∧
        ∃ found, arena.enclosingFunction id = .ok found ∧ arena.Around id found) ∧
      ∀ (earlier later : List Op) (old : Arena), ops = earlier ++ later ++ [.truncate old.size] →
        empty.performAll earlier = .ok old → (∀ size, .truncate size ∈ later → old.size ≤ size) →
        arena.nodes = old.nodes ∧
          ((∀ id, .setRoot id ∉ later) → (∀ root, old.root = some root → root < old.size) →
            arena = old)) := by
  have htracked : Tracked arena (stranded ops) := Tracked.empty.performAll hrun
  refine ⟨htracked.linked_iff, fun hstranded => ?_⟩
  have hlinked := htracked.linked_iff.2 hstranded
  rw [hstranded] at htracked
  refine ⟨fun id node hnode => ⟨fun parent hparent => ?_, htracked.isTopLevel hnode,
    htracked.enclosingFunction hnode⟩, fun earlier later old hops hold hsizes => ?_⟩
  · exact ((hlinked id node hnode parent).1 hparent).lt_size
  · subst hops
    rw [List.append_assoc] at hrun
    obtain ⟨old', hold', hlater⟩ := performAll_append hrun
    rw [hold] at hold'
    cases hold'
    have hnodes : arena.nodes = old.nodes := by
      obtain ⟨before, hbefore, hlast⟩ := performAll_append hlater
      obtain ⟨cut, hcut, hnone⟩ := performAll_cons hlast
      cases hcut
      cases hnone
      exact ((Extends.refl old).performAll hbefore hsizes).truncate_nodes hlinked
    refine ⟨hnodes, fun hset hroot => ?_⟩
    have hkeeps : arena.root = old.root := by
      refine root_performAll hlater (fun id hmem => ?_) fun size hmem root hsome => ?_
      · rcases List.mem_append.1 hmem with hmem | hmem
        · exact hset id hmem
        · exact absurd hmem (by simp)
      · have hlt := hroot root hsome
        rcases List.mem_append.1 hmem with hmem | hmem
        · exact Nat.lt_of_lt_of_le hlt (hsizes size hmem)
        · cases List.mem_singleton.1 hmem
          exact hlt
    exact congrArg₂ Arena.mk hnodes hkeeps

/-- `null` stays as it was when what is behind it is dropped together with its own parts. -/
theorem run_links_given_up : ∃ arena old : Arena,
    empty.performAll ([.push .null ⟨0, 4, 1, 0⟩] ++
      [.push (.boolean true) ⟨6, 10, 1, 6⟩, .push (.parenthesized 1) ⟨5, 11, 1, 5⟩] ++
      [.truncate old.size]) = .ok arena ∧
    empty.performAll [.push .null ⟨0, 4, 1, 0⟩] = .ok old ∧ old.size = 1 ∧ arena.Linked ∧
    (∃ found, arena.enclosingFunction 0 = .ok found ∧ arena.Around 0 found) ∧ arena = old := by
  refine ⟨_, ⟨#[⟨.null, ⟨0, 4, 1, 0⟩, none, [], none⟩], none⟩, rfl, rfl, rfl, ?_⟩
  have hlinks := @run_links ([.push .null ⟨0, 4, 1, 0⟩] ++
    [.push (.boolean true) ⟨6, 10, 1, 6⟩, .push (.parenthesized 1) ⟨5, 11, 1, 5⟩] ++
    [.truncate 1]) _ rfl
  obtain ⟨hasked, hback⟩ := hlinks.2 rfl
  have hsizes : ∀ size, Op.truncate size ∈
      [.push (.boolean true) ⟨6, 10, 1, 6⟩, .push (.parenthesized 1) ⟨5, 11, 1, 5⟩] → 1 ≤ size := by
    simp
  exact ⟨hlinks.1.2 rfl, (hasked 0 _ rfl).2.2,
    (hback _ _ _ rfl rfl hsizes).2 (by simp) nofun⟩

/-- A parenthesis around `null` that is dropped alone: `null` keeps a link to the place that is
empty now, so the arena is not the one that held `null` before, and the questions that follow the
link have no answer. -/
theorem truncate_strands : ∃ stale old : Arena,
    empty.performAll [.push .null ⟨0, 4, 1, 0⟩, .push (.parenthesized 0) ⟨0, 6, 1, 0⟩, .truncate 1] =
      .ok stale ∧
    empty.performAll [.push .null ⟨0, 4, 1, 0⟩] = .ok old ∧ old.size = 1 ∧ stale.nodes ≠ old.nodes ∧
    ¬ stale.Linked ∧ stale.isTopLevel 0 = .error (.outOfRange 1 1) ∧
    stale.enclosingFunction 0 = .error (.outOfRange 1 1) := by
  refine ⟨_, _, rfl, rfl, rfl, by decide, fun hlinked => ?_, rfl, rfl⟩
  obtain ⟨above, habove, -⟩ := (hlinked 0 _ rfl 1).1 rfl
  cases habove

theorem tracked_ofProgram (p : Program Mark) : Tracked (ofProgram p) [] := by
  obtain ⟨hlaid, -⟩ := p.store_laid .empty
  have hparent : ∀ (id : Nat) (node : Node), (ofProgram p).nodes[id]? = some node →
      ∀ parent : Nat, node.parent = some parent ↔ (ofProgram p).Lists parent id := by
    intro id node hnode parent
    exact (hlaid.parent id node (Nat.zero_le _) hnode parent).trans
      (and_iff_right (Nat.zero_le _))
  refine ⟨fun parent child hlists => ?_, fun id node hnode parent hnamed => ?_,
    fun id node hnode _ parent => (hparent id node hnode parent).1, nofun⟩
  · have hbelow := (hlaid.inside parent child (Nat.zero_le _) hlists).2
    have hlt : child < (ofProgram p).size := Nat.lt_trans hbelow hlists.lt_size
    have hnode : (ofProgram p).nodes[child]? = some (ofProgram p).nodes[child] :=
      Array.getElem?_eq_getElem hlt
    exact ⟨_, hnode, (hparent child _ hnode parent).2 hlists⟩
  · exact (hlaid.inside parent id (Nat.zero_le _) ((hparent id node hnode parent).1 hnamed)).2

end CatScript.Arena
