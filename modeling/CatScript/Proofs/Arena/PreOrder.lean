import Mathlib.Logic.Relation
import CatScript.Proofs.Arena.PostOrder

/-! # Diagnostics in pre-order

A node comes before its children, and these one after the other (`PreOrder`).  In a forest the nodes
that can be reached from a node have one such order, and each of them stands there once.  A work
list that takes its last node and puts the children of that node at its end, the first one last,
goes through them in that order (`PreOrder.collect`), and the table of all reports holds at a node
what is wrong with the nodes of its order (`PreOrder.reports`). -/
set_option autoImplicit false
namespace CatScript
open Relation (ReflTransGen)

mutual

/-- `order` is the pre-order of the tree under the node `id`. -/
inductive PreOrder (arena : Arena) : (id : NodeId) → (order : List NodeId) → Prop where
  | node {id : NodeId} {node : Node} {below : List NodeId} : arena.nodes[id]? = some node →
      PreOrderAll arena node.kind.children below → PreOrder arena id (id :: below)

inductive PreOrderAll (arena : Arena) : (ids order : List NodeId) → Prop where
  | nil : PreOrderAll arena [] []
  | cons {id : NodeId} {ids first rest : List NodeId} : PreOrder arena id first →
      PreOrderAll arena ids rest → PreOrderAll arena (id :: ids) (first ++ rest)

end

namespace Arena

/-- Children come before their parents, and a node is listed once, by one node alone. -/
structure Forest (arena : Arena) : Prop where
  below : ∀ parent child : Nat, arena.Lists parent child → child < parent
  single : ∀ parent other child : Nat, arena.Lists parent child → arena.Lists other child →
    parent = other
  once : ∀ (id : Nat) (node : Node), arena.nodes[id]? = some node → node.kind.children.Nodup

def Marked (arena : Arena) (errors : NodeId → List Diagnostic) : Prop :=
  ∀ (id : Nat) (node : Node), arena.nodes[id]? = some node → node.errors = errors id

/-- A work list of nodes whose diagnostics are still to be added to those that were found.  Each
pass takes the last node, adds its own diagnostics and puts its children in its place, the first of
them last.  There is no result if a node is missing or the work is not done within so many
passes. -/
def collect (arena : Arena) : (passes : Nat) → (pending : List NodeId) →
    (found : List Diagnostic) → Option (List Diagnostic)
  | 0, pending, found => if pending = [] then some found else none
  | passes + 1, pending, found =>
    match pending.getLast? with
    | none => some found
    | some id => do
      let node ← arena.nodes[id]?
      arena.collect passes (pending.dropLast ++ node.kind.children.reverse) (found ++ node.errors)

section Lists
variable {arena : Arena} {id child : Nat} {node : Node}

theorem lists_iff (hnode : arena.nodes[id]? = some node) :
    arena.Lists id child ↔ child ∈ node.kind.children := by
  unfold Lists
  rw [hnode]
  simp

end Lists

namespace Forest
variable {arena : Arena}

theorem le_of_reach (h : arena.Forest) {id other : Nat}
    (hreach : ReflTransGen arena.Lists id other) : other ≤ id := by
  induction hreach with
  | refl => exact Nat.le_refl _
  | tail _ hlists ih => exact Nat.le_trans (Nat.le_of_lt (h.below _ _ hlists)) ih

/-- What two children of a node both reach is not there: the way up from a node is one. -/
theorem eq_of_reach (h : arena.Forest) {parent id other found : Nat} (hid : arena.Lists parent id)
    (hother : arena.Lists parent other) (hreach : ReflTransGen arena.Lists id found)
    (hreach' : ReflTransGen arena.Lists other found) : id = other := by
  have hup : ∀ {low high : Nat}, arena.Lists parent low → arena.Lists parent high →
      ReflTransGen arena.Lists high low → high = low := by
    intro low high hlow hhigh hdown
    rcases hdown.cases_tail with heq | ⟨above, habove, hlists⟩
    · exact heq.symm
    · obtain rfl := h.single _ _ _ hlow hlists
      have hle := h.le_of_reach habove
      have hlt := h.below _ _ hhigh
      omega
  have hunique : Relator.RightUnique (Function.swap arena.Lists) :=
    fun child above above' habove habove' => h.single _ _ _ habove habove'
  rw [← Relation.reflTransGen_swap] at hreach hreach'
  rcases hreach.total_of_right_unique hunique hreach' with hway | hway
  · exact (hup hid hother (Relation.reflTransGen_swap.1 hway)).symm
  · exact hup hother hid (Relation.reflTransGen_swap.1 hway)

/-- The table of reports holds at a node what is wrong with it and below it. -/
theorem report (h : arena.Forest) {id : Nat} {node : Node} (hnode : arena.nodes[id]? = some node) :
    arena.reports[id]? =
      some (node.errors ++ node.kind.children.flatMap fun child => arena.reports[child]?.getD []) := by
  have hrow : Stands arena (⟨id, node.span, node.errors, node.ty⟩, node.kind) :=
    ⟨⟨node.parent, hnode⟩, fun child hchild => h.below id child ((lists_iff hnode).2 hchild)⟩
  exact hrow.report

end Forest
end Arena

section Orders
variable {arena : Arena}

theorem PreOrderAll.exists_order {ids : List NodeId}
    (h : ∀ id ∈ ids, ∃ order, PreOrder arena id order) : ∃ order, PreOrderAll arena ids order := by
  induction ids with
  | nil => exact ⟨[], .nil⟩
  | cons id ids ih =>
    obtain ⟨first, hfirst⟩ := h id List.mem_cons_self
    obtain ⟨rest, hrest⟩ := ih fun other hother => h other (List.mem_cons_of_mem _ hother)
    exact ⟨first ++ rest, .cons hfirst hrest⟩

/-- Every node has an order, by recursion on its place. -/
theorem PreOrder.exists_order (h : arena.Forest) (id : Nat) (hid : id < arena.size) :
    ∃ order, PreOrder arena id order := by
  induction id using Nat.strongRecOn with
  | ind id ih =>
    have hnode := Array.getElem?_eq_getElem hid
    have hbelow : ∀ child ∈ arena.nodes[id].kind.children, ∃ order, PreOrder arena child order := by
      intro child hchild
      have hlt := h.below id child ((Arena.lists_iff hnode).2 hchild)
      exact ih child hlt (Nat.lt_trans hlt hid)
    obtain ⟨below, hbelow⟩ := PreOrderAll.exists_order hbelow
    exact ⟨id :: below, .node hnode hbelow⟩

mutual

theorem PreOrder.mem_iff {other : NodeId} : {id : NodeId} → {order : List NodeId} →
    PreOrder arena id order → (other ∈ order ↔ ReflTransGen arena.Lists id other)
  | id, _, .node hnode hbelow => by
    rw [List.mem_cons, hbelow.mem_iff, ReflTransGen.cases_head_iff, eq_comm]
    simp only [Arena.lists_iff hnode]

theorem PreOrderAll.mem_iff {other : NodeId} : {ids order : List NodeId} →
    PreOrderAll arena ids order → (other ∈ order ↔ ∃ id ∈ ids, ReflTransGen arena.Lists id other)
  | _, _, .nil => by simp
  | _, _, .cons hfirst hrest => by
    rw [List.mem_append, hfirst.mem_iff, hrest.mem_iff]
    simp

end

mutual

theorem PreOrder.nodup (h : arena.Forest) : {id : NodeId} → {order : List NodeId} →
    PreOrder arena id order → order.Nodup
  | id, _, .node hnode hbelow => by
    refine List.nodup_cons.2 ⟨fun hmem => ?_,
      hbelow.nodup h (fun child hchild => (Arena.lists_iff hnode).2 hchild) (h.once id _ hnode)⟩
    obtain ⟨child, hchild, hreach⟩ := hbelow.mem_iff.1 hmem
    have hlt := h.below id child ((Arena.lists_iff hnode).2 hchild)
    have hle := h.le_of_reach hreach
    omega

theorem PreOrderAll.nodup (h : arena.Forest) {parent : NodeId} : {ids order : List NodeId} →
    PreOrderAll arena ids order → (∀ id ∈ ids, arena.Lists parent id) → ids.Nodup → order.Nodup
  | _, _, .nil, _, _ => List.nodup_nil
  | _, _, .cons hfirst hrest, hids, hnodup => by
    obtain ⟨hid, hids⟩ := List.forall_mem_cons.1 hids
    obtain ⟨hnot, hnodup⟩ := List.nodup_cons.1 hnodup
    refine List.nodup_append.2 ⟨hfirst.nodup h, hrest.nodup h hids hnodup, ?_⟩
    rintro found hfound _ hlater rfl
    obtain ⟨other, hother, hreach⟩ := hrest.mem_iff.1 hlater
    obtain rfl := h.eq_of_reach hid (hids other hother) (hfirst.mem_iff.1 hfound) hreach
    exact hnot hother

end

variable {errors : NodeId → List Diagnostic}

mutual

/-- The work list goes through a tree in order, one node a pass, and then on with what it had
before. -/
theorem PreOrder.collect (herrors : arena.Marked errors) {passes : Nat}
    {pending : List NodeId} {found : List Diagnostic} : {id : NodeId} → {order : List NodeId} →
    PreOrder arena id order →
    arena.collect (order.length + passes) (pending ++ [id]) found =
      arena.collect passes pending (found ++ order.flatMap errors)
  | id, _, .node hnode hbelow => by
    rw [List.length_cons, Nat.add_right_comm, Arena.collect, List.getLast?_concat,
      List.dropLast_concat]
    simp only [hnode, Option.bind_eq_bind, Option.bind_some, herrors id _ hnode]
    rw [hbelow.collect herrors, List.flatMap_cons, List.append_assoc]

theorem PreOrderAll.collect (herrors : arena.Marked errors) {passes : Nat}
    {pending : List NodeId} {found : List Diagnostic} : {ids order : List NodeId} →
    PreOrderAll arena ids order →
    arena.collect (order.length + passes) (pending ++ ids.reverse) found =
      arena.collect passes pending (found ++ order.flatMap errors)
  | _, _, .nil => by simp
  | _, _, .cons hfirst hrest => by
    rw [List.length_append, Nat.add_assoc, List.reverse_cons, ← List.append_assoc,
      hfirst.collect herrors, hrest.collect herrors, List.flatMap_append, List.append_assoc]

end

mutual

theorem PreOrder.reports (h : arena.Forest) (herrors : arena.Marked errors) :
    {id : NodeId} → {order : List NodeId} → PreOrder arena id order →
    arena.reports[id]? = some (order.flatMap errors)
  | id, _, .node hnode hbelow => by
    rw [h.report hnode, List.flatMap_cons, ← hbelow.reports h herrors, herrors id _ hnode]

theorem PreOrderAll.reports (h : arena.Forest) (herrors : arena.Marked errors) :
    {ids order : List NodeId} → PreOrderAll arena ids order →
    (ids.flatMap fun id => arena.reports[id]?.getD []) = order.flatMap errors
  | _, _, .nil => rfl
  | _, _, .cons hfirst hrest => by
    rw [List.flatMap_cons, hfirst.reports h herrors, hrest.reports h herrors, List.flatMap_append]
    rfl

end

end Orders
end CatScript
