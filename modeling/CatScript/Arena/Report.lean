import CatScript.Arena.Basic

/-! # The diagnostics of an arena

All diagnostics of the tree under the root: a node's own before those of its children, then sorted
by where they start.  Sorting keeps the order of those that start together (`sorted_sort`,
`sort_perm`). -/
set_option autoImplicit false
namespace CatScript

namespace Diagnostic

/-- Puts a diagnostic in front of those that start at the same place or later. -/
def insert (diagnostic : Diagnostic) : List Diagnostic → List Diagnostic
  | [] => [diagnostic]
  | other :: rest =>
    if diagnostic.span.start ≤ other.span.start then diagnostic :: other :: rest
    else other :: insert diagnostic rest

def sort : List Diagnostic → List Diagnostic
  | [] => []
  | diagnostic :: rest => insert diagnostic (sort rest)

def Sorted (diagnostics : List Diagnostic) : Prop :=
  diagnostics.Pairwise fun a b => a.span.start ≤ b.span.start

theorem insert_perm (diagnostic : Diagnostic) (list : List Diagnostic) :
    (insert diagnostic list).Perm (diagnostic :: list) := by
  induction list with
  | nil => exact .refl _
  | cons other rest ih =>
    unfold insert
    split
    · exact .refl _
    · exact (ih.cons other).trans (.swap ..)

theorem sort_perm (list : List Diagnostic) : (sort list).Perm list := by
  induction list with
  | nil => exact .refl _
  | cons diagnostic rest ih => exact (insert_perm ..).trans (ih.cons diagnostic)

theorem sorted_insert {diagnostic : Diagnostic} {list : List Diagnostic} (h : Sorted list) :
    Sorted (insert diagnostic list) := by
  induction list with
  | nil => exact List.pairwise_singleton ..
  | cons other rest ih =>
    have ⟨first, tail⟩ := List.pairwise_cons.1 h
    unfold insert
    split
    · rename_i hle
      refine List.pairwise_cons.2 ⟨fun d hd => ?_, h⟩
      rcases List.mem_cons.1 hd with rfl | hd
      · exact hle
      · exact Nat.le_trans hle (first d hd)
    · rename_i hle
      refine List.pairwise_cons.2 ⟨fun d hd => ?_, ih tail⟩
      rcases List.mem_cons.1 ((insert_perm diagnostic rest).mem_iff.1 hd) with rfl | hd
      · omega
      · exact first d hd

theorem sorted_sort (list : List Diagnostic) : Sorted (sort list) := by
  induction list with
  | nil => exact List.Pairwise.nil
  | cons diagnostic rest ih => exact sorted_insert ih

end Diagnostic

namespace Arena

/-- The diagnostics of a node and of what is under it, when `below` holds those of the nodes before
it. -/
def reportOf (below : Array (List Diagnostic)) (node : Node) : List Diagnostic :=
  node.errors ++ node.kind.children.flatMap fun child => below[child]?.getD []

def reports (arena : Arena) : Array (List Diagnostic) :=
  arena.nodes.foldl (fun below node => below.push (reportOf below node)) #[]

/-- The diagnostics of the tree under the root, in the order of the source. -/
def diagnostics (arena : Arena) : Except Fault (List Diagnostic) :=
  match arena.root with
  | none => .ok []
  | some root =>
    match arena.reports[root]? with
    | some report => .ok (Diagnostic.sort report)
    | none => .error (.outOfRange arena.size root)

end Arena
end CatScript
