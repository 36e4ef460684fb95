import CatScript.Proofs.Arena.Links
import CatScript.Proofs.Arena.PreOrder
import CatScript.Proofs.Typing.Shape

/-! # Diagnostics of an arena that is built

Whoever builds an arena pushes nodes, names a root among them, and adds diagnostics to nodes, at the
span of the node or at another one (`Edit`).  What was added to a node can be told from the edits
alone (`added`).  The diagnostics of the arena are those of the nodes under the root, sorted by where
they start, and those that start together in the pre-order of their nodes and in the order they were
added (`diagnostics_built`): none is lost, and none comes in from a node that is not there. -/
set_option autoImplicit false
namespace CatScript
open Relation (ReflTransGen)

namespace Diagnostic

/-- The diagnostics `report` are `found`, each as often, sorted by where they start; those that
start together come in the order they have in `found`. -/
structure Arranged (found report : List Diagnostic) : Prop where
  perm : report.Perm found
  sorted : Sorted report
  stable : ∀ start : Nat, report.filter (fun diagnostic => diagnostic.span.start = start) =
    found.filter fun diagnostic => diagnostic.span.start = start

/-- A diagnostic is put behind none that starts with it. -/
theorem filter_insert (start : Nat) (diagnostic : Diagnostic) (list : List Diagnostic) :
    (insert diagnostic list).filter (fun other => other.span.start = start) =
      (diagnostic :: list).filter fun other => other.span.start = start := by
  induction list with
  | nil => rfl
  | cons other rest ih =>
    unfold insert
    split
    · rfl
    · next hle =>
      simp only [List.filter_cons, ih]
      by_cases hother : other.span.start = start
      · have hnot : ¬ diagnostic.span.start = start := by omega
        simp [hother, hnot]
      · simp [hother]

theorem arranged_sort (found : List Diagnostic) : Arranged found (sort found) := by
  refine ⟨sort_perm found, sorted_sort found, fun start => ?_⟩
  induction found with
  | nil => rfl
  | cons diagnostic rest ih =>
    rw [sort, filter_insert, List.filter_cons, List.filter_cons, ih]

end Diagnostic

namespace Arena

/-- A step of whoever builds a tree and says what is wrong with it. -/
inductive Edit where
  | push (kind : NodeKind) (span : Span)
  | setRoot (id : NodeId)
  | addError (id : NodeId) (problem : Problem)
  | addErrorAt (id : NodeId) (problem : Problem) (span : Span)

/-- Takes one step.  Only a node that is there can become the root. -/
def edit (arena : Arena) : Edit → Except Fault Arena
  | .push kind span => Prod.snd <$> arena.push kind span
  | .setRoot id => do
    let _ ← arena.node id
    return arena.setRoot id
  | .addError id problem => do
    let node ← arena.node id
    arena.report id ⟨problem, node.span⟩
  | .addErrorAt id problem span => arena.report id ⟨problem, span⟩

def editAll (arena : Arena) (edits : List Edit) : Except Fault Arena :=
  edits.foldlM edit arena

def pushedSpans (edits : List Edit) : List Span :=
  edits.filterMap fun
    | .push _ span => some span
    | _ => none

/-- What a step adds to the node `id`, where `spans` are the spans of the nodes. -/
def Edit.adds (spans : List Span) (id : NodeId) : Edit → Option Diagnostic
  | .addError target problem =>
    if target = id then spans[id]?.map (Diagnostic.mk problem) else none
  | .addErrorAt target problem span => if target = id then some ⟨problem, span⟩ else none
  | .push .. | .setRoot _ => none

def added (edits : List Edit) (id : NodeId) : List Diagnostic :=
  edits.filterMap (Edit.adds (pushedSpans edits) id)

section Steps
variable {arena next : Arena} {edits : List Edit}

theorem editAll_cons {step : Edit} (h : arena.editAll (step :: edits) = .ok next) :
    ∃ middle, arena.edit step = .ok middle ∧ middle.editAll edits = .ok next := by
  unfold editAll at h
  rw [List.foldlM_cons] at h
  exact Except.bind_ok h

theorem node_ok {id : Nat} {node : Node} (h : arena.node id = .ok node) :
    arena.nodes[id]? = some node := by
  unfold Arena.node at h
  split at h
  · next hnode =>
    cases h
    exact hnode
  · cases h

theorem nodup_of_attach {parent : NodeId} {nodes result : Array Node} {children : List NodeId}
    (h : children.foldlM (attach parent) nodes = .ok result) : children.Nodup := by
  induction children generalizing nodes with
  | nil => exact List.nodup_nil
  | cons first rest ih =>
    rw [List.foldlM_cons] at h
    obtain ⟨middle, hfirst, hrest⟩ := Except.bind_ok h
    refine List.nodup_cons.2 ⟨fun hmem => ?_, ih hrest⟩
    obtain ⟨taken, htaken, hparent⟩ := orphans_of_attach hrest first hmem
    unfold attach at hfirst
    split at hfirst
    · cases hfirst
    · split at hfirst
      · cases hfirst
      · cases hfirst
        rw [Array.getElem?_modify, if_pos rfl] at htaken
        obtain ⟨old, -, rfl⟩ := Option.map_eq_some_iff.1 htaken
        cases hparent

theorem report_ok {id : Nat} {diagnostic : Diagnostic}
    (h : arena.report id diagnostic = .ok next) : id < arena.size ∧ next.root = arena.root ∧
      next.size = arena.size ∧ ∀ other : Nat, next.nodes[other]? = arena.nodes[other]?.map
        fun node => { node with
          errors := node.errors ++ if id = other then [diagnostic] else [] } := by
  obtain ⟨node, hnode, hnext⟩ := Except.bind_ok h
  cases hnext
  refine ⟨(Array.getElem?_eq_some_iff.1 (node_ok hnode)).1, rfl, Array.size_modify .., ?_⟩
  intro other
  rw [Array.getElem?_modify]
  by_cases hother : id = other <;> simp [hother]

/-- What a step adds to a node does not depend on later nodes. -/
theorem Edit.adds_append {spans : List Span} {id : Nat} (h : id < spans.length)
    (later : List Span) (step : Edit) : step.adds (spans ++ later) id = step.adds spans id := by
  cases step with
  | addError target problem =>
    unfold adds
    rw [List.getElem?_append_left h]
  | push | setRoot | addErrorAt => rfl

theorem pushedSpans_append (edits later : List Edit) :
    pushedSpans (edits ++ later) = pushedSpans edits ++ pushedSpans later :=
  List.filterMap_append ..

theorem pushedSpans_concat {step : Edit} (h : pushedSpans [step] = []) :
    pushedSpans (edits ++ [step]) = pushedSpans edits := by
  rw [pushedSpans_append, h, List.append_nil]

theorem added_concat {step : Edit} (h : pushedSpans [step] = []) (id : NodeId) :
    added (edits ++ [step]) id = added edits id ++ (step.adds (pushedSpans edits) id).toList := by
  rw [added, pushedSpans_concat h, List.filterMap_append, ← added, List.filterMap_cons,
    List.filterMap_nil]
  split
  · next hnone => rw [hnone]; rfl
  · next hsome => rw [hsome]; rfl

end Steps

/-- What every run keeps.  Besides the links there are the spans of the nodes, which nothing
changes, and the diagnostics, which are added to nodes that are there. -/
structure Built (edits : List Edit) (arena : Arena) : Prop where
  tracked : Tracked arena []
  once : ∀ (id : Nat) (node : Node), arena.nodes[id]? = some node → node.kind.children.Nodup
  size : (pushedSpans edits).length = arena.size
  spans : ∀ (id : Nat) (node : Node), arena.nodes[id]? = some node →
    (pushedSpans edits)[id]? = some node.span
  inside : ∀ step ∈ edits, ∀ (spans : List Span) (id : Nat), arena.size ≤ id →
    step.adds spans id = none
  errors : arena.Marked (added edits)
  root : ∀ root : Nat, arena.root = some root → root < arena.size

namespace Built
variable {arena next : Arena} {edits : List Edit}

theorem empty : Built [] empty :=
  ⟨.empty, nofun, rfl, nofun, nofun, nofun, nofun⟩

/-- The node that is pushed is new, so nothing has been added to it yet. -/
theorem push {kind : NodeKind} {span : Span} (h : Built edits arena)
    (hnext : arena.push kind span = .ok (arena.size, next)) :
    Built (edits ++ [.push kind span]) next := by
  have htracked := h.tracked.push hnext
  have hnodup : kind.children.Nodup := by
    unfold Arena.push at hnext
    obtain ⟨nodes, hnodes, -⟩ := Except.bind_ok hnext
    exact nodup_of_attach hnodes
  have hspans : pushedSpans (edits ++ [.push kind span]) = pushedSpans edits ++ [span] :=
    pushedSpans_append edits _
  have hsize := h.size
  obtain rfl : (arena.place kind ⟨span, []⟩).2 = next := by rw [push_eq_place hnext]
  have hplaced := size_place kind ⟨span, []⟩ arena
  -- Of an older node only the parent may have changed.
  have hold : ∀ {id : Nat} {node : Node},
      (arena.place kind ⟨span, []⟩).2.nodes[id]? = some node →
      (id = arena.size ∧ node = ⟨kind, span, none, [], none⟩) ∨
        (id < arena.size ∧ ∃ old, arena.nodes[id]? = some old ∧ node.kind = old.kind ∧
          node.span = old.span ∧ node.errors = old.errors) := by
    intro id node hnode
    rcases getElem?_of_place kind _ hnode with rfl | hid
    · rw [getElem?_place] at hnode
      exact .inl ⟨rfl, (Option.some.inj hnode).symm⟩
    · rw [getElem?_place_lt kind _ hid] at hnode
      obtain ⟨old, hold, rfl⟩ := Option.map_eq_some_iff.1 hnode
      refine .inr ⟨hid, old, hold, ?_⟩
      split <;> exact ⟨rfl, rfl, rfl⟩
  have hinside : ∀ step ∈ edits ++ [.push kind span], ∀ (spans : List Span) (id : Nat),
      arena.size ≤ id → step.adds spans id = none := by
    intro step hstep spans id hid
    rcases List.mem_append.1 hstep with hstep | hstep
    · exact h.inside step hstep spans id hid
    · cases List.mem_singleton.1 hstep
      rfl
  refine ⟨htracked, fun id node hnode => ?_, ?_, fun id node hnode => ?_, ?_,
    fun id node hnode => ?_, fun root hroot => ?_⟩
  · rcases hold hnode with ⟨-, rfl⟩ | ⟨-, old, hnode, hkind, -⟩
    · exact hnodup
    · rw [hkind]
      exact h.once id old hnode
  · rw [hspans, List.length_append, hsize, hplaced]
    rfl
  · rw [hspans]
    rcases hold hnode with ⟨rfl, rfl⟩ | ⟨hid, old, hnode, -, hspan, -⟩
    · rw [← hsize, List.getElem?_concat_length]
    · rw [List.getElem?_append_left (by omega), h.spans id old hnode, hspan]
  · exact fun step hstep spans id hid => hinside step hstep spans id (by omega)
  · rcases hold hnode with ⟨rfl, rfl⟩ | ⟨hid, old, hnode, -, -, herrors⟩
    · symm
      exact List.filterMap_eq_nil_iff.2 fun step hstep => hinside step hstep _ _ (Nat.le_refl _)
    · have hlater := Edit.adds_append (hsize ▸ hid) [span]
      rw [herrors, h.errors id old hnode, added, added, hspans, List.filterMap_append]
      simp only [funext hlater]
      exact (List.append_nil _).symm
  · have := h.root root hroot
    omega

/-- A diagnostic that is added stands behind those that the node has. -/
theorem report {step : Edit} {id : Nat} {diagnostic : Diagnostic} (h : Built edits arena)
    (hnext : arena.report id diagnostic = .ok next) (hspans : pushedSpans [step] = [])
    (hadds : ∀ other, step.adds (pushedSpans edits) other =
      if id = other then some diagnostic else none)
    (hinside : ∀ spans other, id ≠ other → step.adds spans other = none) :
    Built (edits ++ [step]) next := by
  obtain ⟨hid, hroot, hsize, hnodes⟩ := report_ok hnext
  have hsame : pushedSpans (edits ++ [step]) = pushedSpans edits := pushedSpans_concat hspans
  have hold : ∀ {other : Nat} {node : Node}, next.nodes[other]? = some node →
      ∃ old, arena.nodes[other]? = some old ∧ node = { old with
        errors := old.errors ++ if id = other then [diagnostic] else [] } := by
    intro other node hnode
    rw [hnodes] at hnode
    obtain ⟨old, hold, heq⟩ := Option.map_eq_some_iff.1 hnode
    exact ⟨old, hold, heq.symm⟩
  have hlists : ∀ parent child, next.Lists parent child ↔ arena.Lists parent child := by
    intro parent child
    unfold Lists
    simp [hnodes]
  refine ⟨⟨fun parent child hchild => ?_, fun other node hnode => ?_,
    fun other node hnode hlost parent hparent => ?_, nofun⟩, fun other node hnode => ?_, ?_,
    fun other node hnode => ?_, fun past hpast spans other hother => ?_, fun other node hnode => ?_,
    fun root => ?_⟩
  · obtain ⟨node, hnode, hparent⟩ := h.tracked.taken parent child ((hlists parent child).1 hchild)
    have hnow := hnodes child
    rw [hnode, Option.map_some] at hnow
    exact ⟨_, hnow, hparent⟩
  · obtain ⟨old, hold, rfl⟩ := hold hnode
    exact h.tracked.upward other old hold
  · obtain ⟨old, hold, rfl⟩ := hold hnode
    exact (hlists parent other).2 (h.tracked.kept other old hold hlost parent hparent)
  · obtain ⟨old, hold, rfl⟩ := hold hnode
    exact h.once other old hold
  · rw [hsame, hsize]
    exact h.size
  · obtain ⟨old, hold, rfl⟩ := hold hnode
    rw [hsame]
    exact h.spans other old hold
  · rw [hsize] at hother
    rcases List.mem_append.1 hpast with hpast | hpast
    · exact h.inside past hpast spans other hother
    · cases List.mem_singleton.1 hpast
      exact hinside spans other (by omega)
  · obtain ⟨old, hold, rfl⟩ := hold hnode
    rw [added_concat hspans, ← h.errors other old hold, hadds]
    refine congrArg (old.errors ++ ·) ?_
    split <;> rfl
  · rw [hroot, hsize]
    exact h.root root

theorem setRoot {id : Nat} (h : Built edits arena) (hid : id < arena.size) :
    Built (edits ++ [.setRoot id]) (arena.setRoot id) := by
  have hsame : pushedSpans (edits ++ [.setRoot id]) = pushedSpans edits := pushedSpans_concat rfl
  refine ⟨⟨h.tracked.taken, h.tracked.upward, h.tracked.kept, nofun⟩, h.once, ?_,
    fun other node hnode => ?_, fun past hpast spans other hother => ?_,
    fun other node hnode => ?_, fun root hroot => ?_⟩
  · rw [hsame]
    exact h.size
  · rw [hsame]
    exact h.spans other node hnode
  · rcases List.mem_append.1 hpast with hpast | hpast
    · exact h.inside past hpast spans other hother
    · cases List.mem_singleton.1 hpast
      rfl
  · rw [added_concat rfl, h.errors other node hnode]
    exact (List.append_nil _).symm
  · cases hroot
    exact hid

theorem edit {step : Edit} (h : Built edits arena) (hnext : arena.edit step = .ok next) :
    Built (edits ++ [step]) next := by
  cases step with
  | push kind span => exact h.push (perform_push hnext)
  | setRoot id =>
    obtain ⟨node, hnode, hnext⟩ := Except.bind_ok hnext
    cases hnext
    exact h.setRoot (Array.getElem?_eq_some_iff.1 (node_ok hnode)).1
  | addError id problem =>
    obtain ⟨node, hnode, hnext⟩ := Except.bind_ok hnext
    have hspan := h.spans id node (node_ok hnode)
    refine h.report hnext rfl (fun other => ?_) fun spans other hother => ?_
    · by_cases hother : id = other
      · subst hother
        simp [Edit.adds, hspan]
      · simp [Edit.adds, hother]
    · simp [Edit.adds, hother]
  | addErrorAt id problem span =>
    refine h.report hnext rfl (fun other => rfl) fun spans other hother => ?_
    simp [Edit.adds, hother]

theorem editAll {done : List Edit} (h : Built done arena) (hnext : arena.editAll edits = .ok next) :
    Built (done ++ edits) next := by
  induction edits generalizing arena done with
  | nil =>
    cases hnext
    rw [List.append_nil]
    exact h
  | cons step edits ih =>
    obtain ⟨middle, hstep, hrest⟩ := editAll_cons hnext
    have hdone := ih (h.edit hstep) hrest
    rw [List.append_assoc] at hdone
    exact hdone

theorem forest (h : Built edits arena) : arena.Forest := by
  refine ⟨fun parent child hchild => ?_, fun parent other child hparent hother => ?_, h.once⟩
  · obtain ⟨node, hnode, hparent⟩ := h.tracked.taken parent child hchild
    exact h.tracked.upward child node hnode parent hparent
  · obtain ⟨node, hnode, hparent⟩ := h.tracked.taken parent child hparent
    obtain ⟨same, hsame, hother⟩ := h.tracked.taken other child hother
    rw [hnode] at hsame
    cases hsame
    exact Option.some.inj (hparent.symm.trans hother)

end Built

/-- Whatever is done, the diagnostics are there.  Without a root there are none.  With one they are
those of the nodes that can be reached from it, each of which stands once in the pre-order, sorted
by where they start and otherwise as they stand in that order; a work list that starts with the root
finds them with one pass for each of the nodes. -/
theorem diagnostics_built {edits : List Edit} {arena : Arena}
    (h : Arena.empty.editAll edits = .ok arena) :
    ∃ report, arena.diagnostics = .ok report ∧ (arena.root = none → report = []) ∧
      ∀ root, arena.root = some root → ∃ order, PreOrder arena root order ∧ order.Nodup ∧
        (∀ id, id ∈ order ↔ ReflTransGen arena.Lists root id) ∧
        Diagnostic.Arranged (order.flatMap (added edits)) report ∧
        ∀ passes, order.length ≤ passes →
          arena.collect passes [root] [] = some (order.flatMap (added edits)) := by
  have hbuilt : Built edits arena := Built.empty.editAll h
  unfold diagnostics
  cases hroot : arena.root with
  | none => exact ⟨[], rfl, fun _ => rfl, nofun⟩
  | some root =>
    obtain ⟨order, horder⟩ := PreOrder.exists_order hbuilt.forest root (hbuilt.root root hroot)
    have hreport := horder.reports hbuilt.forest hbuilt.errors
    simp only [hreport]
    refine ⟨_, rfl, nofun, fun start hstart => ?_⟩
    cases hstart
    refine ⟨order, horder, horder.nodup hbuilt.forest, fun id => horder.mem_iff,
      Diagnostic.arranged_sort _, fun passes hpasses => ?_⟩
    obtain ⟨more, rfl⟩ := Nat.exists_eq_add_of_le hpasses
    have hcollect : arena.collect (order.length + more) ([] ++ [root]) [] =
        arena.collect more [] (order.flatMap (added edits)) := horder.collect hbuilt.errors
    refine hcollect.trans ?_
    cases more <;> rfl

/-- A list of two items, in which something is wrong with each of the three nodes, and a node that is
not part of it. -/
def flawedList : List Edit := [
  .push (.boolean true) ⟨1, 5, 1, 1⟩, .push .null ⟨7, 11, 1, 7⟩, .push (.list [0, 1]) ⟨0, 12, 1, 0⟩,
  .push .null ⟨0, 4, 1, 0⟩, .addError 1 .unknownName, .addErrorAt 1 .argMismatch ⟨1, 2, 1, 1⟩,
  .addError 0 .duplicateName, .addError 3 .nestedFunction, .setRoot 2,
  .addErrorAt 2 .unterminatedList ⟨1, 12, 1, 1⟩, .addError 0 .duplicateName]

theorem diagnostics_built_flawedList : ∃ arena report order,
    Arena.empty.editAll flawedList = .ok arena ∧ arena.diagnostics = .ok report ∧
    PreOrder arena 2 order ∧ order.Nodup ∧
    Diagnostic.Arranged (order.flatMap (added flawedList)) report ∧
    report.map Diagnostic.problem =
      [.unterminatedList, .duplicateName, .duplicateName, .argMismatch, .unknownName] := by
  have hrun : (Arena.empty.editAll flawedList >>= fun arena => arena.diagnostics >>= fun report =>
      .ok (arena.root, report.map Diagnostic.problem)) = .ok (some 2,
      [.unterminatedList, .duplicateName, .duplicateName, .argMismatch, .unknownName]) := by
    decide +kernel
  obtain ⟨arena, harena, hrun⟩ := Except.bind_ok hrun
  obtain ⟨report, hreport, hrun⟩ := Except.bind_ok hrun
  obtain ⟨hroot, hproblems⟩ := Prod.mk.inj (Except.ok.inj hrun)
  obtain ⟨same, hsame, -, hall⟩ := diagnostics_built harena
  rw [hreport] at hsame
  cases hsame
  obtain ⟨order, horder, hnodup, -, harranged, -⟩ := hall 2 hroot
  exact ⟨arena, report, order, harena, hreport, horder, hnodup, harranged, hproblems⟩

end Arena
end CatScript
