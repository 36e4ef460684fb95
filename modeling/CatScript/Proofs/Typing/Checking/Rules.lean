import CatScript.Proofs.Arena.Holding
import CatScript.Proofs.Arena.Links
import CatScript.Proofs.Typing.Checking.Basic
import CatScript.Proofs.Typing.Totality

/-! # What a step in place does

While a tree is typed in place, the arena is the one it was with what is known of the nodes by now:
`Arena.recordAll` writes marks into an arena, and a problem or a type that is written changes one of
the marks (`report_ends`, `settle_ends`).  Where that mark stands among the others is its `Room`:
the places of all marks are different, so the change touches no other node.  `Ends` says how a step
ends; there is one rule for every primitive step, `Ends.bind` puts steps together, and `Ends.call`
opens a function. -/
set_option autoImplicit false
namespace CatScript

namespace Arena

def HasKind (arena : Arena) (id : NodeId) (kind : NodeKind) : Prop :=
  ∃ node, arena.nodes[id]? = some node ∧ node.kind = kind

def Shapes (arena : Arena) (rows : List Row) : Prop :=
  ∀ row ∈ rows, arena.HasKind row.1.id row.2

namespace Shapes
variable {arena : Arena} {row : Row} {rows others : List Row}

theorem head (h : arena.Shapes (row :: rows)) : arena.HasKind row.1.id row.2 :=
  h row List.mem_cons_self

theorem tail (h : arena.Shapes (row :: rows)) : arena.Shapes rows := by
  intro other hother
  exact h other (List.mem_cons_of_mem row hother)

theorem left (h : arena.Shapes (rows ++ others)) : arena.Shapes rows := by
  intro row hrow
  exact h row (List.mem_append_left others hrow)

theorem right (h : arena.Shapes (rows ++ others)) : arena.Shapes others := by
  intro row hrow
  exact h row (List.mem_append_right rows hrow)

end Shapes

def recordAll (arena : Arena) (marks : List Info) : Arena :=
  marks.foldl record arena

section Record
variable {arena : Arena} {info other : Info} {marks : List Info}

theorem record_comm (hne : info.id ≠ other.id) (arena : Arena) :
    (arena.record info).record other = (arena.record other).record info := by
  have hother := hne.symm
  simp only [record, Arena.mk.injEq, and_true]
  apply Array.ext_getElem?
  intro id
  simp only [Array.getElem?_modify]
  by_cases hinfo : info.id = id
  · subst hinfo
    simp [hother]
  · simp [hinfo]

theorem record_record (hid : other.id = info.id) (arena : Arena) :
    (arena.record info).record other = arena.record other := by
  simp only [record, hid, Arena.mk.injEq, and_true]
  apply Array.ext_getElem?
  intro id
  simp only [Array.getElem?_modify]
  split
  · rw [Option.map_map]
    rfl
  · rfl

theorem recordAll_record (h : info.id ∉ marks.map Info.id) (arena : Arena) :
    (arena.record info).recordAll marks = (arena.recordAll marks).record info := by
  induction marks generalizing arena with
  | nil => rfl
  | cons first rest ih =>
    rw [List.map_cons, List.mem_cons, not_or] at h
    show ((arena.record info).record first).recordAll rest = _
    rw [record_comm h.1, ih h.2]
    rfl

theorem recordAll_middle {before after : List Info}
    (h : ((before ++ info :: after).map Info.id).Nodup) (arena : Arena) :
    arena.recordAll (before ++ info :: after) =
      (arena.recordAll (before ++ after)).record info := by
  rw [List.map_append, List.map_cons] at h
  have hafter := (List.nodup_cons.1 (List.nodup_append.1 h).2.1).1
  unfold recordAll
  rw [List.foldl_append, List.foldl_append, List.foldl_cons]
  exact recordAll_record hafter _

/-- Nothing that typing writes changes what a node is, where it stands or what it belongs to. -/
theorem getElem?_recordAll {id : NodeId} {node : Node} (h : arena.nodes[id]? = some node)
    (marks : List Info) : ∃ now, (arena.recordAll marks).nodes[id]? = some now ∧
      now.kind = node.kind ∧ now.span = node.span ∧ now.parent = node.parent := by
  induction marks generalizing arena node with
  | nil => exact ⟨node, h, rfl, rfl, rfl⟩
  | cons first rest ih =>
    have hfirst : ∃ now, (arena.record first).nodes[id]? = some now ∧
        now.kind = node.kind ∧ now.span = node.span ∧ now.parent = node.parent := by
      by_cases hid : id = first.id
      · subst hid
        exact ⟨_, record_self h, rfl, rfl, rfl⟩
      · exact ⟨node, (record_other hid).trans h, rfl, rfl, rfl⟩
    obtain ⟨now, hnow, hkind, hspan, hparent⟩ := hfirst
    obtain ⟨last, hlast, hkind', hspan', hparent'⟩ := ih hnow
    exact ⟨last, hlast, hkind'.trans hkind, hspan'.trans hspan, hparent'.trans hparent⟩

theorem recordAll_stands {rows : List Row} (h : ∀ row ∈ rows, Stands arena row) :
    arena.recordAll (rows.map Prod.fst) = arena := by
  induction rows with
  | nil => rfl
  | cons row rest ih =>
    obtain ⟨⟨parent, hnode⟩, -⟩ := h row List.mem_cons_self
    have hsame : arena.record row.1 = arena := by
      obtain ⟨nodes, root⟩ := arena
      simp only [record, Arena.mk.injEq, and_true]
      apply Array.ext_getElem?
      intro id
      rw [Array.getElem?_modify]
      split
      · next hid =>
        subst hid
        rw [hnode]
        rfl
      · rfl
    show (arena.record row.1).recordAll (rest.map Prod.fst) = arena
    rw [hsame]
    exact ih fun other hother => h other (List.mem_cons_of_mem _ hother)

end Record
end Arena

/-- Marks of the same nodes: only what has been reported of them and their types may differ. -/
def SameNodes (marks others : List Info) : Prop :=
  marks.map Info.bare = others.map Info.bare

namespace SameNodes
variable {marks others more rest : List Info} {info now : Info}

theorem refl (marks : List Info) : SameNodes marks marks := rfl

theorem cons (hinfo : now.bare = info.bare) (h : SameNodes marks others) :
    SameNodes (now :: marks) (info :: others) := by
  unfold SameNodes
  rw [List.map_cons, List.map_cons, hinfo, h]

theorem append (h : SameNodes marks others) (h' : SameNodes more rest) :
    SameNodes (marks ++ more) (others ++ rest) := by
  unfold SameNodes
  rw [List.map_append, List.map_append, h, h']

theorem ids (h : SameNodes marks others) : marks.map Info.id = others.map Info.id := by
  have hids := congrArg (List.map Info.id) h
  rw [List.map_map, List.map_map] at hids
  exact hids

theorem of_mem (h : SameNodes marks others) (hinfo : info ∈ marks) :
    ∃ old ∈ others, old.id = info.id ∧ old.span = info.span := by
  have hbare : info.bare ∈ others.map Info.bare := h ▸ List.mem_map_of_mem hinfo
  obtain ⟨old, hold, heq⟩ := List.mem_map.1 hbare
  have hid : old.bare.id = info.bare.id := congrArg Info.id heq
  have hspan : old.bare.span = info.bare.span := congrArg Info.span heq
  exact ⟨old, hold, hid, hspan⟩

theorem of_expr {e e' : Expr Info} (h : e.map Info.bare = e'.map Info.bare) :
    SameNodes e.marks e'.marks := by
  unfold SameNodes
  rw [← Expr.marks_map, ← Expr.marks_map, h]

theorem of_exprs {items items' : List (Expr Info)}
    (h : Expr.mapAll Info.bare items = Expr.mapAll Info.bare items') :
    SameNodes (Expr.marksAll items) (Expr.marksAll items') := by
  unfold SameNodes
  rw [← Expr.marksAll_map, ← Expr.marksAll_map, h]

theorem of_stmt {s s' : Stmt Info} (h : s.map Info.bare = s'.map Info.bare) :
    SameNodes s.marks s'.marks := by
  unfold SameNodes
  rw [← Stmt.marks_map, ← Stmt.marks_map, h]

theorem of_stmts {body body' : List (Stmt Info)}
    (h : Stmt.mapAll Info.bare body = Stmt.mapAll Info.bare body') :
    SameNodes (Stmt.marksAll body) (Stmt.marksAll body') := by
  unfold SameNodes
  rw [← Stmt.marksAll_map, ← Stmt.marksAll_map, h]

end SameNodes

/-- The marks have their place among others.  All of them stand in the arena, each in a place of its
own. -/
structure Room (arena : Arena) (place : List Info → List Info) (marks : List Info) : Prop where
  frame : ∃ before after, ∀ inner, place inner = before ++ inner ++ after
  distinct : ((place marks).map Info.id).Nodup
  there : ∀ info ∈ place marks, ∃ node, arena.nodes[info.id]? = some node ∧ node.span = info.span

namespace Room
variable {arena : Arena} {place : List Info → List Info} {marks others more : List Info}
  {info : Info}

theorem refill (h : Room arena place marks) (hsame : SameNodes others marks) :
    Room arena place others := by
  obtain ⟨before, after, hplace⟩ := h.frame
  have hall : SameNodes (place others) (place marks) := by
    rw [hplace, hplace]
    exact ((SameNodes.refl _).append hsame).append (.refl _)
  refine ⟨h.frame, hall.ids ▸ h.distinct, fun info hinfo => ?_⟩
  obtain ⟨old, hold, hid, hspan⟩ := hall.of_mem hinfo
  obtain ⟨node, hnode, hstands⟩ := h.there old hold
  exact ⟨node, hid ▸ hnode, hstands.trans hspan⟩

theorem tail (h : Room arena place (info :: marks)) :
    Room arena (fun inner => place (info :: inner)) marks := by
  obtain ⟨before, after, hplace⟩ := h.frame
  refine ⟨⟨before ++ [info], after, fun inner => ?_⟩, h.distinct, h.there⟩
  simp only [hplace, List.append_assoc, List.cons_append, List.nil_append]

theorem left (h : Room arena place (marks ++ more)) (hsame : SameNodes others more) :
    Room arena (fun inner => place (inner ++ others)) marks := by
  obtain ⟨hframe, hdistinct, hthere⟩ := h.refill ((SameNodes.refl marks).append hsame)
  obtain ⟨before, after, hplace⟩ := hframe
  refine ⟨⟨before, others ++ after, fun inner => ?_⟩, hdistinct, hthere⟩
  simp only [hplace, List.append_assoc]

theorem right (h : Room arena place (marks ++ more)) (hsame : SameNodes others marks) :
    Room arena (fun inner => place (others ++ inner)) more := by
  obtain ⟨hframe, hdistinct, hthere⟩ := h.refill (hsame.append (SameNodes.refl more))
  obtain ⟨before, after, hplace⟩ := hframe
  refine ⟨⟨before ++ others, after, fun inner => ?_⟩, hdistinct, hthere⟩
  simp only [hplace, List.append_assoc]

theorem node (h : Room arena place (info :: marks)) : ∃ node,
    (arena.recordAll (place (info :: marks))).nodes[info.id]? = some node ∧
      node.span = info.span ∧ node.errors = info.errors ∧ node.ty = info.ty := by
  obtain ⟨before, after, hplace⟩ := h.frame
  have hmem : info ∈ place (info :: marks) := by
    rw [hplace]
    exact List.mem_append_left _ (List.mem_append_right _ List.mem_cons_self)
  obtain ⟨node, hnode, hspan⟩ := h.there info hmem
  exact ⟨_, foldl_record h.distinct hmem hnode, hspan, rfl, rfl⟩

theorem record (h : Room arena place (info :: marks)) {now : Info} (hid : now.id = info.id) :
    (arena.recordAll (place (info :: marks))).record now =
      arena.recordAll (place (now :: marks)) := by
  obtain ⟨before, after, hplace⟩ := h.frame
  have hdistinct := h.distinct
  simp only [hplace, List.append_assoc, List.cons_append] at hdistinct ⊢
  have hdistinct' : ((before ++ now :: (marks ++ after)).map Info.id).Nodup := by
    simpa only [List.map_append, List.map_cons, hid] using hdistinct
  rw [Arena.recordAll_middle hdistinct, Arena.recordAll_middle hdistinct',
    Arena.record_record hid]

theorem modify (h : Room arena place (info :: marks)) {change : Node → Node} {now : Info}
    (hid : now.id = info.id) (hchange : ∀ node : Node, node.errors = info.errors →
      node.ty = info.ty → change node = { node with errors := now.errors, ty := now.ty }) :
    { arena.recordAll (place (info :: marks)) with
        nodes := (arena.recordAll (place (info :: marks))).nodes.modify info.id change } =
      arena.recordAll (place (now :: marks)) := by
  obtain ⟨node, hnode, -, herrors, hty⟩ := h.node
  rw [← h.record hid]
  simp only [Arena.record, hid, Arena.mk.injEq, and_true]
  apply Array.ext_getElem?
  intro id
  rw [Array.getElem?_modify, Array.getElem?_modify]
  split
  · next heq =>
    subst heq
    rw [hnode, Option.map_some, Option.map_some, hchange node herrors hty]
  · rfl

end Room

namespace Checking
variable {β γ : Type} {checker middle last : Checker} {b : β} {c : γ}

def Ends (step : Nat → Checking β) (checker : Checker) (b : β) (last : Checker) : Prop :=
  ∃ enough, ∀ calls ≥ enough, step calls checker = some (.ok (b, last))

theorem bind_ok {step : Checking β} (f : β → Checking γ)
    (h : step checker = some (.ok (b, middle))) : (step >>= f) checker = f b middle := by
  show (step checker >>= fun result => f result.1 result.2) = _
  rw [h]
  rfl

namespace Ends
variable {step : Nat → Checking β}

theorem of_ok {step : Checking β} (h : step checker = some (.ok (b, last))) :
    Ends (fun _ => step) checker b last :=
  ⟨0, fun _ _ => h⟩

theorem pure : Ends (fun _ => Pure.pure b) checker b checker :=
  of_ok rfl

theorem bind {f : Nat → β → Checking γ} (h : Ends step checker b middle)
    (hnext : Ends (fun calls => f calls b) middle c last) :
    Ends (fun calls => step calls >>= f calls) checker c last := by
  obtain ⟨enough, hstep⟩ := h
  obtain ⟨enough', hnext⟩ := hnext
  refine ⟨max enough enough', fun calls hcalls => ?_⟩
  exact (bind_ok _ (hstep calls (by omega))).trans (hnext calls (by omega))

theorem call {opened : Nat → Checking β} (hopened : ∀ calls, step (calls + 1) = opened calls)
    (h : Ends opened checker b last) : Ends step checker b last := by
  obtain ⟨enough, hopen⟩ := h
  refine ⟨enough + 1, fun calls hcalls => ?_⟩
  obtain ⟨fewer, rfl⟩ := Nat.exists_eq_add_of_le' (Nat.le_trans (Nat.le_add_left 1 enough) hcalls)
  rw [hopened]
  exact hopen fewer (Nat.le_of_succ_le_succ hcalls)

end Ends

section Nodes
variable {arena : Arena} {marks : List Info} {symbols : Symbols} {id : NodeId} {node : Node}

theorem ask_ok {question : Arena → Except Fault β} {answer : β}
    (h : question arena = .ok answer) :
    ask question ⟨arena, symbols⟩ = some (.ok (answer, ⟨arena, symbols⟩)) := by
  unfold ask
  rw [h]
  rfl

theorem write_ok {work : Arena → Except Fault Arena} {after : Arena}
    (h : work arena = .ok after) :
    write work ⟨arena, symbols⟩ = some (.ok ((), ⟨after, symbols⟩)) := by
  unfold write
  rw [h]
  rfl

theorem node_ok (h : arena.nodes[id]? = some node) : arena.node id = .ok node := by
  unfold Arena.node
  rw [h]

theorem kindAt_ends {kind : NodeKind} (h : arena.HasKind id kind) :
    Ends (fun _ => kindAt id) ⟨arena.recordAll marks, symbols⟩ kind
      ⟨arena.recordAll marks, symbols⟩ := by
  obtain ⟨node, hnode, rfl⟩ := h
  obtain ⟨now, hnow, hkind, -⟩ := Arena.getElem?_recordAll hnode marks
  refine .of_ok (ask_ok ?_)
  rw [node_ok hnow, ← hkind]
  rfl

theorem parentAt_ends (h : arena.nodes[id]? = some node) :
    Ends (fun _ => parentAt id) ⟨arena.recordAll marks, symbols⟩ node.parent
      ⟨arena.recordAll marks, symbols⟩ := by
  obtain ⟨now, hnow, -, -, hparent⟩ := Arena.getElem?_recordAll h marks
  refine .of_ok (ask_ok ?_)
  rw [node_ok hnow, ← hparent]
  rfl

end Nodes

section Writing
variable {arena : Arena} {place : List Info → List Info} {info now : Info}
  {marks others : List Info} {symbols : Symbols}

theorem reportAt_ends (h : Room arena place (info :: marks)) (hgrows : info.Grows now)
    (hsame : SameNodes others marks) (at? : Span → Span) (problem : Problem) :
    Ends (fun _ => reportAt at? info.id problem)
      ⟨arena.recordAll (place (now :: others)), symbols⟩ ()
      ⟨arena.recordAll (place
        ({ now with errors := now.errors ++ [⟨problem, at? now.span⟩] } :: others)), symbols⟩ := by
  have hroom := h.refill (.cons hgrows.bare hsame)
  obtain ⟨node, hnode, hspan, -⟩ := hroom.node
  rw [← hgrows.id]
  refine .of_ok (write_ok ?_)
  simp only [node_ok hnode, Arena.report, bind, Except.bind, pure, Except.pure, hspan]
  refine congrArg Except.ok (hroom.modify rfl fun node herrors hty => ?_)
  rw [herrors, hty]

theorem reportAtIf_ends (h : Room arena place (info :: marks)) (hgrows : info.Grows now)
    (hsame : SameNodes others marks) (wrong : Bool) (at? : Span → Span) (problem : Problem) :
    Ends (fun _ => reportAtIf wrong at? info.id problem)
      ⟨arena.recordAll (place (now :: others)), symbols⟩ ()
      ⟨arena.recordAll (place ((if wrong then
          { now with errors := now.errors ++ [⟨problem, at? now.span⟩] } else now) :: others)),
        symbols⟩ := by
  cases wrong with
  | false => exact .pure
  | true => exact reportAt_ends h hgrows hsame at? problem

theorem report_ends (h : Room arena place (info :: marks)) (hgrows : info.Grows now)
    (hsame : SameNodes others marks) (problem : Problem) :
    Ends (fun _ => report info.id problem)
      ⟨arena.recordAll (place (now :: others)), symbols⟩ ()
      ⟨arena.recordAll (place (now.flag problem :: others)), symbols⟩ :=
  reportAt_ends h hgrows hsame _ problem

theorem reportIf_ends (h : Room arena place (info :: marks)) (hgrows : info.Grows now)
    (hsame : SameNodes others marks) (wrong : Bool) (problem : Problem) :
    Ends (fun _ => reportIf wrong info.id problem)
      ⟨arena.recordAll (place (now :: others)), symbols⟩ ()
      ⟨arena.recordAll (place (now.flagIf wrong problem :: others)), symbols⟩ :=
  reportAtIf_ends h hgrows hsame wrong _ problem

theorem settle_ends (h : Room arena place (info :: marks)) (hty : info.ty = none)
    (hgrows : info.Grows now) (hsame : SameNodes others marks) (ty : Ty) :
    Ends (fun _ => settle info.id ty) ⟨arena.recordAll (place (now :: others)), symbols⟩ ()
      ⟨arena.recordAll (place ({ now with ty := some ty } :: others)), symbols⟩ := by
  have hroom := h.refill (.cons hgrows.bare hsame)
  obtain ⟨node, hnode, -, -, hnone⟩ := hroom.node
  rw [hgrows.ty, hty] at hnone
  rw [← hgrows.id]
  refine .of_ok (write_ok ?_)
  simp only [Arena.setTy, node_ok hnode, bind, Except.bind, pure, Except.pure, hnone]
  refine congrArg Except.ok (hroom.modify rfl fun node herrors _ => ?_)
  rw [herrors]

theorem typed_ends (h : Room arena place (info :: marks)) (hty : info.ty = none)
    (hgrows : info.Grows now) (hsame : SameNodes others marks) (ty : Ty) :
    Ends (fun _ => typed info.id ty) ⟨arena.recordAll (place (now :: others)), symbols⟩ (some ty)
      ⟨arena.recordAll (place ({ now with ty := some ty } :: others)), symbols⟩ :=
  .bind (settle_ends h hty hgrows hsame ty) .pure

end Writing
end Checking
end CatScript
