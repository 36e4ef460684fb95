import CatScript.Proofs.Typing.Totality

/-! # Types that cover others

`Ty.accepts` orders the types, with `object` above all but `void`, and `Ty.join` gives a type above
both of its arguments unless one of them is `void`, whichever comes first (`Typing.join_covers`).
So typing gives a list literal elements of a type that accepts each of them. -/
set_option autoImplicit false
namespace CatScript
namespace Ty

theorem accepts_antisymm {a b : Ty} (hab : a.accepts b = true) (hba : b.accepts a = true) :
    a = b := by
  induction a generalizing b with
  | list component ih =>
    rcases accepts_list hba with rfl | ⟨other, rfl, hother⟩
    · cases hab
    · rw [ih hab hother]
  | _ => cases b <;> simp_all [accepts]

/-- Two types that accept each other are the same, so it is the same which one is asked first. -/
theorem join_comm (a b : Ty) : a.join b = b.join a := by
  unfold join
  by_cases hab : a.accepts b = true
  · by_cases hba : b.accepts a = true
    · rw [if_pos hab, if_pos hba, accepts_antisymm hab hba]
    · rw [if_pos hab, if_neg hba, if_pos hab]
  · rw [if_neg hab, if_neg hab]

end Ty

namespace Typing

theorem mark_expression {symbols : Symbols} (e : Expr Info) {typed : Typed} (hty : e.mark.ty = none)
    (h : expression symbols e = .ok typed) : typed.expr.mark.ty = typed.ty := by
  cases expression_step h with
  | broken => exact hty
  | _ => rfl

theorem mark_expressions {symbols : Symbols} {items : List (Expr Info)} {typed : List Typed}
    (huntyped : Untyped (Expr.marksAll items)) (h : expressions symbols items = .ok typed) :
    ∀ item ∈ typed, item.expr.mark.ty = item.ty := by
  induction items generalizing typed with
  | nil =>
    rw [expressions_nil h]
    exact List.forall_mem_nil _
  | cons e rest ih =>
    obtain ⟨first, others, hfirst, hothers, rfl⟩ := expressions_cons h
    have hty : e.mark.ty = none := huntyped.left _ e.mark_mem_marks
    exact List.forall_mem_cons.2 ⟨mark_expression e hty hfirst, ih huntyped.right hothers⟩

theorem Typed.mark_asValue (typed : Typed) : typed.asValue.expr.mark.ty = typed.expr.mark.ty := by
  unfold Typed.asValue Typed.flagIf
  rw [Expr.mark_adjust]
  unfold Info.flagIf
  split <;> rfl

theorem expression_list {symbols : Symbols} {info : Info} {items : List (Expr Info)}
    {found : List Typed} (hinfo : info.ty = none) (hfound : expressions symbols items = .ok found) :
    expression symbols (.list info items) =
      .ok ⟨some (.list (component (found.map Typed.asValue))),
        .list { info with ty := some (.list (component (found.map Typed.asValue))) }
          ((found.map Typed.asValue).map Typed.expr)⟩ := by
  rw [expression, hfound]
  unfold settled Info.settle
  rw [hinfo]
  rfl

/-- A list literal is typed as a list of what accepts all its items, if each of them has a value. -/
theorem list_covers (symbols : Symbols) (info : Info) (items : List (Expr Info))
    (huntyped : Untyped (Expr.list info items).marks) : ∃ now values component,
      expression symbols (.list info items) = .ok ⟨some (.list component), .list now values⟩ ∧
      (Expr.list now values).map Info.bare = (Expr.list info items).map Info.bare ∧
      now.ty = some (.list component) ∧
      ((∀ value ∈ values, value.mark.ty ≠ some .void) →
        ∀ value ∈ values, ∀ ty, value.mark.ty = some ty → component.accepts ty = true) := by
  obtain ⟨found, hfound, -⟩ := expressions_total symbols items huntyped.tail
  have hlist := expression_list huntyped.head hfound
  refine ⟨_, _, _, hlist, expression_shape _ hlist, rfl, fun hvoid value hvalue ty hty => ?_⟩
  -- The type at the node of an item is the one that its item was found to have.
  have hmark : ∀ item ∈ found.map Typed.asValue, item.expr.mark.ty = item.ty := by
    intro item hitem
    obtain ⟨before, hbefore, rfl⟩ := List.mem_map.1 hitem
    rw [before.mark_asValue]
    exact mark_expressions huntyped.tail hfound before hbefore
  obtain ⟨item, hitem, rfl⟩ := List.mem_map.1 hvalue
  refine component_accepts (fun other hother => ?_) hitem (hmark item hitem ▸ hty)
  rw [← hmark other hother]
  exact hvoid _ (List.mem_map_of_mem hother)

/-- Acceptance orders the types, lists of any depth among them.  `join` does not depend on the order
of its arguments, gives a type back with itself, and accepts both if neither is `void`; so does the
type of the elements of a list literal accept the types of all its items. -/
theorem join_covers :
    (∀ a : Ty, a.accepts a = true) ∧
    (∀ a b c : Ty, a.accepts b = true → b.accepts c = true → a.accepts c = true) ∧
    (∀ a b : Ty, a.accepts b = true → b.accepts a = true → a = b) ∧
    (∀ a b : Ty, a.join b = b.join a) ∧ (∀ a : Ty, a.join a = a) ∧
    (∀ a b : Ty, a ≠ .void → b ≠ .void →
      (a.join b).accepts a = true ∧ (a.join b).accepts b = true) ∧
    ∀ (symbols : Symbols) (info : Info) (items : List (Expr Info)),
      Untyped (Expr.list info items).marks → ∃ now values component,
        expression symbols (.list info items) = .ok ⟨some (.list component), .list now values⟩ ∧
        (Expr.list now values).map Info.bare = (Expr.list info items).map Info.bare ∧
        now.ty = some (.list component) ∧
        ((∀ value ∈ values, value.mark.ty ≠ some .void) →
          ∀ value ∈ values, ∀ ty, value.mark.ty = some ty → component.accepts ty = true) := by
  refine ⟨Ty.accepts_self, fun _ _ _ => Ty.accepts_trans, fun _ _ => Ty.accepts_antisymm,
    Ty.join_comm, Ty.join_self, fun a b ha hb => ?_, list_covers⟩
  exact ⟨Ty.join_accepts_left ha, Ty.join_accepts_right hb⟩

/-- Lists of lists in order, and `[[1], null]`, whose elements are of type `list<int>`. -/
theorem join_covers_nested : ∃ one first second whole now values,
    (Ty.object.accepts (.list (.list .int)) = true ∧
      (Ty.list .object).accepts (.list (.list .int)) = true) ∧
    (Ty.join (.list .int) (.list .null)).accepts (.list .null) = true ∧
    Untyped (Expr.list whole [.list first [.integer one 1], .null second]).marks ∧
    expression .empty (.list whole [.list first [.integer one 1], .null second]) =
      .ok ⟨some (.list (.list .int)), .list now values⟩ ∧
    values.map (fun value => value.mark.ty) = [some (.list .int), some .null] ∧
    (∀ value ∈ values, ∀ ty, value.mark.ty = some ty → (Ty.list .int).accepts ty = true) := by
  obtain ⟨-, htrans, -, -, -, hjoin, hlist⟩ := join_covers
  let blank (id : Nat) : Info := ⟨id, default, [], none⟩
  have huntyped : Untyped
      (Expr.list (blank 3) [.list (blank 1) [.integer (blank 0) 1], .null (blank 2)]).marks := by
    intro info hinfo
    simp [Expr.marks, Expr.marksAll, blank] at hinfo
    rcases hinfo with rfl | rfl | rfl | rfl <;> rfl
  obtain ⟨now, values, component, hrun, -, -, hcovers⟩ := hlist .empty _ _ huntyped
  have hvalue : expression .empty
      (.list (blank 3) [.list (blank 1) [.integer (blank 0) 1], .null (blank 2)]) =
      .ok ⟨some (.list (.list .int)), .list ⟨3, default, [], some (.list (.list .int))⟩
        [.list ⟨1, default, [], some (.list .int)⟩ [.integer ⟨0, default, [], some .int⟩ 1],
          .null ⟨2, default, [], some .null⟩]⟩ := by rfl
  rw [hvalue] at hrun
  cases hrun
  refine ⟨blank 0, blank 1, blank 2, blank 3, _, _, ⟨?_, rfl⟩, ?_, huntyped, hvalue, rfl,
    hcovers ?_⟩
  · exact htrans _ (.list .object) _ rfl rfl
  · exact (hjoin (.list .int) (.list .null) nofun nofun).2
  · simp [Expr.mark]

end Typing
end CatScript
