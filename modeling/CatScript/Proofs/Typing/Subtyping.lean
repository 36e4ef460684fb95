import CatScript.Typing.Check

/-! # Which types stand in for which

`Ty.accepts` is a preorder on types (`Ty.accepts_self`, `Ty.accepts_trans`), `Ty.join` gives a type
that accepts both of its arguments, and so the type of a list literal accepts the types of all its
items (`Typing.component_accepts`). -/
set_option autoImplicit false
namespace CatScript
namespace Ty

/-- Whether variables may have the type: nothing in it is `void`. -/
def Storable : Ty → Prop
  | .void => False
  | .list component => component.Storable
  | _ => True

theorem Storable.ne_void {ty : Ty} (h : ty.Storable) : ty ≠ .void := by
  rintro rfl
  exact h

theorem Storable.component {ty : Ty} (h : (Ty.list ty).Storable) : ty.Storable := h

theorem accepts_void {ty : Ty} (h : ty.accepts .void = true) : ty = .void := by
  cases ty <;> simp_all [accepts]

theorem Storable.accepts_ne_void {target source : Ty} (h : target.Storable)
    (ha : target.accepts source = true) : source ≠ .void := by
  rintro rfl
  exact h.ne_void (accepts_void ha)

theorem object_accepts {ty : Ty} (h : ty ≠ .void) : Ty.object.accepts ty = true := by
  cases ty <;> simp_all [accepts]

theorem accepts_list {ty component : Ty} (h : ty.accepts (.list component) = true) :
    ty = .object ∨ ∃ wider, ty = .list wider ∧ wider.accepts component = true := by
  cases ty <;> simp_all [accepts]

/-- A type of neither `null` nor lists stands in for itself and for `object` alone. -/
theorem accepts_simple {target source : Ty} (h : target.accepts source = true)
    (hnull : source ≠ .null) (hlist : ∀ component, source ≠ .list component) :
    target = .object ∨ target = source := by
  cases source <;> cases target <;> simp_all [accepts]

theorem accepts_trans {a b c : Ty} (hab : a.accepts b = true) (hbc : b.accepts c = true) :
    a.accepts c = true := by
  induction a generalizing b c with
  | list component ih =>
    cases b with
    | list middle =>
      cases c with
      | list last => exact ih hab hbc
      | null => rfl
      | _ => simp_all [accepts]
    | null => cases c <;> simp_all [accepts]
    | _ => simp_all [accepts]
  | _ => cases b <;> cases c <;> simp_all [accepts]

theorem join_accepts_left {a b : Ty} (ha : a ≠ .void) : (a.join b).accepts a = true := by
  unfold join
  split
  · exact accepts_self a
  · split
    · assumption
    · exact object_accepts ha

theorem join_accepts_right {a b : Ty} (hb : b ≠ .void) : (a.join b).accepts b = true := by
  unfold join
  split
  · assumption
  · split
    · exact accepts_self b
    · exact object_accepts hb

theorem Storable.join {a b : Ty} (ha : a.Storable) (hb : b.Storable) : (a.join b).Storable := by
  unfold Ty.join
  split
  · exact ha
  · split
    · exact hb
    · trivial

end Ty

namespace Typing

theorem foldl_join_accepts {first : Ty} {rest : List Ty} (hfirst : first ≠ .void)
    (hrest : ∀ ty ∈ rest, ty ≠ .void) :
    ∀ ty ∈ first :: rest, (rest.foldl Ty.join first).accepts ty = true := by
  induction rest generalizing first with
  | nil =>
    intro ty hty
    rw [List.mem_singleton.1 hty]
    exact Ty.accepts_self first
  | cons next rest ih =>
    have hnext : next ≠ .void := hrest next List.mem_cons_self
    have hjoin : first.join next ≠ .void := fun heq =>
      hfirst (by
        have h := Ty.join_accepts_left (b := next) hfirst
        rw [heq] at h
        cases first <;> simp_all [Ty.accepts])
    have hall := ih hjoin fun ty hty => hrest ty (List.mem_cons_of_mem _ hty)
    have hself := hall _ List.mem_cons_self
    intro ty hty
    rcases List.mem_cons.1 hty with rfl | hty
    · exact Ty.accepts_trans hself (Ty.join_accepts_left hfirst)
    · rcases List.mem_cons.1 hty with rfl | hty
      · exact Ty.accepts_trans hself (Ty.join_accepts_right hnext)
      · exact hall ty (List.mem_cons_of_mem _ hty)

theorem foldl_join_storable {first : Ty} {rest : List Ty} (hfirst : first.Storable)
    (hrest : ∀ ty ∈ rest, ty.Storable) : (rest.foldl Ty.join first).Storable := by
  induction rest generalizing first with
  | nil => exact hfirst
  | cons next rest ih =>
    exact ih (hfirst.join (hrest next List.mem_cons_self))
      fun ty hty => hrest ty (List.mem_cons_of_mem _ hty)

/-- The type of the elements of a list literal accepts the type of each item. -/
theorem component_accepts {items : List Typed} (h : ∀ item ∈ items, item.ty ≠ some .void)
    {item : Typed} (hitem : item ∈ items) {ty : Ty} (hty : item.ty = some ty) :
    (component items).accepts ty = true := by
  have hmem : ty ∈ items.filterMap Typed.ty := List.mem_filterMap.2 ⟨item, hitem, hty⟩
  have hvoid : ∀ ty ∈ items.filterMap Typed.ty, ty ≠ .void := by
    rintro _ hin rfl
    obtain ⟨other, hother, heq⟩ := List.mem_filterMap.1 hin
    exact h other hother heq
  unfold component
  cases hlist : items.filterMap Typed.ty with
  | nil => rw [hlist] at hmem; cases hmem
  | cons first rest =>
    rw [hlist] at hmem hvoid
    exact foldl_join_accepts (hvoid first List.mem_cons_self)
      (fun ty hty => hvoid ty (List.mem_cons_of_mem _ hty)) ty hmem

theorem component_storable {items : List Typed}
    (h : ∀ item ∈ items, ∀ ty, item.ty = some ty → ty.Storable) : (component items).Storable := by
  have hall : ∀ ty ∈ items.filterMap Typed.ty, ty.Storable := by
    intro ty hin
    obtain ⟨item, hitem, heq⟩ := List.mem_filterMap.1 hin
    exact h item hitem ty heq
  unfold component
  cases hlist : items.filterMap Typed.ty with
  | nil => trivial
  | cons first rest =>
    rw [hlist] at hall
    exact foldl_join_storable (hall first List.mem_cons_self)
      fun ty hty => hall ty (List.mem_cons_of_mem _ hty)

end Typing
end CatScript
