import CatScript.Evaluation.Run
import CatScript.Proofs.Typing.Subtyping

/-! # The values of a type

`Ty.admits` says which values a type has: `null` is a value of every type but `int` and `bool`, and
a list is one of `list<T>` when each of its items is `null` or a value of `T`.  A value of a type
that another one accepts is `null` or a value of that one (`Ty.admits_of_accepts`). -/
set_option autoImplicit false
namespace CatScript
namespace Ty

def admits : Ty → Value → Bool
  | .object, _ | .int, .integer _ | .boolean, .boolean _ | .string, .string _ => true
  | .list component, .list items =>
    items.all fun item => item.sort == .null || component.admits item
  | .int, .null | .boolean, .null => false
  | _, .null => true
  | _, _ => false

theorem admits_object (value : Value) : Ty.object.admits value = true := by
  unfold admits
  rfl

theorem admits_int {value : Value} (h : Ty.int.admits value = true) :
    ∃ n, value = .integer n := by
  cases value with
  | integer n => exact ⟨n, rfl⟩
  | _ => simp [admits] at h

theorem admits_boolean {value : Value} (h : Ty.boolean.admits value = true) :
    ∃ b, value = .boolean b := by
  cases value with
  | boolean b => exact ⟨b, rfl⟩
  | _ => simp [admits] at h

theorem sort_eq_null {value : Value} : value.sort = .null ↔ value = .null := by
  cases value <;> simp [Value.sort]

theorem admits_list {component : Ty} {value : Value}
    (h : (Ty.list component).admits value = true) :
    value = .null ∨ ∃ items, value = .list items ∧
      ∀ item ∈ items, item = .null ∨ component.admits item = true := by
  cases value with
  | null => exact .inl rfl
  | list items =>
    refine .inr ⟨items, rfl, fun item hitem => ?_⟩
    have hall := List.all_eq_true.1 h item hitem
    simpa [sort_eq_null] using hall
  | _ => simp [admits] at h

theorem list_admits {component : Ty} {items : List Value}
    (h : ∀ item ∈ items, item = .null ∨ component.admits item = true) :
    (Ty.list component).admits (.list items) = true := by
  refine List.all_eq_true.2 fun item hitem => ?_
  simpa [sort_eq_null] using h item hitem

theorem admits_null {ty : Ty} (h : ty.isPrimitive = false) : ty.admits .null = true := by
  cases ty <;> simp_all [admits, isPrimitive]

theorem admits_nothing {ty : Ty} (hty : ty = .void ∨ ty = .null) {value : Value}
    (h : ty.admits value = true) : value = .null := by
  rcases hty with rfl | rfl <;> cases value <;> simp_all [admits]

theorem admits_of_accepts {target source : Ty} (h : target.accepts source = true) {value : Value}
    (hvalue : source.admits value = true) : value = .null ∨ target.admits value = true := by
  induction source generalizing target value with
  | list component ih =>
    rcases accepts_list h with rfl | ⟨wider, rfl, hwider⟩
    · exact .inr (admits_object value)
    · rcases admits_list hvalue with rfl | ⟨items, rfl, hitems⟩
      · exact .inl rfl
      · refine .inr (list_admits fun item hitem => ?_)
        rcases hitems item hitem with hnull | hitem
        · exact .inl hnull
        · exact ih hwider hitem
  | null => exact .inl (admits_nothing (.inr rfl) hvalue)
  | _ =>
    rcases accepts_simple h (by simp) (by simp) with rfl | rfl
    · exact .inr (admits_object value)
    · exact .inr hvalue

end Ty

namespace Evaluation

/-- What is stored in a variable of a type is a value of the type; only `null` can be refused. -/
theorem stored_cases {target source : Ty} (h : target.accepts source = true) {value : Value}
    (hvalue : source.admits value = true ∨ value = .null) :
    (stored (some target) value = pure value ∧ target.admits value = true) ∨
      (value = .null ∧ target.isPrimitive = true ∧
        stored (some target) value = throw .nullReference) := by
  by_cases hnull : value = .null
  · subst hnull
    by_cases hprimitive : target.isPrimitive = true
    · exact .inr ⟨rfl, hprimitive, by simp [stored, hprimitive]⟩
    · rw [Bool.not_eq_true] at hprimitive
      exact .inl ⟨by simp [stored, hprimitive], Ty.admits_null hprimitive⟩
  · have hsource := hvalue.resolve_right hnull
    have htarget := (Ty.admits_of_accepts h hsource).resolve_left hnull
    refine .inl ⟨?_, htarget⟩
    cases value <;> first | rfl | exact absurd rfl hnull

end Evaluation
end CatScript
