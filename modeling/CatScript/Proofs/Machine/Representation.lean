import Mathlib.Data.List.Forall2
import CatScript.Evaluation.Value
import CatScript.Machine.Heap

/-! # Values in the heap

A list value is kept in the heap, at a place of its own.  `Contents` says which value each finished
list has; a list that is still being filled has none.  Objects that stand for the same values are
printed as the values are (`Contents.Describes.text`), and comparing them is comparing the values
(`Contents.Describes.same`). -/
set_option autoImplicit false
namespace CatScript

namespace Value

mutual

def nesting : Value → Nat
  | list items => nestingAll items + 1
  | _ => 0

def nestingAll : List Value → Nat
  | [] => 0
  | value :: rest => max value.nesting (nestingAll rest)

end

theorem nesting_le_nestingAll {items : List Value} {item : Value} (h : item ∈ items) :
    item.nesting ≤ nestingAll items := by
  induction items with
  | nil => cases h
  | cons first rest ih =>
    rw [nestingAll]
    rcases List.mem_cons.1 h with rfl | h
    · exact Nat.le_max_left _ _
    · exact Nat.le_trans (ih h) (Nat.le_max_right _ _)

theorem exists_nesting_eq {items : List Value} (h : items ≠ []) :
    ∃ item ∈ items, item.nesting = nestingAll items := by
  induction items with
  | nil => exact absurd rfl h
  | cons first rest ih =>
    rw [nestingAll]
    rcases Nat.le_total (nestingAll rest) first.nesting with hle | hle
    · exact ⟨first, List.mem_cons_self, (Nat.max_eq_left hle).symm⟩
    · cases rest with
      | nil => exact ⟨first, List.mem_cons_self, (Nat.max_eq_left (Nat.zero_le _)).symm⟩
      | cons second more =>
        obtain ⟨item, hitem, heq⟩ := ih (List.cons_ne_nil _ _)
        exact ⟨item, List.mem_cons_of_mem _ hitem, heq.trans (Nat.max_eq_right hle).symm⟩

end Value

/-- The values in the finished lists of a heap. -/
abbrev Contents := Nat → Option (List Value)

inductive Represents (contents : Contents) : Object → Value → Prop where
  | null : Represents contents .null .null
  | integer (n : Int64) : Represents contents (.integer n) (.integer n)
  | boolean (b : Bool) : Represents contents (.boolean b) (.boolean b)
  | string (text : String) : Represents contents (.string text) (.string text)
  | list {place : Nat} {items : List Value} :
      contents place = some items → Represents contents (.list place) (.list items)

theorem exists_represents {contents : Contents} {objects : List Object} {items : List Value}
    (h : List.Forall₂ (Represents contents) objects items) {item : Value} (hitem : item ∈ items) :
    ∃ object, Represents contents object item := by
  induction h with
  | nil => cases hitem
  | cons hfirst _ ih =>
    rcases List.mem_cons.1 hitem with rfl | hitem
    · exact ⟨_, hfirst⟩
    · exact ih hitem

namespace Contents

/-- Finished lists are in the heap, with objects that stand for their values. -/
structure Describes (contents : Contents) (heap : Heap) : Prop where
  bound : ∀ place items, contents place = some items → place < heap.lists.size
  items : ∀ place items, contents place = some items →
    List.Forall₂ (Represents contents) (heap.items place).toList items

/-- How many of the first lists are finished and nested no deeper than a bound. -/
def shallow (contents : Contents) (size bound : Nat) : Nat :=
  (List.range size).countP fun place =>
    (contents place).any fun items => decide (Value.nestingAll items < bound)

theorem shallow_le (contents : Contents) (size bound : Nat) :
    contents.shallow size bound ≤ size := by
  refine Nat.le_trans List.countP_le_length (Nat.le_of_eq List.length_range)

theorem shallow_lt {contents : Contents} {size place : Nat} {items : List Value}
    (hplace : place < size) (h : contents place = some items) :
    contents.shallow size (Value.nestingAll items) <
      contents.shallow size (Value.nestingAll items + 1) := by
  obtain ⟨before, after, hrange⟩ := List.append_of_mem (List.mem_range.2 hplace)
  have hle : ∀ places : List Nat,
      (places.countP fun place => (contents place).any fun other =>
        decide (Value.nestingAll other < Value.nestingAll items)) ≤
      places.countP fun place => (contents place).any fun other =>
        decide (Value.nestingAll other < Value.nestingAll items + 1) := by
    intro places
    refine List.countP_mono_left fun place _ hcount => ?_
    cases hother : contents place with
    | none => rw [hother] at hcount; cases hcount
    | some other =>
      rw [hother] at hcount
      exact decide_eq_true (Nat.lt_succ_of_lt (of_decide_eq_true hcount))
  unfold shallow
  rw [hrange, List.countP_append, List.countP_append, List.countP_cons, List.countP_cons]
  have hnot : decide (Value.nestingAll items < Value.nestingAll items) = false :=
    decide_eq_false (Nat.lt_irrefl _)
  have hself : decide (Value.nestingAll items < Value.nestingAll items + 1) = true :=
    decide_eq_true (Nat.lt_succ_self _)
  rw [h, Option.any_some, Option.any_some, hnot, hself, if_neg Bool.false_ne_true, if_pos rfl]
  have hbefore := hle before
  have hafter := hle after
  omega

namespace Describes
variable {contents : Contents} {heap : Heap} {object other : Object} {value value' : Value}

theorem nesting_le_shallow (h : contents.Describes heap) {depth : Nat}
    (hvalue : Represents contents object value) (hdepth : value.nesting = depth) :
    depth ≤ contents.shallow heap.lists.size depth := by
  induction depth generalizing object value with
  | zero => exact Nat.zero_le _
  | succ depth ih =>
    cases hvalue with
    | @list place items hitems =>
      have hnesting : Value.nestingAll items = depth := Nat.succ.inj hdepth
      have hlt := shallow_lt (h.bound place items hitems) hitems
      rw [hnesting] at hlt
      cases items with
      | nil =>
        have hzero : depth = 0 := hnesting.symm
        omega
      | cons first rest =>
        obtain ⟨item, hitem, heq⟩ := Value.exists_nesting_eq (List.cons_ne_nil first rest)
        obtain ⟨inner, hinner⟩ := exists_represents (h.items place _ hitems) hitem
        have := ih hinner (heq.trans hnesting)
        omega
    | _ => cases hdepth

/-- Lists nest no deeper than there are lists. -/
theorem nesting_le (h : contents.Describes heap) (hvalue : Represents contents object value) :
    value.nesting ≤ heap.lists.size :=
  Nat.le_trans (h.nesting_le_shallow hvalue rfl) (shallow_le ..)

theorem textWithin (h : contents.Describes heap) {depth : Nat}
    (hvalue : Represents contents object value) (hdepth : value.nesting ≤ depth) :
    heap.textWithin depth object = value.text := by
  induction depth generalizing object value with
  | zero =>
    cases hvalue with
    | list => cases hdepth
    | _ => rfl
  | succ depth ih =>
    cases hvalue with
    | @list place items hitems =>
      have hmap : (heap.items place).toList.map (heap.textWithin depth) =
          items.map Value.text := by
        have hsmall : ∀ item ∈ items, item.nesting ≤ depth := fun item hitem =>
          Nat.le_trans (Value.nesting_le_nestingAll hitem) (Nat.le_of_succ_le_succ hdepth)
        have hall := h.items place items hitems
        generalize (heap.items place).toList = objects at hall
        clear hitems hdepth
        induction hall with
        | nil => rfl
        | cons hfirst _ ihrest =>
          rw [List.map_cons, List.map_cons, ih hfirst (hsmall _ List.mem_cons_self),
            ihrest fun item hitem => hsmall item (List.mem_cons_of_mem _ hitem)]
      rw [Heap.textWithin, Value.text, Value.texts_eq_map, hmap]
    | _ => rfl

/-- An object is printed as the value it stands for. -/
theorem text (h : contents.Describes heap) (hvalue : Represents contents object value) :
    heap.text object = value.text :=
  h.textWithin hvalue (h.nesting_le hvalue)

theorem sameItems_toList (same : Object → Object → Bool) (a b : Array Object) :
    Heap.sameItems same a b = (a.toList.length == b.toList.length &&
      (a.toList.zip b.toList).all fun pair => same pair.1 pair.2) := by
  rw [Heap.sameItems, ← Array.all_toList, Array.toList_zip, Array.length_toList,
    Array.length_toList]

theorem sameItems_eq_equalAll {same : Object → Object → Bool} {objects others : List Object}
    {items items' : List Value} (hitems : List.Forall₂ (Represents contents) objects items)
    (hitems' : List.Forall₂ (Represents contents) others items')
    (hsame : ∀ {object other item item'}, item ∈ items → Represents contents object item →
      Represents contents other item' → same object other = item.equal item') :
    (objects.length == others.length && (objects.zip others).all fun pair => same pair.1 pair.2) =
      Value.equalAll items items' := by
  induction hitems generalizing others items' with
  | nil => cases hitems' <;> rfl
  | @cons object item objects items hfirst _ ih =>
    cases hitems' with
    | nil => rfl
    | cons hfirst' hrest' =>
      have hrest := ih hrest' fun hitem => hsame (List.mem_cons_of_mem _ hitem)
      rw [Value.equalAll, ← hrest, ← hsame List.mem_cons_self hfirst hfirst', List.zip_cons_cons,
        List.all_cons, List.length_cons, List.length_cons, Bool.and_left_comm]
      congr 2
      simp

theorem sameWithin (h : contents.Describes heap) {depth : Nat}
    (hvalue : Represents contents object value) (hother : Represents contents other value')
    (hdepth : value.nesting ≤ depth) :
    heap.sameWithin depth object other = value.equal value' := by
  induction depth generalizing object other value value' with
  | zero =>
    cases hvalue with
    | list => cases hdepth
    | _ => cases hother <;> rfl
  | succ depth ih =>
    cases hvalue with
    | @list place items hitems =>
      cases hother with
      | @list place' items' hitems' =>
        have hsmall : ∀ item ∈ items, item.nesting ≤ depth := fun item hitem =>
          Nat.le_trans (Value.nesting_le_nestingAll hitem) (Nat.le_of_succ_le_succ hdepth)
        have hall := h.items place items hitems
        have hall' := h.items place' items' hitems'
        rw [Heap.sameWithin, Value.equal, sameItems_toList]
        exact sameItems_eq_equalAll hall hall' fun hitem hobject hother =>
          ih hobject hother (hsmall _ hitem)
      | _ => rfl
    | _ => cases hother <;> rfl

/-- Objects are the same where the values they stand for are. -/
theorem same (h : contents.Describes heap) (hvalue : Represents contents object value)
    (hother : Represents contents other value') :
    heap.same object other = value.equal value' := by
  refine h.sameWithin hvalue hother ?_
  have hle := h.nesting_le hvalue
  have hsquare := Nat.le_mul_self heap.lists.size
  omega

end Describes
end Contents
end CatScript
