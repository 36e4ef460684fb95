import CatScript.Proofs.Machine.Representation

/-! # How the heap grows

Code only ever adds to the heap.  Finished lists keep their values, and the lists and iterators that
other code is working on stay as they are (`Contents.Extends`).  A list literal starts a new list,
adds its items and is finished when all of them are there (`Contents.Extends.finish`). -/
set_option autoImplicit false
namespace CatScript

theorem Represents.mono {contents contents' : Contents} {object : Object} {value : Value}
    (h : Represents contents object value)
    (hfinished : ∀ place items, contents place = some items → contents' place = some items) :
    Represents contents' object value := by
  cases h with
  | null => exact .null
  | integer n => exact .integer n
  | boolean b => exact .boolean b
  | string text => exact .string text
  | list hitems => exact .list (hfinished _ _ hitems)

namespace Contents

/-- The second heap has all of the first one, and what was being worked on there is as it was. -/
structure Extends (contents : Contents) (heap : Heap) (contents' : Contents) (heap' : Heap) :
    Prop where
  finished : ∀ place items, contents place = some items → contents' place = some items
  pending : ∀ place, place < heap.lists.size → contents place = none →
    contents' place = none ∧ heap'.items place = heap.items place
  lists : heap.lists.size ≤ heap'.lists.size
  iterators : ∀ place, place < heap.iterators.size →
    heap'.iterators[place]? = heap.iterators[place]?
  iterations : heap.iterators.size ≤ heap'.iterators.size

def finish (contents : Contents) (place : Nat) (items : List Value) : Contents :=
  fun other => if other = place then some items else contents other

section
variable {contents first second third : Contents} {heap a b c : Heap} {place : Nat}

theorem Describes.newList (h : contents.Describes heap) : contents.Describes heap.newList.2 := by
  refine ⟨fun place items hitems => ?_, fun place items hitems => ?_⟩
  · have := h.bound place items hitems
    rw [Heap.newList, Array.size_push]
    omega
  · rw [Heap.items_newList]
    exact h.items place items hitems

theorem Describes.unfinished (h : contents.Describes heap) : contents heap.lists.size = none := by
  cases hitems : contents heap.lists.size with
  | none => rfl
  | some items => exact absurd (h.bound _ _ hitems) (Nat.lt_irrefl _)

theorem Describes.add (h : contents.Describes heap) (hplace : place < heap.lists.size)
    (hpending : contents place = none) (object : Object) :
    contents.Describes (heap.add place object) := by
  refine ⟨fun other items hitems => ?_, fun other items hitems => ?_⟩
  · rw [Heap.add, Array.size_modify]
    exact h.bound other items hitems
  · have hne : place ≠ other := by
      rintro rfl
      rw [hpending] at hitems
      cases hitems
    rw [Heap.items_add hplace, if_neg hne]
    exact h.items other items hitems

theorem Describes.iterators (h : contents.Describes heap) (iterators : Array Iteration) :
    contents.Describes { heap with iterators } :=
  ⟨h.bound, h.items⟩

theorem finish_of_finished (hpending : contents place = none) (items : List Value) (other : Nat)
    (others : List Value) (h : contents other = some others) :
    contents.finish place items other = some others := by
  rw [finish, if_neg]
  · exact h
  · rintro rfl
    rw [hpending] at h
    cases h

theorem Describes.finish (h : contents.Describes heap) (hplace : place < heap.lists.size)
    (hpending : contents place = none) {items : List Value}
    (hitems : List.Forall₂ (Represents contents) (heap.items place).toList items) :
    (contents.finish place items).Describes heap := by
  have hmono : ∀ {objects : List Object} {values : List Value},
      List.Forall₂ (Represents contents) objects values →
      List.Forall₂ (Represents (contents.finish place items)) objects values :=
    fun hall => hall.imp fun _ _ hrep => hrep.mono (finish_of_finished hpending items)
  refine ⟨fun other others hothers => ?_, fun other others hothers => ?_⟩
  · rw [Contents.finish] at hothers
    split at hothers
    · next heq => rw [heq]; exact hplace
    · exact h.bound other others hothers
  · rw [Contents.finish] at hothers
    split at hothers
    · next heq => cases hothers; rw [heq]; exact hmono hitems
    · exact hmono (h.items other others hothers)

namespace Extends

theorem refl (contents : Contents) (heap : Heap) : contents.Extends heap contents heap := by
  refine ⟨fun _ _ h => h, fun _ _ h => ?_, Nat.le_refl _, fun _ _ => rfl, Nat.le_refl _⟩
  exact ⟨h, rfl⟩

theorem trans (hab : first.Extends a second b) (hbc : second.Extends b third c) :
    first.Extends a third c := by
  refine ⟨fun place items h => hbc.finished _ _ (hab.finished _ _ h), fun place hplace h => ?_,
    Nat.le_trans hab.lists hbc.lists, fun place hplace => ?_,
    Nat.le_trans hab.iterations hbc.iterations⟩
  · obtain ⟨hpending, hitems⟩ := hab.pending place hplace h
    obtain ⟨hpending', hitems'⟩ := hbc.pending place (Nat.lt_of_lt_of_le hplace hab.lists) hpending
    exact ⟨hpending', hitems'.trans hitems⟩
  · exact (hbc.iterators place (Nat.lt_of_lt_of_le hplace hab.iterations)).trans
      (hab.iterators place hplace)

theorem newList (contents : Contents) (heap : Heap) :
    contents.Extends heap contents heap.newList.2 := by
  refine ⟨fun _ _ h => h, fun place _ h => ⟨h, Heap.items_newList heap place⟩, ?_, fun _ _ => rfl,
    Nat.le_refl _⟩
  rw [Heap.newList, Array.size_push]
  exact Nat.le_succ _

theorem add (h : first.Extends a second b) (hold : a.lists.size ≤ place)
    (hplace : place < b.lists.size) (object : Object) :
    first.Extends a second (b.add place object) := by
  refine ⟨h.finished, fun other hother hnone => ?_, ?_, h.iterators, h.iterations⟩
  · obtain ⟨hpending, hitems⟩ := h.pending other hother hnone
    refine ⟨hpending, ?_⟩
    rw [Heap.items_add hplace, if_neg (by omega), hitems]
  · rw [Heap.add, Array.size_modify]
    exact h.lists

theorem finish (h : first.Extends a second b) (hold : a.lists.size ≤ place)
    (hpending : second place = none) (items : List Value) :
    first.Extends a (second.finish place items) b := by
  refine ⟨fun other others hothers => ?_, fun other hother hnone => ?_, h.lists, h.iterators,
    h.iterations⟩
  · exact finish_of_finished hpending items other others (h.finished other others hothers)
  · obtain ⟨hnone, hitems⟩ := h.pending other hother hnone
    refine ⟨?_, hitems⟩
    rw [Contents.finish, if_neg (by omega), hnone]

theorem newIterator (contents : Contents) (heap : Heap) (list : Nat) :
    contents.Extends heap contents (heap.newIterator list).2 := by
  refine ⟨fun _ _ h => h, fun _ _ h => ⟨h, rfl⟩, Nat.le_refl _, fun place hplace => ?_, ?_⟩
  · rw [Heap.newIterator, Array.getElem?_push, if_neg (Nat.ne_of_lt hplace)]
  · rw [Heap.newIterator, Array.size_push]
    exact Nat.le_succ _

theorem advance (h : first.Extends a second b) (hold : a.iterators.size ≤ place) :
    first.Extends a second (b.advance place) := by
  refine ⟨h.finished, h.pending, h.lists, fun other hother => ?_, ?_⟩
  · rw [Heap.advance, Array.getElem?_modify, if_neg (by omega), h.iterators other hother]
  · rw [Heap.advance, Array.size_modify]
    exact h.iterations

end Extends
end
end Contents
end CatScript
