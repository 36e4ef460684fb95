import CatScript.Machine.Object
import CatScript.Text.Decimal

/-! # The heap

The lists and the iterators of a run.  An iterator knows its list and how many items it has given.
Nothing is ever removed.  `items_newList` and `items_add` say what the lists hold after a change. -/
set_option autoImplicit false
namespace CatScript

/-- The place of a list in the heap, and the number of its items already given. -/
structure Iteration where
  list : Nat
  position : Nat
deriving DecidableEq, Inhabited

structure Heap where
  lists : Array (Array Object)
  iterators : Array Iteration
deriving DecidableEq

namespace Heap

def empty : Heap := ⟨#[], #[]⟩

def items (heap : Heap) (place : Nat) : Array Object :=
  heap.lists[place]?.getD #[]

def iteration (heap : Heap) (place : Nat) : Iteration :=
  heap.iterators[place]?.getD ⟨place, 0⟩

def newList (heap : Heap) : Object × Heap :=
  (.list heap.lists.size, { heap with lists := heap.lists.push #[] })

def add (heap : Heap) (place : Nat) (item : Object) : Heap :=
  { heap with lists := heap.lists.modify place (·.push item) }

def newIterator (heap : Heap) (list : Nat) : Object × Heap :=
  (.iterator heap.iterators.size, { heap with iterators := heap.iterators.push ⟨list, 0⟩ })

def advance (heap : Heap) (place : Nat) : Heap :=
  let next (state : Iteration) : Iteration := { state with position := state.position + 1 }
  { heap with iterators := heap.iterators.modify place next }

/-- The object as it is printed; `depth` limits how deep lists are followed. -/
def textWithin (heap : Heap) : (depth : Nat) → Object → String
  | _, .null => "null"
  | _, .program => "<program>"
  | _, .integer value => Text.decimal value
  | _, .boolean value => Text.truth value
  | _, .string text => text
  | _, .iterator _ => "<iterator>"
  | 0, .list _ => "[]"
  | depth + 1, .list place =>
    "[" ++ ", ".intercalate ((heap.items place).toList.map (heap.textWithin depth)) ++ "]"

/-- The object as it is printed.  Where no list holds itself, lists nest no deeper than there are
lists. -/
def text (heap : Heap) (object : Object) : String :=
  heap.textWithin heap.lists.size object

/-- Whether two lists are as long and hold the same objects at the same places. -/
def sameItems (same : Object → Object → Bool) (a b : Array Object) : Bool :=
  a.size == b.size && (a.zip b).all fun pair => same pair.1 pair.2

/-- Whether two objects are the same; lists are compared by what they hold, and iterators by their
lists and positions.  `depth` limits how deep lists are followed. -/
def sameWithin (heap : Heap) : (depth : Nat) → Object → Object → Bool
  | _, .null, .null | _, .program, .program => true
  | _, .integer a, .integer b => a == b
  | _, .boolean a, .boolean b => a == b
  | _, .string a, .string b => a == b
  | 0, .list _, .list _ | 0, .iterator _, .iterator _ => true
  | depth + 1, .list a, .list b => sameItems (heap.sameWithin depth) (heap.items a) (heap.items b)
  | depth + 1, .iterator a, .iterator b =>
    let first := heap.iteration a
    let second := heap.iteration b
    sameItems (heap.sameWithin depth) (heap.items first.list) (heap.items second.list) &&
      first.position == second.position
  | _, _, _ => false

/-- Whether two objects are the same.  Following two lists together leads through no more pairs of
lists than there are. -/
def same (heap : Heap) (a b : Object) : Bool :=
  heap.sameWithin (heap.lists.size * heap.lists.size + 1) a b

theorem items_newList (heap : Heap) (place : Nat) :
    heap.newList.2.items place = heap.items place := by
  simp only [items, newList, Array.getElem?_push]
  split
  · rename_i h; simp [h]
  · rfl

theorem items_add {heap : Heap} {place : Nat} (h : place < heap.lists.size) (item : Object)
    (other : Nat) :
    (heap.add place item).items other =
      if place = other then (heap.items other).push item else heap.items other := by
  simp only [items, add, Array.getElem?_modify]
  split
  · rename_i heq; subst heq; simp [h]
  · rfl

end Heap
end CatScript
