import CatScript.Machine.Run
import CatScript.Proofs.Code.Layouts

/-! # References to lists

An instruction that works on values gives no references to lists but those it has found: on the
stack, in slots and fields, in lists and in iterators (`Activation.step_spares`).  So whatever is
true of all lists that are referred to stays so.  The lists themselves are left as they are. -/
set_option autoImplicit false
namespace CatScript

/-- The object is no list but one of those with a property. -/
def Object.Within (P : Nat → Prop) (object : Object) : Prop :=
  ∀ place, object = .list place → P place

def Operand.Within (P : Nat → Prop) (operand : Operand) : Prop :=
  ∀ place, operand = .ref (.list place) → P place

structure Shared.Within (P : Nat → Prop) (shared : Shared) : Prop where
  fields : ∀ entry ∈ shared.fields, entry.2.Within P
  items : ∀ place, ∀ object ∈ shared.heap.items place, object.Within P
  iterators : ∀ iteration ∈ shared.heap.iterators, P iteration.list

/-- The stack has a number of operands above another one; they refer to no list but those with a
property. -/
def Above (P : Nat → Prop) (below : List Operand) : Nat → List Operand → Prop
  | 0, stack => stack = below
  | count + 1, stack => ∃ operand rest, stack = operand :: rest ∧ operand.Within P ∧
    Above P below count rest

/-- What the act gives has a property, no list changes, and nothing refers to a list but those with
a property. -/
def Spares {α : Type} (P : Nat → Prop) (act : Act α) (Q : α → Prop) : Prop :=
  ∀ shared : Shared, shared.Within P →
    match act.run shared with
    | .ok a after => Q a ∧ after.Within P ∧ after.heap.lists = shared.heap.lists
    | .error _ _ => True

section Within
variable {P P' : Nat → Prop}

theorem Object.Within.mono {object : Object} (h : object.Within P)
    (hP : ∀ place, P place → P' place) : object.Within P' := by
  intro place heq
  exact hP place (h place heq)

theorem Operand.Within.mono {operand : Operand} (h : operand.Within P)
    (hP : ∀ place, P place → P' place) : operand.Within P' := by
  intro place heq
  exact hP place (h place heq)

theorem Shared.Within.mono {shared : Shared} (h : shared.Within P)
    (hP : ∀ place, P place → P' place) : shared.Within P' := by
  refine ⟨?_, ?_, ?_⟩
  · intro entry hentry
    exact (h.fields entry hentry).mono hP
  · intro place object hobject
    exact (h.items place object hobject).mono hP
  · intro iteration hiteration
    exact hP _ (h.iterators iteration hiteration)

theorem Shared.Within.newList {shared : Shared} (h : shared.Within P) :
    Shared.Within P { shared with heap := shared.heap.newList.2 } := by
  refine ⟨h.fields, fun place object hmem => ?_, h.iterators⟩
  rw [Heap.items_newList] at hmem
  exact h.items place object hmem

theorem Shared.Within.add {shared : Shared} {place : Nat} {item : Object} (h : shared.Within P)
    (hplace : place < shared.heap.lists.size) (hitem : item.Within P) :
    Shared.Within P { shared with heap := shared.heap.add place item } := by
  refine ⟨h.fields, fun other object hmem => ?_, h.iterators⟩
  rw [Heap.items_add hplace] at hmem
  split at hmem
  · rcases Array.mem_push.1 hmem with hmem | rfl
    · exact h.items other object hmem
    · exact hitem
  · exact h.items other object hmem

theorem within_int (value : Int64) : (Operand.int value).Within P := by
  intro _ heq
  cases heq

theorem within_ref {object : Object} : (Operand.ref object).Within P ↔ object.Within P := by
  refine ⟨?_, ?_⟩
  · intro h place heq
    exact h place (by rw [heq])
  · intro h place heq
    exact h place (Operand.ref.inj heq)

theorem within_of_sort {object : Object} (h : object.sort ≠ .list) : object.Within P := by
  rintro place rfl
  exact absurd rfl h

end Within

section Acts
variable {α β : Type} {P : Nat → Prop} {act : Act α} {Q : α → Prop} {R : β → Prop}

theorem spares_pure {a : α} (h : Q a) : Spares P (pure a) Q := by
  intro _ hshared
  exact ⟨h, hshared, rfl⟩

theorem spares_throw {error : MachineError} : Spares P (throw error) Q :=
  fun _ _ => trivial

theorem spares_get : Spares P (get : Act Shared) (Shared.Within P) := by
  intro _ hshared
  exact ⟨hshared, hshared, rfl⟩

theorem spares_modify {change : Shared → Shared}
    (h : ∀ shared : Shared, shared.Within P →
      (change shared).Within P ∧ (change shared).heap.lists = shared.heap.lists) :
    Spares P (modify change : Act Unit) fun _ => True := by
  intro shared hshared
  exact ⟨trivial, h shared hshared⟩

theorem Spares.bind {next : α → Act β} (h : Spares P act Q)
    (hnext : ∀ a, Q a → Spares P (next a) R) : Spares P (act >>= next) R := by
  intro shared hshared
  have hact := h shared hshared
  simp only [EStateM.run, Bind.bind, EStateM.bind] at hact ⊢
  cases hrun : act shared with
  | error error after => trivial
  | ok a after =>
    rw [hrun] at hact
    have hthen := hnext a hact.1 after hact.2.1
    simp only [EStateM.run] at hthen
    dsimp only
    split
    · next b last hb =>
      rw [hb] at hthen
      exact ⟨hthen.1, hthen.2.1, hthen.2.2.trans hact.2.2⟩
    · trivial

end Acts

namespace Activation
variable {P : Nat → Prop} {below stack : List Operand} {count : Nat} {operand : Operand}

section Parts

theorem asInt_spares (operand : Operand) : Spares P (asInt operand) fun _ => True := by
  cases operand with
  | int value => exact spares_pure trivial
  | ref object => exact spares_throw

theorem asRef_spares (h : operand.Within P) : Spares P (asRef operand) (Object.Within P) := by
  cases operand with
  | int value => exact spares_throw
  | ref object => exact spares_pure (within_ref.1 h)

theorem above_cons (h : operand.Within P) (hstack : Above P below count stack) :
    Above P below (count + 1) (operand :: stack) :=
  ⟨operand, stack, rfl, h, hstack⟩

theorem pop_spares (hstack : Above P below (count + 1) stack) :
    Spares P (pop stack) fun top => top.1.Within P ∧ Above P below count top.2 := by
  obtain ⟨operand, rest, rfl, hoperand, hrest⟩ := hstack
  exact spares_pure ⟨hoperand, hrest⟩

theorem popInt_spares (hstack : Above P below (count + 1) stack) :
    Spares P (popInt stack) fun top => Above P below count top.2 := by
  apply (pop_spares hstack).bind
  rintro ⟨operand, rest⟩ ⟨-, hrest⟩
  exact (asInt_spares operand).bind fun _ _ => spares_pure hrest

theorem popRef_spares (hstack : Above P below (count + 1) stack) :
    Spares P (popRef stack) fun top => top.1.Within P ∧ Above P below count top.2 := by
  apply (pop_spares hstack).bind
  rintro ⟨operand, rest⟩ ⟨hoperand, hrest⟩
  exact (asRef_spares hoperand).bind fun _ hobject => spares_pure ⟨hobject, hrest⟩

theorem expectProgram_spares (object : Object) : Spares P (expectProgram object) fun _ => True := by
  cases object with
  | program => exact spares_pure trivial
  | _ => exact spares_throw

theorem expectList_spares {object : Object} (h : object.Within P) :
    Spares P (expectList object) P := by
  cases object with
  | list place => exact spares_pure (h place rfl)
  | _ => exact spares_throw

theorem expectIterator_spares (object : Object) :
    Spares P (expectIterator object) fun _ => True := by
  cases object with
  | iterator place => exact spares_pure trivial
  | _ => exact spares_throw

theorem expectKept_spares (descriptor : Descriptor) (h : operand.Within P) :
    Spares P (expectKept descriptor operand) (Operand.Within P) := by
  cases descriptor with
  | int => exact (asInt_spares operand).bind fun value _ => spares_pure (within_int value)
  | reference => exact (asRef_spares h).bind fun _ hobject => spares_pure (within_ref.2 hobject)

theorem unbox_spares (primitive : Primitive) (object : Object) :
    Spares P (unbox primitive object) fun _ => True := by
  unfold unbox
  split
  · exact spares_pure trivial
  · exact spares_pure trivial
  · exact spares_throw
  · exact spares_throw

theorem box_within (primitive : Primitive) (value : Int64) : (box primitive value).Within P := by
  cases primitive <;> exact within_of_sort nofun

theorem concat_spares (left right : Object) : Spares P (concat left right) (Object.Within P) := by
  unfold concat
  split
  · exact spares_pure (within_of_sort nofun)
  · exact spares_throw
  · exact spares_throw

theorem divide_spares (left right : Int64) : Spares P (divide left right) fun _ => True := by
  unfold divide
  split
  · exact spares_throw
  · exact spares_pure trivial

theorem binary_spares {operation : Int64 → Int64 → Act Int64}
    (h : ∀ left right, Spares P (operation left right) fun _ => True)
    (hstack : Above P below 2 stack) : Spares P (binary operation stack) (Above P below 1) := by
  apply (popInt_spares hstack).bind
  rintro ⟨right, stack⟩ hstack
  apply (popInt_spares hstack).bind
  rintro ⟨left, stack⟩ hstack
  exact (h left right).bind fun value _ => spares_pure (above_cons (within_int value) hstack)

theorem newIterator_spares {place : Nat} (h : P place) :
    Spares P (onHeap (·.newIterator place)) (Object.Within P) := by
  intro shared hshared
  refine ⟨within_of_sort nofun, ⟨hshared.fields, hshared.items, ?_⟩, rfl⟩
  intro iteration hmem
  rcases Array.mem_push.1 hmem with hmem | rfl
  · exact hshared.iterators iteration hmem
  · exact h

theorem advance_spares (place : Nat) : Spares P (modifyHeap (·.advance place)) fun _ => True := by
  refine spares_modify fun shared hshared => ⟨⟨hshared.fields, hshared.items, ?_⟩, rfl⟩
  intro iteration hmem
  obtain ⟨index, hindex, rfl⟩ := Array.mem_iff_getElem.1 hmem
  have hindex : index < shared.heap.iterators.size := by
    simpa only [Heap.advance, Array.size_modify] using hindex
  have hlist := hshared.iterators _ (Array.getElem_mem hindex)
  simp only [Heap.advance, Array.getElem_modify]
  split
  · exact hlist
  · exact hlist

theorem invoke_spares {method : Method} {takes gives : Nat}
    (hexchange : (Instruction.invoke method).exchange? = some (takes, gives))
    (hstack : Above P below takes stack) : Spares P (invoke method stack) (Above P below gives) := by
  cases method with
  | listAdd => cases hexchange
  | listIterator =>
    cases hexchange
    apply (popRef_spares hstack).bind
    rintro ⟨list, stack⟩ ⟨hlist, hstack⟩
    apply (expectList_spares hlist).bind
    intro place hplace
    exact (newIterator_spares hplace).bind fun _ hiterator =>
      spares_pure (above_cons (within_ref.2 hiterator) hstack)
  | iteratorHasNext =>
    cases hexchange
    apply (popRef_spares hstack).bind
    rintro ⟨iterator, stack⟩ ⟨-, hstack⟩
    apply spares_get.bind
    intro shared _
    exact (expectIterator_spares iterator).bind fun _ _ =>
      spares_pure (above_cons (within_int _) hstack)
  | iteratorNext =>
    cases hexchange
    apply (popRef_spares hstack).bind
    rintro ⟨iterator, stack⟩ ⟨-, hstack⟩
    apply spares_get.bind
    intro shared hshared
    apply (expectIterator_spares iterator).bind
    intro place _
    dsimp only
    split
    · exact spares_throw
    · next item hitem =>
      have hitem : item.Within P := hshared.items _ item (Array.mem_of_getElem? hitem)
      exact (advance_spares place).bind fun _ _ =>
        spares_pure (above_cons (within_ref.2 hitem) hstack)
  | stringValueOf =>
    cases hexchange
    apply (popRef_spares hstack).bind
    rintro ⟨object, stack⟩ ⟨-, hstack⟩
    exact spares_get.bind fun _ _ =>
      spares_pure (above_cons (within_ref.2 (within_of_sort nofun)) hstack)
  | stringConcat =>
    cases hexchange
    apply (popRef_spares hstack).bind
    rintro ⟨right, stack⟩ ⟨-, hstack⟩
    apply (popRef_spares hstack).bind
    rintro ⟨left, stack⟩ ⟨-, hstack⟩
    exact (concat_spares left right).bind fun _ hjoined =>
      spares_pure (above_cons (within_ref.2 hjoined) hstack)
  | objectsEquals =>
    cases hexchange
    apply (popRef_spares hstack).bind
    rintro ⟨right, stack⟩ ⟨-, hstack⟩
    apply (popRef_spares hstack).bind
    rintro ⟨left, stack⟩ ⟨-, hstack⟩
    exact spares_get.bind fun _ _ => spares_pure (above_cons (within_int _) hstack)
  | print =>
    cases hexchange
    apply (popRef_spares hstack).bind
    rintro ⟨object, stack⟩ ⟨-, hstack⟩
    apply (popRef_spares hstack).bind
    rintro ⟨target, stack⟩ ⟨-, hstack⟩
    apply (expectProgram_spares target).bind
    intro _ _
    refine (spares_modify fun shared hshared => ?_).bind fun _ _ => spares_pure hstack
    exact ⟨⟨hshared.fields, hshared.items, hshared.iterators⟩, rfl⟩

theorem load_spares {locals : Array Operand} (h : ∀ operand ∈ locals, operand.Within P)
    (slot : Slot) : Spares P (load locals slot) (Operand.Within P) := by
  unfold load
  split
  · next operand hoperand => exact spares_pure (h operand (Array.mem_of_getElem? hoperand))
  · exact spares_throw

theorem store_spares {locals : Array Operand} (h : ∀ operand ∈ locals, operand.Within P)
    (slot : Slot) (hoperand : operand.Within P) :
    Spares P (store locals slot operand) fun after => ∀ operand ∈ after, operand.Within P := by
  unfold store
  split
  · refine spares_pure fun other hmem => ?_
    rcases Array.mem_or_eq_of_mem_setIfInBounds hmem with hmem | rfl
    · exact h other hmem
    · exact hoperand
  · exact spares_throw

end Parts

/-- The activation goes on in its routine after an instruction that leaves some values; it refers to
no list but those with a property. -/
structure Follows (P : Nat → Prop) (activation : Activation) (instruction : Instruction)
    (below : List Operand) (gives : Nat) (next : Activation) : Prop where
  routine : next.routine = activation.routine
  code : next.code ∈ successors activation.routine instruction activation.code
  stack : Above P below gives next.stack
  locals : ∀ operand ∈ next.locals, operand.Within P

end Activation

def Progress.Follows (P : Nat → Prop) (activation : Activation) (instruction : Instruction)
    (below : List Operand) (gives : Nat) : Progress → Prop
  | .next later => activation.Follows P instruction below gives later
  | _ => False

namespace Activation
variable {P : Nat → Prop} {activation : Activation} {below : List Operand} {gives : Nat}

theorem jump_spares {instruction : Instruction} {label : Label}
    (hlabel : instruction.target? = some label) {stack : List Operand}
    (hstack : Above P below gives stack)
    (hlocals : ∀ operand ∈ activation.locals, operand.Within P) :
    Spares P (jump { activation with stack } label)
      (Progress.Follows P activation instruction below gives) := by
  unfold jump
  dsimp only
  cases hcode : activation.routine.target? label with
  | none => exact spares_throw
  | some code =>
    refine spares_pure ⟨rfl, ?_, hstack, hlocals⟩
    cases instruction with
    | jump | jumpIf | jumpIfZero =>
      cases hlabel
      simp [successors, hcode]
    | _ => cases hlabel

theorem next_follows {instruction : Instruction} {locals : Array Operand} {stack : List Operand}
    (hcode : activation.code ∈ successors activation.routine instruction activation.code)
    (hlocals : ∀ operand ∈ locals, operand.Within P) (hstack : Above P below gives stack) :
    Progress.Follows P activation instruction below gives (.next { activation with stack, locals }) :=
  ⟨rfl, hcode, hstack, hlocals⟩

theorem getField_spares {name : String} {descriptor : Descriptor}
    (hstack : Above P below 1 activation.stack)
    (hlocals : ∀ operand ∈ activation.locals, operand.Within P) :
    Spares P (step (.getField name descriptor) activation)
      (Progress.Follows P activation (.getField name descriptor) below 1) := by
  obtain ⟨routine, code, stack, locals⟩ := activation
  apply (popRef_spares hstack).bind
  rintro ⟨target, stack⟩ ⟨-, hstack⟩
  apply (expectProgram_spares target).bind
  intro _ _
  apply spares_get.bind
  intro shared hshared
  dsimp only
  split
  · exact spares_throw
  · next kept hkept =>
    have hkept : kept.Within P := hshared.fields _ (Scope.mem_of_find? hkept)
    exact (expectKept_spares descriptor hkept).bind fun value hvalue =>
      spares_pure (next_follows (List.mem_singleton_self code) hlocals (above_cons hvalue hstack))

theorem putField_spares {name : String} {descriptor : Descriptor}
    (hstack : Above P below 2 activation.stack)
    (hlocals : ∀ operand ∈ activation.locals, operand.Within P) :
    Spares P (step (.putField name descriptor) activation)
      (Progress.Follows P activation (.putField name descriptor) below 0) := by
  obtain ⟨routine, code, stack, locals⟩ := activation
  apply (pop_spares hstack).bind
  rintro ⟨operand, stack⟩ ⟨hoperand, hstack⟩
  apply (expectKept_spares descriptor hoperand).bind
  intro value hvalue
  apply (popRef_spares hstack).bind
  rintro ⟨target, stack⟩ ⟨-, hstack⟩
  apply (expectProgram_spares target).bind
  intro _ _
  apply spares_get.bind
  intro shared hshared
  dsimp only
  split
  · exact spares_throw
  · refine (spares_modify fun shared hshared => ?_).bind fun _ _ =>
      spares_pure (next_follows (List.mem_singleton_self code) hlocals hstack)
    refine ⟨⟨fun entry hentry => ?_, hshared.items, hshared.iterators⟩, rfl⟩
    rcases Scope.mem_bind hentry with rfl | hentry
    · exact hvalue
    · exact hshared.fields entry hentry

/-- An instruction that works on values gives no new references to lists. -/
theorem step_spares {instruction : Instruction} {takes : Nat}
    (hexchange : instruction.exchange? = some (takes, gives))
    (hstack : Above P below takes activation.stack)
    (hlocals : ∀ operand ∈ activation.locals, operand.Within P) :
    Spares P (step instruction activation)
      (Progress.Follows P activation instruction below gives) := by
  obtain ⟨routine, code, stack, locals⟩ := activation
  have hsingle : code ∈ [code] := List.mem_singleton_self code
  have hfirst : ∀ others, code ∈ code :: others := fun _ => List.mem_cons_self
  cases instruction with
  | pushInt value =>
    cases hexchange
    exact spares_pure (next_follows hsingle hlocals (above_cons (within_int _) hstack))
  | pushString text =>
    cases hexchange
    exact spares_pure (next_follows hsingle hlocals
      (above_cons (within_ref.2 (within_of_sort nofun)) hstack))
  | pushNull =>
    cases hexchange
    exact spares_pure (next_follows hsingle hlocals
      (above_cons (within_ref.2 (within_of_sort nofun)) hstack))
  | loadInt slot =>
    cases hexchange
    apply (load_spares hlocals slot).bind
    intro operand _
    exact (asInt_spares operand).bind fun value _ =>
      spares_pure (next_follows hsingle hlocals (above_cons (within_int _) hstack))
  | loadRef slot =>
    cases hexchange
    apply (load_spares hlocals slot).bind
    intro operand hoperand
    exact (asRef_spares hoperand).bind fun object hobject =>
      spares_pure (next_follows hsingle hlocals (above_cons (within_ref.2 hobject) hstack))
  | storeInt slot =>
    cases hexchange
    apply (popInt_spares hstack).bind
    rintro ⟨value, stack⟩ hstack
    exact (store_spares hlocals slot (within_int value)).bind fun locals hlocals =>
      spares_pure (next_follows hsingle hlocals hstack)
  | storeRef slot =>
    cases hexchange
    apply (popRef_spares hstack).bind
    rintro ⟨object, stack⟩ ⟨hobject, hstack⟩
    exact (store_spares hlocals slot (within_ref.2 hobject)).bind fun locals hlocals =>
      spares_pure (next_follows hsingle hlocals hstack)
  | getField name descriptor =>
    cases hexchange
    exact getField_spares hstack hlocals
  | putField name descriptor =>
    cases hexchange
    exact putField_spares hstack hlocals
  | add | sub | mul | xor =>
    cases hexchange
    apply (binary_spares (fun _ _ => spares_pure trivial) hstack).bind
    exact fun stack hstack => spares_pure (next_follows hsingle hlocals hstack)
  | div =>
    cases hexchange
    apply (binary_spares divide_spares hstack).bind
    exact fun stack hstack => spares_pure (next_follows hsingle hlocals hstack)
  | neg =>
    cases hexchange
    apply (popInt_spares hstack).bind
    rintro ⟨value, stack⟩ hstack
    exact spares_pure (next_follows hsingle hlocals (above_cons (within_int _) hstack))
  | jumpIf condition label =>
    cases hexchange
    apply (popInt_spares hstack).bind
    rintro ⟨right, stack⟩ hstack
    apply (popInt_spares hstack).bind
    rintro ⟨left, stack⟩ hstack
    dsimp only
    split
    · exact jump_spares rfl hstack hlocals
    · exact spares_pure (next_follows (hfirst _) hlocals hstack)
  | jumpIfZero label =>
    cases hexchange
    apply (popInt_spares hstack).bind
    rintro ⟨value, stack⟩ hstack
    dsimp only
    split
    · exact jump_spares rfl hstack hlocals
    · exact spares_pure (next_follows (hfirst _) hlocals hstack)
  | jump label =>
    cases hexchange
    exact jump_spares rfl hstack hlocals
  | label place =>
    cases hexchange
    exact spares_pure (next_follows hsingle hlocals hstack)
  | pop =>
    cases hexchange
    apply (pop_spares hstack).bind
    rintro ⟨operand, stack⟩ ⟨-, hstack⟩
    exact spares_pure (next_follows hsingle hlocals hstack)
  | invoke method =>
    apply (invoke_spares hexchange hstack).bind
    exact fun stack hstack => spares_pure (next_follows hsingle hlocals hstack)
  | checkCast ty =>
    cases hexchange
    apply (popRef_spares hstack).bind
    intro top _
    dsimp only
    split
    · exact spares_pure (next_follows hsingle hlocals hstack)
    · exact spares_throw
  | box primitive =>
    cases hexchange
    apply (popInt_spares hstack).bind
    rintro ⟨value, stack⟩ hstack
    exact spares_pure (next_follows hsingle hlocals
      (above_cons (within_ref.2 (box_within primitive value)) hstack))
  | unbox primitive =>
    cases hexchange
    apply (popRef_spares hstack).bind
    rintro ⟨object, stack⟩ ⟨-, hstack⟩
    exact (unbox_spares primitive object).bind fun value _ =>
      spares_pure (next_follows hsingle hlocals (above_cons (within_int value) hstack))
  | dup | newList | call | returnInt | returnRef | returnVoid => cases hexchange

end Activation
end CatScript
