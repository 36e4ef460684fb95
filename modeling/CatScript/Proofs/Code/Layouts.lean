import CatScript.Proofs.Code.Programs

/-! # What stands on the stack

The code of a well-typed program can be followed without running it, with a layout in place of the
stack: it says of each entry whether it is a value or the list of a literal whose items are still
being added.  Only the code of the literal itself touches such a list: it doubles the reference,
adds an item through the second one, and drops the result (`flow`).

`Proceeds` says that code can be followed for a number of instructions.  What a run needs is that
code can be followed for any number of them; the number makes room for loops, whose code leads back
to itself. -/
set_option autoImplicit false
namespace CatScript

/-- An entry of a layout: a value, the list of the literal whose code begins at `start`, or a second
reference to the list below. -/
inductive Entry where
  | value
  | begun (start : List Instruction)
  | again

/-- What stands on a stack, its top first. -/
abbrev Layout := List Entry

namespace Layout

def closed : Layout → Bool
  | .begun _ :: _ => false
  | _ => true

def values : Nat → Layout → Layout
  | 0, layout => layout
  | count + 1, layout => .value :: values count layout

/-- The layout without a number of values, if it has them on top. -/
def take? : Nat → Layout → Option Layout
  | 0, layout => some layout
  | count + 1, .value :: layout => take? count layout
  | _ + 1, _ => none

/-- A literal is over where no further item begins; its list is a value from then on. -/
def settle (code : List Instruction) (layout : Layout) : Layout :=
  match layout with
  | .begun start :: below =>
    if code.head? = some .dup then .begun start :: below else .value :: below
  | layout => layout

section
variable {code : List Instruction} {layout : Layout}

theorem values_value (count : Nat) (layout : Layout) :
    values count (.value :: layout) = .value :: values count layout := by
  induction count with
  | zero => rfl
  | succ count ih => rw [values, ih, values]

@[simp] theorem take?_values (count : Nat) (layout : Layout) :
    take? count (values count layout) = some layout := by
  induction count with
  | zero => rfl
  | succ count ih => exact ih

theorem exists_of_not_closed (h : ¬layout.closed = true) :
    ∃ start below, layout = .begun start :: below := by
  unfold closed at h
  split at h
  · exact ⟨_, _, rfl⟩
  · exact absurd rfl h

theorem settle_closed (code : List Instruction) (h : layout.closed = true) :
    layout.settle code = layout := by
  unfold settle
  split
  · cases h
  · rfl

theorem closed_settle (layout : Layout) (h : code.head? ≠ some .dup) :
    (layout.settle code).closed = true := by
  by_cases hclosed : layout.closed = true
  · rw [settle_closed code hclosed]
    exact hclosed
  · obtain ⟨start, below, rfl⟩ := exists_of_not_closed hclosed
    rw [settle, if_neg h]
    rfl

end
end Layout

/-- How many values an instruction takes from the stack and how many it leaves there, where it works
on values alone and goes on in the same routine. -/
def Instruction.exchange? : Instruction → Option (Nat × Nat)
  | .pushInt _ | .pushString _ | .pushNull | .loadInt _ | .loadRef _ => some (0, 1)
  | .storeInt _ | .storeRef _ | .jumpIfZero _ | .pop => some (1, 0)
  | .getField .. | .neg | .checkCast _ | .box _ | .unbox _ => some (1, 1)
  | .putField .. | .jumpIf .. | .invoke .print => some (2, 0)
  | .add | .sub | .mul | .div | .xor => some (2, 1)
  | .jump _ | .label _ => some (0, 0)
  | .invoke .listIterator | .invoke .iteratorHasNext | .invoke .iteratorNext
  | .invoke .stringValueOf => some (1, 1)
  | .invoke .stringConcat | .invoke .objectsEquals => some (2, 1)
  | .dup | .newList | .invoke .listAdd | .call .. | .returnInt | .returnRef | .returnVoid => none

/-- What code makes of a layout with its first instruction. -/
def flow : List Instruction → Layout → Option Layout
  | .newList :: rest, layout => some (.begun (.newList :: rest) :: layout)
  | .dup :: _, .begun start :: layout => some (.again :: .begun start :: layout)
  | .invoke .listAdd :: _, .value :: .again :: .begun start :: layout =>
    some (.value :: .begun start :: layout)
  | .call _ argc returns :: _, layout =>
    (layout.take? (argc + 1)).map (Layout.values (if returns then 1 else 0))
  | .returnInt :: _, [.value] | .returnRef :: _, [.value] | .returnVoid :: _, [] => some []
  | instruction :: _, layout =>
    instruction.exchange?.bind fun (takes, gives) =>
      (layout.take? takes).map (Layout.values gives)
  | [], _ => none

def successors (routine : LinkedRoutine) (instruction : Instruction) (rest : List Instruction) :
    List (List Instruction) :=
  match instruction with
  | .jump label => (routine.target? label).toList
  | .jumpIf _ label | .jumpIfZero label => rest :: (routine.target? label).toList
  | .returnInt | .returnRef | .returnVoid => []
  | _ => [rest]

/-- The code leaves the value of an expression, as an item of a list is kept. -/
def IsItem (code : List Instruction) : Prop :=
  ∃ globals locals e label label',
    Generation.value globals locals .object e label = .ok (code, label')

inductive Fills : List Instruction → Prop where
  | nil : Fills []
  | cons {item more : List Instruction} : IsItem item → Fills more →
      Fills (.dup :: (item ++ .invoke .listAdd :: .pop :: more))

/-- The code begins with that of a list literal, and `rest` comes after the literal. -/
def IsLiteral (start rest : List Instruction) : Prop :=
  ∃ items, Fills items ∧ start = .newList :: (items ++ rest) ∧ rest.head? ≠ some .dup

/-- The code goes on by adding an item to the list of the literal with which `start` begins. -/
def Adds (start code : List Instruction) : Prop :=
  ∃ done item more rest, Fills done ∧ IsItem item ∧ Fills more ∧ rest.head? ≠ some .dup ∧
    start = .newList :: (done ++ .dup :: (item ++ .invoke .listAdd :: .pop :: (more ++ rest))) ∧
    code = .invoke .listAdd :: .pop :: (more ++ rest)

/-- Items are added by literals to their own lists, and only functions of the table are called. -/
def Allowed (table : Scope Signature) : List Instruction → Layout → Prop
  | .newList :: code, _ => ∃ rest, IsLiteral (.newList :: code) rest
  | .invoke .listAdd :: code, layout =>
    ∀ below start, layout = .value :: .again :: .begun start :: below →
      Adds start (.invoke .listAdd :: code)
  | .call name argc _ :: _, layout =>
    (table.find? name).isSome = true ∧
      ∀ below, layout.take? (argc + 1) = some below → below.closed = true
  | _, _ => True

/-- The code can be followed for a number of instructions, from a stack of the given layout. -/
def Proceeds (table : Scope Signature) (routine : LinkedRoutine) :
    Nat → List Instruction → Layout → Prop
  | 0, _, _ | _ + 1, [], _ => True
  | count + 1, instruction :: rest, layout =>
    ∃ after, flow (instruction :: rest) layout = some after ∧
      Allowed table (instruction :: rest) layout ∧
      ∀ next ∈ successors routine instruction rest,
        Proceeds table routine count next (after.settle next)

theorem Fills.append {a b : List Instruction} (ha : Fills a) (hb : Fills b) : Fills (a ++ b) := by
  induction ha with
  | nil => exact hb
  | @cons item more hitem _ ih =>
    have hfills := Fills.cons hitem ih
    simpa only [List.cons_append, List.append_assoc] using hfills

section
variable {table : Scope Signature} {instruction : Instruction} {takes gives : Nat}

theorem flow_exchange (h : instruction.exchange? = some (takes, gives)) (rest : List Instruction)
    (layout : Layout) :
    flow (instruction :: rest) layout = (layout.take? takes).map (Layout.values gives) := by
  cases instruction with
  | invoke method => cases method <;> cases h <;> rfl
  | _ => cases h <;> rfl

theorem allowed_exchange (h : instruction.exchange? = some (takes, gives)) (rest : List Instruction)
    (layout : Layout) : Allowed table (instruction :: rest) layout := by
  cases instruction with
  | invoke method => cases method <;> cases h <;> trivial
  | _ => cases h <;> trivial

theorem successors_exchange (h : instruction.exchange? = some (takes, gives))
    (htarget : instruction.target? = none) (routine : LinkedRoutine) (rest : List Instruction) :
    successors routine instruction rest = [rest] := by
  cases instruction with
  | jump | jumpIf | jumpIfZero => cases htarget
  | returnInt | returnRef | returnVoid => cases h
  | _ => rfl

theorem eq_of_flow_dup {rest : List Instruction} {layout after : Layout}
    (h : flow (.dup :: rest) layout = some after) :
    ∃ start below, layout = .begun start :: below ∧ after = .again :: .begun start :: below := by
  obtain _ | ⟨_ | start | _, below⟩ := layout <;> cases h
  exact ⟨start, below, rfl, rfl⟩

theorem eq_of_flow_add {rest : List Instruction} {layout after : Layout}
    (h : flow (.invoke .listAdd :: rest) layout = some after) :
    ∃ start below, layout = .value :: .again :: .begun start :: below ∧
      after = .value :: .begun start :: below := by
  obtain _ | ⟨_ | _ | _, _ | ⟨_ | _ | _, _ | ⟨_ | start | _, below⟩⟩⟩ := layout <;> cases h
  exact ⟨start, below, rfl, rfl⟩

theorem eq_of_flow_return {rest : List Instruction} {layout after : Layout}
    (hinstruction : instruction = .returnInt ∨ instruction = .returnRef)
    (h : flow (instruction :: rest) layout = some after) : layout = [.value] := by
  rcases hinstruction with rfl | rfl <;>
    obtain _ | ⟨_ | _ | _, _ | ⟨entry, below⟩⟩ := layout <;> cases h <;> rfl

/-- An instruction that works on values puts what it gives in the place of what it takes. -/
theorem flow_values (h : instruction.exchange? = some (takes, gives)) (rest : List Instruction)
    (layout : Layout) :
    flow (instruction :: rest) (layout.values takes) = some (layout.values gives) := by
  rw [flow_exchange h, Layout.take?_values]
  rfl

end

namespace Proceeds
variable {table : Scope Signature} {routine : LinkedRoutine} {count : Nat}
  {instruction : Instruction} {rest : List Instruction} {layout after : Layout}

theorem less {code : List Instruction} (h : Proceeds table routine (count + 1) code layout) :
    Proceeds table routine count code layout := by
  induction count generalizing code layout with
  | zero => trivial
  | succ count ih =>
    cases code with
    | nil => trivial
    | cons instruction rest =>
      obtain ⟨after, hflow, hallowed, hnext⟩ := h
      exact ⟨after, hflow, hallowed, fun next hmem => ih (hnext next hmem)⟩

/-- What an instruction makes of a layout does not depend on how long the code is followed. -/
theorem always (h : ∀ count, Proceeds table routine count (instruction :: rest) layout) :
    ∃ after, flow (instruction :: rest) layout = some after ∧
      Allowed table (instruction :: rest) layout ∧
      ∀ next ∈ successors routine instruction rest, ∀ count,
        Proceeds table routine count next (after.settle next) := by
  obtain ⟨after, hflow, hallowed, -⟩ := h 1
  refine ⟨after, hflow, hallowed, fun next hmem count => ?_⟩
  obtain ⟨other, hother, -, hnext⟩ := h (count + 1)
  cases hother.symm.trans hflow
  exact hnext next hmem

theorem of_successors (after : Layout) (hflow : flow (instruction :: rest) layout = some after)
    (hallowed : Allowed table (instruction :: rest) layout)
    (h : ∀ next ∈ successors routine instruction rest,
      Proceeds table routine count next (after.settle next)) :
    Proceeds table routine count (instruction :: rest) layout := by
  cases count with
  | zero => trivial
  | succ count => exact ⟨after, hflow, hallowed, fun next hmem => (h next hmem).less⟩

theorem plain (takes gives : Nat) (hexchange : instruction.exchange? = some (takes, gives))
    (htarget : instruction.target? = none)
    (h : Proceeds table routine count rest (layout.values gives))
    (hclosed : (layout.values gives).closed = true) :
    Proceeds table routine count (instruction :: rest) (layout.values takes) := by
  refine of_successors _ (flow_values hexchange rest layout) (allowed_exchange hexchange _ _) ?_
  rw [successors_exchange hexchange htarget]
  intro next hnext
  rw [List.mem_singleton.1 hnext, Layout.settle_closed rest hclosed]
  exact h

theorem jump {label : Label} {place : List Instruction} (hresolves : Resolves routine)
    (hplace : .label label :: place <:+ routine.code) (hclosed : layout.closed = true)
    (h : Proceeds table routine count (.label label :: place) layout) :
    Proceeds table routine count (.jump label :: rest) layout := by
  refine of_successors _ rfl trivial ?_
  simp only [successors, hresolves label place hplace, Option.toList_some, List.mem_singleton,
    forall_eq]
  exact (Layout.settle_closed _ hclosed).symm ▸ h

theorem branch (takes : Nat) {label : Label} {place : List Instruction}
    (hexchange : instruction.exchange? = some (takes, 0))
    (hsuccessors : successors routine instruction rest = rest :: (routine.target? label).toList)
    (hresolves : Resolves routine) (hplace : .label label :: place <:+ routine.code)
    (hclosed : layout.closed = true) (hrest : Proceeds table routine count rest layout)
    (h : Proceeds table routine count (.label label :: place) layout) :
    Proceeds table routine count (instruction :: rest) (layout.values takes) := by
  refine of_successors _ (flow_values hexchange rest layout) (allowed_exchange hexchange _ _) ?_
  rw [hsuccessors, hresolves label place hplace, Option.toList_some]
  intro next hnext
  rw [Layout.values, Layout.settle_closed next hclosed]
  rcases List.mem_pair.1 hnext with rfl | rfl
  · exact hrest
  · exact h

/-- Where an item is not about to begin, a value is on top of the stack. -/
theorem head_ne_dup (h : Proceeds table routine (count + 1) rest (.value :: layout)) :
    rest.head? ≠ some .dup := by
  rintro hhead
  obtain ⟨more, rfl⟩ : ∃ more, rest = .dup :: more := by
    cases rest with
    | nil => cases hhead
    | cons instruction more => exact ⟨more, by rw [Option.some.inj hhead]⟩
  obtain ⟨after, hflow, -⟩ := h
  cases hflow

end Proceeds

end CatScript
