import CatScript.Proofs.Engines
import CatScript.Proofs.Machine.Building

/-! # Lists are immutable once built

A run that keeps track of its literals (`Machine.Ordered`) shows what becomes of a list
(`Machine.BuildsLists`).  Its literal makes it and adds its items while nothing else refers to it.
When the literal has been evaluated, or as soon as anything refers to the list, its items are
settled for good.  So the machine can share lists, where evaluation copies them, and nothing that a
program does tells the difference (`Machine.lists_immutable`). -/
set_option autoImplicit false
namespace CatScript

def Configuration.activations (configuration : Configuration) : List Activation :=
  configuration.current :: configuration.callers.map Waiting.caller

/-- No variable, no field, no list and no iterator refers to the list. -/
structure Configuration.Unshared (configuration : Configuration) (place : Nat) : Prop where
  slots : ∀ activation ∈ configuration.activations, .ref (.list place) ∉ activation.locals
  fields : ∀ entry ∈ configuration.shared.fields, entry.2 ≠ .ref (.list place)
  lists : ∀ other, ¬configuration.shared.heap.Holds other place
  iterators : ∀ iteration ∈ configuration.shared.heap.iterators, iteration.list ≠ place

/-- An instruction that adds an item belongs to the literal that has begun at `first`, in the same
activation.  It adds the item to the list that this literal has made.  The two references that the
literal has put above the stack that it found are the only ones. -/
structure Machine.AddsItem (program : LinkedProgram) (origin first configuration : Configuration)
    (item : Operand) : Prop where
  passed : Passed program origin first configuration
  code : Adds first.current.code configuration.current.code
  callers : configuration.callers = first.callers
  stack : configuration.current.stack =
    item :: .ref (.list first.nextList) :: .ref (.list first.nextList) :: first.current.stack
  item : item ≠ .ref (.list first.nextList)
  below : ∀ activation ∈ first.activations, .ref (.list first.nextList) ∉ activation.stack
  unshared : configuration.Unshared first.nextList

/-- The literal that has begun at `first` has been evaluated: its list stands above the stack that it
found, and the code after it comes next. -/
structure Machine.Evaluated (program : LinkedProgram) (origin first configuration : Configuration) :
    Prop where
  passed : Passed program origin first configuration
  code : IsLiteral first.current.code configuration.current.code
  callers : configuration.callers = first.callers
  stack : configuration.current.stack = .ref (.list first.nextList) :: first.current.stack

/-- The list has the same items from now on. -/
def Machine.Settled (program : LinkedProgram) (configuration : Configuration) (place : Nat) : Prop :=
  ∀ later, Reaches program (.running configuration) (.running later) →
    later.shared.heap.items place = configuration.shared.heap.items place

/-- In a run from `origin`, literals make lists and add items to their own lists.  A list has the same
items from the end of its literal on, and from the first reference to it on; and no list contains
itself. -/
structure Machine.BuildsLists (program : LinkedProgram) (origin : Configuration) : Prop where
  made : ∀ configuration, Reaches program (.running origin) (.running configuration) →
    ∀ place < configuration.nextList, ∃ first, first.nextList = place ∧
      Passed program origin first configuration
  adds : ∀ configuration, Reaches program (.running origin) (.running configuration) →
    configuration.current.code.head? = some (.invoke .listAdd) →
    ∃ first item, AddsItem program origin first configuration item
  evaluated : ∀ first configuration, Evaluated program origin first configuration →
    Settled program configuration first.nextList
  shared : ∀ configuration, Reaches program (.running origin) (.running configuration) →
    ∀ place, ¬configuration.Unshared place → Settled program configuration place
  acyclic : ∀ configuration, Reaches program (.running origin) (.running configuration) →
    configuration.shared.heap.Acyclic

section Waits
variable {table : Scope Signature} {P : Nat → Prop} {callers : List Waiting} {layout : Layout}
  {stack : List Operand} {pending : List Configuration} {count : Nat}

theorem Waits.locals (h : Waits table P callers pending) :
    ∀ waiting ∈ callers, ∀ operand ∈ waiting.caller.locals, operand.Within P := by
  induction h with
  | nil => exact nofun
  | cons hstands _ _ ih => exact List.forall_mem_cons.2 ⟨hstands.locals, ih⟩

theorem Matches.made (h : Matches P callers layout stack pending)
    (hP : ∀ place, P place → place < count)
    (hpending : ∀ first ∈ pending, first.nextList < count) :
    ∀ operand ∈ stack, operand.Within (· < count) := by
  induction h with
  | nil => exact nofun
  | value hoperand _ ih => exact List.forall_mem_cons.2 ⟨hoperand.mono hP, ih hpending⟩
  | begun _ _ ih =>
    obtain ⟨hfirst, hpending⟩ := List.forall_mem_cons.1 hpending
    refine List.forall_mem_cons.2 ⟨?_, ih hpending⟩
    rintro _ ⟨⟩
    exact hfirst
  | again _ ih => exact List.forall_mem_cons.2 ⟨ih hpending _ List.mem_cons_self, ih hpending⟩

theorem Waits.made (h : Waits table P callers pending) (hP : ∀ place, P place → place < count)
    (hpending : ∀ first ∈ pending, first.nextList < count) :
    ∀ waiting ∈ callers, ∀ operand ∈ waiting.caller.stack, operand.Within (· < count) := by
  induction h with
  | nil => exact nofun
  | cons hstands _ _ ih =>
    obtain ⟨hown, hpending⟩ := List.forall_mem_append.1 hpending
    exact List.forall_mem_cons.2 ⟨hstands.stack.made hP hown, ih hpending⟩

end Waits

namespace Machine
variable {program : LinkedProgram} {table : Scope Signature}
  {origin configuration first : Configuration} {layout : Layout} {own pending : List Configuration}

theorem Ordered.stacks (h : Ordered program table origin configuration layout own pending) :
    ∀ activation ∈ configuration.activations, ∀ operand ∈ activation.stack,
      operand.Within (· < configuration.nextList) := by
  have hbegun : ∀ first ∈ own ++ pending, first.nextList < configuration.nextList :=
    fun first hmem => (h.begun first hmem).1
  obtain ⟨hown, hpending⟩ := List.forall_mem_append.1 hbegun
  refine List.forall_mem_cons.2 ⟨h.current.stack.made (fun _ hplace => hplace.1) hown, ?_⟩
  exact List.forall_mem_map.2 (h.callers.made (fun _ hplace => hplace.1) hpending)

/-- Nothing but its literal refers to a list that is not complete. -/
theorem Ordered.unshared (h : Ordered program table origin configuration layout own pending)
    {place : Nat} (hopen : ¬configuration.Complete (own ++ pending) place) :
    configuration.Unshared place := by
  have hslots : ∀ activation ∈ configuration.activations, ∀ operand ∈ activation.locals,
      operand.Within (configuration.Complete (own ++ pending)) :=
    List.forall_mem_cons.2 ⟨h.current.locals, List.forall_mem_map.2 h.callers.locals⟩
  refine ⟨fun activation hmem hslot => ?_, fun entry hmem heq => ?_, fun other hmem => ?_,
    fun iteration hmem heq => ?_⟩
  · exact hopen (hslots activation hmem _ hslot place rfl)
  · exact hopen (h.shared.fields entry hmem place heq)
  · exact hopen (h.shared.items other _ hmem place rfl)
  · exact hopen (heq ▸ h.shared.iterators iteration hmem)

/-- A complete list has the same items from now on. -/
theorem Ordered.settled (hsteady : program.Steady table)
    (h : Ordered program table origin configuration layout own pending)
    (hreaches : Reaches program (.running origin) (.running configuration)) {place : Nat}
    (hplace : configuration.Complete (own ++ pending) place) :
    Settled program configuration place := by
  intro later hlater
  obtain ⟨layout', own', others, -, hkept⟩ := reaches_ordered hsteady h hreaches hlater
  exact (hkept place hplace).2

/-- Where an item is added, the literals that are being evaluated tell which one adds it. -/
theorem Ordered.adds (h : Ordered program table origin configuration layout own pending)
    (hcode : configuration.current.code.head? = some (.invoke .listAdd)) :
    ∃ first item, Passed program origin first configuration ∧
      Adds first.current.code configuration.current.code ∧
      configuration.callers = first.callers ∧ configuration.current.stack =
        item :: .ref (.list first.nextList) :: .ref (.list first.nextList) :: first.current.stack ∧
      item ≠ .ref (.list first.nextList) ∧ configuration.Unshared first.nextList := by
  obtain ⟨rest, hcode⟩ : ∃ rest, configuration.current.code = .invoke .listAdd :: rest :=
    List.head?_eq_some_iff.1 hcode
  obtain ⟨layout', own', after, hready, -, hflow, hallowed, -⟩ := h.ready hcode
  obtain ⟨start, below, rfl, rfl⟩ := eq_of_flow_add hflow
  have hadds := hallowed below start rfl
  obtain ⟨item, stack, hstack, hitem, habove⟩ := hready.current.stack.of_value
  obtain ⟨again, others, rfl, hbegun⟩ := habove.of_again
  obtain ⟨first, others, rfl, rfl, hcallers, hfirst, -⟩ := hbegun.of_begun
  cases hfirst
  have hopen : ¬configuration.Complete (first :: others ++ pending) first.nextList :=
    fun h => h.2 List.mem_cons_self
  refine ⟨first, item, (hready.begun first List.mem_cons_self).2, hcode ▸ hadds, hcallers.symm,
    hstack, ?_, hready.unshared hopen⟩
  rintro rfl
  exact hopen (hitem _ rfl)

theorem Ordered.complete (h : Ordered program table origin configuration layout own pending)
    (hfirst : .ref (.list first.nextList) ∉ first.current.stack)
    (hcode : configuration.current.code.head? ≠ some .dup)
    (hstack : configuration.current.stack = .ref (.list first.nextList) :: first.current.stack) :
    ∃ layout' own', Ordered program table origin configuration layout' own' pending ∧
      configuration.Complete (own' ++ pending) first.nextList := by
  obtain ⟨own', hsettled, -⟩ := h.settle
  refine ⟨_, own', hsettled, ?_⟩
  have hclosed := layout.closed_settle hcode
  have hmatches : Matches _ _ (layout.settle configuration.current.code)
    configuration.current.stack _ := hsettled.current.stack
  rw [hstack] at hmatches
  cases hlayout : layout.settle configuration.current.code with
  | nil =>
    rw [hlayout] at hmatches
    cases hmatches.of_nil.1
  | cons entry below =>
    rw [hlayout] at hmatches hclosed
    cases entry with
    | value =>
      obtain ⟨operand, rest, heq, hoperand, -⟩ := hmatches.of_value
      cases heq
      exact hoperand _ rfl
    | begun start => cases hclosed
    | again =>
      obtain ⟨operand, rest, heq, -⟩ := hmatches.of_again
      obtain ⟨rfl, hrest⟩ := List.cons.inj heq
      exact absurd (hrest ▸ List.mem_cons_self) hfirst

/-- A run of code that goes on as its layouts say builds lists in their literals. -/
theorem builds_lists (hsteady : program.Steady table) (output : String) :
    BuildsLists program (start program output) := by
  have hordered : ∀ configuration,
      Reaches program (.running (start program output)) (.running configuration) →
      ∃ layout own pending,
        Ordered program table (start program output) configuration layout own pending := by
    intro configuration hreaches
    obtain ⟨layout, own, pending, h, -⟩ :=
      reaches_ordered hsteady (start_ordered hsteady output) (.refl _) hreaches
    exact ⟨layout, own, pending, h⟩
  -- A list that a literal makes is new, so the stacks that it finds do not refer to it.
  have hnew : ∀ first,
      Reaches program (.running (start program output)) (.running first) →
      ∀ activation ∈ first.activations, .ref (.list first.nextList) ∉ activation.stack := by
    intro first hreaches activation hmem hoperand
    obtain ⟨layout, own, pending, h⟩ := hordered first hreaches
    exact Nat.lt_irrefl _ (h.stacks activation hmem _ hoperand _ rfl)
  refine ⟨fun configuration hreaches => ?_, fun configuration hreaches hcode => ?_,
    fun first configuration hdone => ?_, fun configuration hreaches place hshared => ?_,
    fun configuration hreaches => ?_⟩
  · obtain ⟨layout, own, pending, h⟩ := hordered configuration hreaches
    exact h.made
  · obtain ⟨layout, own, pending, h⟩ := hordered configuration hreaches
    obtain ⟨first, item, hpassed, hadds, hcallers, hstack, hitem, hunshared⟩ := h.adds hcode
    exact ⟨first, item, hpassed, hadds, hcallers, hstack, hitem, hnew first hpassed.before,
      hunshared⟩
  · obtain ⟨items, -, -, hcode⟩ := hdone.code
    have hreaches := hdone.passed.before.trans hdone.passed.after
    obtain ⟨layout, own, pending, h⟩ := hordered configuration hreaches
    obtain ⟨layout', own', h', hcomplete⟩ := h.complete
      (hnew first hdone.passed.before _ List.mem_cons_self) hcode hdone.stack
    exact h'.settled hsteady hreaches hcomplete
  · obtain ⟨layout, own, pending, h⟩ := hordered configuration hreaches
    exact h.settled hsteady hreaches (not_imp_comm.1 h.unshared hshared)
  · obtain ⟨layout, own, pending, h⟩ := hordered configuration hreaches
    exact h.acyclic

section Accepted
open Evaluation
variable {source : String} {arena : Arena}

/-- In every run of the code of an accepted text, lists are immutable once built.  Their references
are shared, and yet the run does what evaluation does with copies, from variables that have their
defaults; where no variable is missing, both engines end in the same way. -/
theorem lists_immutable (h : Accepts source arena) :
    ∃ p executable linked, arena.program? = .ok (some p) ∧ arena.compile = .ok executable ∧
      executable.link = .ok linked ∧ ∀ output, BuildsLists linked (start linked output) ∧
        Simulates linked (Evaluation.program .own p) ⟨preset p, output⟩
          (.running (start linked output)) (fun _ => Simulation.Succeeded) Simulation.Stopped ∧
        (NoneMissing p output → ∃ fuel, ∀ patience, fuel ≤ patience → SameEnding
          ((Prepared.tree (some p)).run patience output)
          ((Prepared.code linked).run patience output)) := by
  obtain ⟨p, hprogram, hp, hcompile⟩ := h.wellTyped
  obtain ⟨executable, linked, table, hexecutable, hlinked, hsteady⟩ := Generation.program_steady hp
  obtain ⟨executable', linked', hexecutable', hlinked', hruns⟩ := Simulation.program hp
  cases hexecutable'.symm.trans hexecutable
  cases hlinked'.symm.trans hlinked
  exact ⟨p, executable, linked, hprogram, hcompile.trans hexecutable, hlinked, fun output =>
    ⟨builds_lists hsteady output, hruns output,
      fun hfound => sameEnding_of_noneMissing hp hfound (hruns output)⟩⟩

/-- A text whose literals hold calls that build lists, whose loop goes through a list of lists, and
that compares lists built apart. -/
theorem lists_immutable_nested : ∃ arena p linked,
    Accepts "function pair(x : int) : list<int> { return [x, x + 1] }
var a = [pair(1), pair(2)]
for (b in a) { print([b, b]) }
print(a == [[1, 2], pair(2)])" arena ∧ arena.program? = .ok (some p) ∧
      BuildsLists linked (start linked "") ∧ ∃ fuel, ∀ patience, fuel ≤ patience →
        SameEnding ((Prepared.tree (some p)).run patience "")
          ((Prepared.code linked).run patience "") := by
  obtain ⟨arena, p, h, hp, -, hown⟩ := Evaluation.exists_of_endings (show Evaluation.endings?
    "function pair(x : int) : list<int> { return [x, x + 1] }
var a = [pair(1), pair(2)]
for (b in a) { print([b, b]) }
print(a == [[1, 2], pair(2)])" "" =
      some (("[[1, 2], [1, 2]]\n[[2, 3], [2, 3]]\ntrue\n", .ok ()),
        ("[[1, 2], [1, 2]]\n[[2, 3], [2, 3]]\ntrue\n", .ok ())) by decide +kernel)
  obtain ⟨q, executable, linked, hq, -, -, hruns⟩ := lists_immutable h
  cases hq.symm.trans hp
  obtain ⟨hbuilds, -, hsame⟩ := hruns ""
  exact ⟨arena, p, linked, h, hp, hbuilds, hsame (noneMissing_of_ending hown)⟩

end Accepted
end Machine
end CatScript
