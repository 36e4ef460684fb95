import CatScript.Proofs.Code.Proceeding
import CatScript.Proofs.Machine.Reaches
import CatScript.Proofs.Machine.Sharing

/-! # Lists that are being built

At every point of a run some list literals are being evaluated, in the routine at work and in those
that wait.  Nothing refers to their lists but the two places on the stack of the literal itself;
all other lists are complete (`Machine.Ordered`).  One instruction keeps this so and leaves complete
lists as they are (`Machine.step_ordered`), and so does a run (`Machine.reaches_ordered`). -/
set_option autoImplicit false
namespace CatScript

def Heap.Holds (heap : Heap) (place item : Nat) : Prop :=
  .list item ∈ heap.items place

/-- No list contains itself, not even through other lists. -/
def Heap.Acyclic (heap : Heap) : Prop :=
  ∀ place, ¬Relation.TransGen heap.Holds place place

def Configuration.nextList (configuration : Configuration) : Nat :=
  configuration.shared.heap.lists.size

/-- The list is there, and it is not one of those that are being built since the configurations in
`pending`. -/
def Configuration.Complete (configuration : Configuration) (pending : List Configuration)
    (place : Nat) : Prop :=
  place < configuration.nextList ∧ place ∉ pending.map Configuration.nextList

/-- The stack is as its layout says.  A list to which items are added has been made by its literal,
with nothing above the stack as it is below the list; values refer to no list but those with a
property. -/
inductive Matches (P : Nat → Prop) (callers : List Waiting) :
    Layout → List Operand → List Configuration → Prop where
  | nil : Matches P callers [] [] []
  | value {operand : Operand} {layout : Layout} {stack : List Operand}
      {pending : List Configuration} :
      operand.Within P → Matches P callers layout stack pending →
      Matches P callers (.value :: layout) (operand :: stack) pending
  | begun {first : Configuration} {layout : Layout} {pending : List Configuration} :
      first.callers = callers → Matches P callers layout first.current.stack pending →
      Matches P callers (.begun first.current.code :: layout)
        (.ref (.list first.nextList) :: first.current.stack) (first :: pending)
  | again {operand : Operand} {layout : Layout} {stack : List Operand}
      {pending : List Configuration} :
      Matches P callers layout (operand :: stack) pending →
      Matches P callers (.again :: layout) (operand :: operand :: stack) pending

/-- A routine at work or waiting, above `callers`, goes on as its layout says; a result that it waits
for is still to come. -/
structure Waiting.Stands (table : Scope Signature) (P : Nat → Prop) (callers : List Waiting)
    (waiting : Waiting) (layout : Layout) (pending : List Configuration) : Prop where
  locals : ∀ operand ∈ waiting.caller.locals, operand.Within P
  stack : Matches P callers layout waiting.caller.stack pending
  proceeds : ∀ count, Proceeds table waiting.caller.routine count waiting.caller.code
    ((layout.values (if waiting.returns then 1 else 0)).settle waiting.caller.code)

inductive Waits (table : Scope Signature) (P : Nat → Prop) :
    List Waiting → List Configuration → Prop where
  | nil : Waits table P [] []
  | cons {waiting : Waiting} {callers : List Waiting} {layout : Layout}
      {own pending : List Configuration} :
      waiting.Stands table P callers layout own → layout.closed = true →
      Waits table P callers pending → Waits table P (waiting :: callers) (own ++ pending)

section Mono
variable {table : Scope Signature} {P P' : Nat → Prop} {callers : List Waiting} {layout : Layout}
  {stack below : List Operand} {pending : List Configuration}

theorem Matches.mono (h : Matches P callers layout stack pending)
    (hP : ∀ place, P place → P' place) : Matches P' callers layout stack pending := by
  induction h with
  | nil => exact .nil
  | value hoperand _ ih => exact .value (hoperand.mono hP) ih
  | begun hcallers _ ih => exact .begun hcallers ih
  | again _ ih => exact .again ih

theorem Waiting.Stands.mono {waiting : Waiting}
    (h : waiting.Stands table P callers layout pending) (hP : ∀ place, P place → P' place) :
    waiting.Stands table P' callers layout pending := by
  refine ⟨fun operand hmem => ?_, h.stack.mono hP, h.proceeds⟩
  exact (h.locals operand hmem).mono hP

theorem Waits.mono (h : Waits table P callers pending) (hP : ∀ place, P place → P' place) :
    Waits table P' callers pending := by
  induction h with
  | nil => exact .nil
  | cons hstands hclosed _ ih => exact .cons (hstands.mono hP) hclosed ih

theorem Above.split {count : Nat} (h : Above P below count stack) :
    (∀ operand ∈ stack.take count, operand.Within P) ∧ stack.drop count = below ∧
      count ≤ stack.length := by
  induction count generalizing stack with
  | zero =>
    cases h
    exact ⟨nofun, rfl, Nat.zero_le _⟩
  | succ count ih =>
    obtain ⟨operand, rest, rfl, hoperand, hrest⟩ := h
    obtain ⟨htake, hdrop, hlength⟩ := ih hrest
    exact ⟨List.forall_mem_cons.2 ⟨hoperand, htake⟩, hdrop, Nat.succ_le_succ hlength⟩

theorem Activation.start_within (routine : LinkedRoutine) {arguments : List Operand}
    (h : ∀ operand ∈ arguments, operand.Within P) :
    ∀ operand ∈ (start routine arguments).locals, operand.Within P := by
  intro operand hmem
  rw [start, List.mem_toArray, List.mem_append] at hmem
  rcases hmem with hmem | hmem
  · exact h operand hmem
  · rw [(List.mem_replicate.1 hmem).2]
    exact within_ref.2 (within_of_sort nofun)

theorem Matches.take {count : Nat} {layout' : Layout}
    (h : Matches P callers layout stack pending) (htake : layout.take? count = some layout') :
    ∃ below, Above P below count stack ∧ Matches P callers layout' below pending := by
  induction count generalizing layout stack with
  | zero =>
    cases htake
    exact ⟨stack, rfl, h⟩
  | succ count ih =>
    cases h with
    | nil => cases htake
    | begun _ _ => cases htake
    | again _ => cases htake
    | value hoperand hrest =>
      obtain ⟨below, habove, hbelow⟩ := ih hrest htake
      exact ⟨below, ⟨_, _, rfl, hoperand, habove⟩, hbelow⟩

theorem Matches.values {count : Nat} (h : Matches P callers layout below pending)
    (habove : Above P below count stack) :
    Matches P callers (layout.values count) stack pending := by
  induction count generalizing stack with
  | zero =>
    cases habove
    exact h
  | succ count ih =>
    obtain ⟨operand, rest, rfl, hoperand, hrest⟩ := habove
    exact .value hoperand (ih hrest)

theorem Matches.of_nil (h : Matches P callers [] stack pending) : stack = [] ∧ pending = [] := by
  cases h with
  | nil => exact ⟨rfl, rfl⟩

theorem Matches.of_value (h : Matches P callers (.value :: layout) stack pending) :
    ∃ operand rest, stack = operand :: rest ∧ operand.Within P ∧
      Matches P callers layout rest pending := by
  cases h with
  | value hoperand hrest => exact ⟨_, _, rfl, hoperand, hrest⟩

theorem Matches.of_begun {start : List Instruction}
    (h : Matches P callers (.begun start :: layout) stack pending) :
    ∃ first others, pending = first :: others ∧ start = first.current.code ∧
      first.callers = callers ∧
      stack = .ref (.list first.nextList) :: first.current.stack ∧
      Matches P callers layout first.current.stack others := by
  cases h with
  | begun hcallers hrest => exact ⟨_, _, rfl, rfl, hcallers, rfl, hrest⟩

theorem Matches.of_again (h : Matches P callers (.again :: layout) stack pending) :
    ∃ operand rest, stack = operand :: operand :: rest ∧
      Matches P callers layout (operand :: rest) pending := by
  cases h with
  | again hrest => exact ⟨_, _, rfl, hrest⟩

end Mono

/-- The run has come from `origin` to `first`, where a list literal begins, and from there on. -/
structure Machine.Passed (program : LinkedProgram) (origin first configuration : Configuration) :
    Prop where
  before : Reaches program (.running origin) (.running first)
  after : Reaches program (.running first) (.running configuration)
  literal : ∃ rest, IsLiteral first.current.code rest

/-- The literals that are being evaluated are those that have begun at `own`, in the routine at work,
and at `pending`, in the routines that wait. -/
structure Machine.Ordered (program : LinkedProgram) (table : Scope Signature)
    (origin configuration : Configuration) (layout : Layout) (own pending : List Configuration) :
    Prop where
  current : (⟨false, configuration.current⟩ : Waiting).Stands table
    (configuration.Complete (own ++ pending)) configuration.callers layout own
  callers : Waits table (configuration.Complete (own ++ pending)) configuration.callers pending
  shared : configuration.shared.Within (configuration.Complete (own ++ pending))
  distinct : ((own ++ pending).map Configuration.nextList).Nodup
  begun : ∀ first ∈ own ++ pending, first.nextList < configuration.nextList ∧
    Passed program origin first configuration
  made : ∀ place < configuration.nextList, ∃ first, first.nextList = place ∧
    Passed program origin first configuration
  acyclic : configuration.shared.heap.Acyclic

section Heaps
variable {heap heap' : Heap} {place item : Nat}

theorem Heap.items_of_lists (h : heap'.lists = heap.lists) (place : Nat) :
    heap'.items place = heap.items place := by
  rw [items, items, h]

theorem Heap.Acyclic.of_items (h : heap.Acyclic)
    (hitems : ∀ place, heap'.items place = heap.items place) : heap'.Acyclic := by
  have hholds : heap'.Holds = heap.Holds := by
    funext place item
    rw [Holds, Holds, hitems]
  rw [Acyclic, hholds]
  exact h

/-- Adding an item to a list that no list holds makes no list contain itself. -/
theorem Heap.Acyclic.add (h : heap.Acyclic) (hplace : place < heap.lists.size)
    (hunshared : ∀ other, ¬heap.Holds other place) {object : Object}
    (hobject : object ≠ .list place) : (heap.add place object).Acyclic := by
  have hholds : ∀ {a b : Nat}, (heap.add place object).Holds a b →
      b ≠ place ∧ (a ≠ place → heap.Holds a b) := by
    intro a b hab
    rw [Holds, items_add hplace] at hab
    split at hab
    · next heq =>
      subst heq
      refine ⟨?_, fun hne => absurd rfl hne⟩
      rintro rfl
      rcases Array.mem_push.1 hab with hab | hab
      · exact hunshared b hab
      · exact hobject hab.symm
    · refine ⟨?_, fun _ => hab⟩
      rintro rfl
      exact hunshared a hab
  -- Nothing leads back to the list, so a way that does not start there was there before.
  have hway : ∀ {a b : Nat}, Relation.TransGen (heap.add place object).Holds a b →
      b ≠ place ∧ (a ≠ place → Relation.TransGen heap.Holds a b) := by
    intro a b hab
    induction hab with
    | single hab => exact ⟨(hholds hab).1, fun hne => .single ((hholds hab).2 hne)⟩
    | tail _ hbc ih =>
      exact ⟨(hholds hbc).1, fun hne => .tail (ih.2 hne) ((hholds hbc).2 ih.1)⟩
  exact fun a haa => h a ((hway haa).2 (hway haa).1)

end Heaps

namespace Machine
variable {program : LinkedProgram} {table : Scope Signature}
  {origin configuration first next : Configuration} {layout : Layout}
  {own pending : List Configuration}

theorem Passed.step (h : Passed program origin first configuration)
    (hstep : step program configuration = .running next) : Passed program origin first next :=
  ⟨h.before, h.after.trans (hstep ▸ .step configuration), h.literal⟩

/-- Where no further item begins, the list of the innermost literal is complete. -/
theorem Ordered.settle (h : Ordered program table origin configuration layout own pending) :
    ∃ own', Ordered program table origin configuration
        (layout.settle configuration.current.code) own' pending ∧
      ∀ place, configuration.Complete (own ++ pending) place →
        configuration.Complete (own' ++ pending) place := by
  by_cases hclosed : layout.closed = true
  · rw [Layout.settle_closed _ hclosed]
    exact ⟨own, h, fun _ hplace => hplace⟩
  obtain ⟨start, below, rfl⟩ := Layout.exists_of_not_closed hclosed
  by_cases hdup : configuration.current.code.head? = some .dup
  · rw [Layout.settle, if_pos hdup]
    exact ⟨own, h, fun _ hplace => hplace⟩
  rw [Layout.settle, if_neg hdup]
  obtain ⟨⟨hlocals, hstack, hproceeds⟩, hcallers, hshared, hdistinct, hbegun, hmade, hacyclic⟩ := h
  obtain ⟨first, others, rfl, -, -, htop, hrest⟩ := hstack.of_begun
  obtain ⟨hfresh, hdistinct⟩ := List.nodup_cons.1 hdistinct
  obtain ⟨⟨hplace, -⟩, hbegun⟩ := List.forall_mem_cons.1 hbegun
  have hmore : ∀ place, configuration.Complete (first :: others ++ pending) place →
      configuration.Complete (others ++ pending) place :=
    fun place h => ⟨h.1, fun hmem => h.2 (List.mem_cons_of_mem _ hmem)⟩
  refine ⟨others, ⟨⟨fun operand hmem => (hlocals operand hmem).mono hmore, ?_, ?_⟩,
    hcallers.mono hmore, hshared.mono hmore, hdistinct, hbegun, hmade, hacyclic⟩, hmore⟩
  · show Matches _ _ _ configuration.current.stack _
    rw [show configuration.current.stack = _ from htop]
    refine .value ?_ (hrest.mono hmore)
    rintro place heq
    cases heq
    exact ⟨hplace, hfresh⟩
  · intro count
    have hproceeds := hproceeds count
    rw [show Layout.values _ (.begun start :: below) = .begun start :: below from rfl,
      Layout.settle, if_neg hdup] at hproceeds
    exact hproceeds

/-- The run goes on: literals are being evaluated as before, and lists that were complete are
complete and have the items that they had. -/
def Advances (program : LinkedProgram) (table : Scope Signature)
    (origin configuration : Configuration) (pending : List Configuration) (next : Configuration) :
    Prop :=
  ∃ layout own others, Ordered program table origin next layout own others ∧
    ∀ place, configuration.Complete pending place → next.Complete (own ++ others) place ∧
      next.shared.heap.items place = configuration.shared.heap.items place

theorem Ordered.of_lists (h : Ordered program table origin configuration layout own pending)
    (hstep : step program configuration = .running next)
    (hlists : next.shared.heap.lists = configuration.shared.heap.lists)
    {layout' : Layout} {own' pending' : List Configuration}
    (hsame : own' ++ pending' = own ++ pending)
    (hcurrent : (⟨false, next.current⟩ : Waiting).Stands table
      (configuration.Complete (own ++ pending)) next.callers layout' own')
    (hcallers : Waits table (configuration.Complete (own ++ pending)) next.callers pending')
    (hshared : next.shared.Within (configuration.Complete (own ++ pending))) :
    Advances program table origin configuration (own ++ pending) next := by
  have hnext : next.nextList = configuration.nextList := congrArg Array.size hlists
  have hcomplete : next.Complete (own' ++ pending') = configuration.Complete (own ++ pending) := by
    funext place
    rw [Configuration.Complete, Configuration.Complete, hnext, hsame]
  refine ⟨layout', own', pending', ?_, ?_⟩
  · refine ⟨hcomplete ▸ hcurrent, hcomplete ▸ hcallers, hcomplete ▸ hshared, hsame ▸ h.distinct, ?_,
      ?_, h.acyclic.of_items (Heap.items_of_lists hlists)⟩
    · rw [hsame, hnext]
      exact fun first hmem => ⟨(h.begun first hmem).1, (h.begun first hmem).2.step hstep⟩
    · rw [hnext]
      intro place hplace
      obtain ⟨first, hfirst, hpassed⟩ := h.made place hplace
      exact ⟨first, hfirst, hpassed.step hstep⟩
  · intro place hplace
    rw [hcomplete]
    exact ⟨hplace, Heap.items_of_lists hlists place⟩

section Instructions
variable {instruction : Instruction} {rest : List Instruction} {after : Layout}

theorem Ordered.plain {takes gives : Nat}
    (h : Ordered program table origin configuration layout own pending)
    (hcode : configuration.current.code = instruction :: rest)
    (hexchange : instruction.exchange? = some (takes, gives))
    (hflow : flow (instruction :: rest) layout = some after)
    (hproceeds : ∀ code ∈ successors configuration.current.routine instruction rest, ∀ count,
      Proceeds table configuration.current.routine count code (after.settle code))
    (hstep : step program configuration = .running next) :
    Advances program table origin configuration (own ++ pending) next := by
  rw [flow_exchange hexchange, Option.map_eq_some_iff] at hflow
  obtain ⟨layout', htake, rfl⟩ := hflow
  obtain ⟨below, habove, hbelow⟩ := h.current.stack.take htake
  obtain ⟨⟨routine, code, stack, locals⟩, callers, shared, calls⟩ := configuration
  obtain rfl : code = instruction :: rest := hcode
  have hspares : Spares _ (Activation.step instruction ⟨routine, rest, stack, locals⟩) _ :=
    Activation.step_spares hexchange habove h.current.locals
  have hspares := hspares shared h.shared
  have hrun := hstep
  rw [step, Activation.advance] at hrun
  cases hresult : (Activation.step instruction ⟨routine, rest, stack, locals⟩).run shared with
  | error error shared' =>
    rw [hresult] at hrun
    cases hrun
  | ok progress shared' =>
    rw [hresult] at hrun hspares
    obtain ⟨hfollows, hwithin, hlists⟩ := hspares
    cases progress with
    | next later =>
      cases hrun
      obtain ⟨hroutine, hcode, hstack, hlocals⟩ := hfollows
      refine h.of_lists hstep hlists rfl ⟨hlocals, hbelow.values hstack, fun count => ?_⟩ h.callers
        hwithin
      show Proceeds table later.routine count later.code _
      rw [hroutine]
      exact hproceeds _ hcode count
    | call => exact hfollows.elim
    | done => exact hfollows.elim

theorem step_dup (program : LinkedProgram) {operand : Operand} {below : List Operand}
    (hcode : configuration.current.code = .dup :: rest)
    (hstack : configuration.current.stack = operand :: below) :
    step program configuration = .running { configuration with
      current := { configuration.current with
        code := rest, stack := operand :: operand :: below } } := by
  obtain ⟨⟨routine, code, stack, locals⟩, callers, shared, calls⟩ := configuration
  cases hcode
  cases hstack
  rfl

theorem Ordered.dup (h : Ordered program table origin configuration layout own pending)
    (hcode : configuration.current.code = .dup :: rest)
    (hflow : flow (.dup :: rest) layout = some after)
    (hproceeds : ∀ count,
      Proceeds table configuration.current.routine count rest (after.settle rest))
    (hstep : step program configuration = .running next) :
    Advances program table origin configuration (own ++ pending) next := by
  obtain ⟨start, below, rfl, rfl⟩ := eq_of_flow_dup hflow
  obtain ⟨first, others, rfl, -, -, hstack, -⟩ := h.current.stack.of_begun
  have hrun := step_dup program hcode hstack
  cases hrun.symm.trans hstep
  refine h.of_lists hstep rfl rfl ⟨h.current.locals, .again ?_, hproceeds⟩ h.callers h.shared
  rw [← hstack]
  exact h.current.stack

theorem step_newList (program : LinkedProgram)
    (hcode : configuration.current.code = .newList :: rest) :
    step program configuration = .running { configuration with
      current := { configuration.current with
        code := rest
        stack := .ref (.list configuration.nextList) :: configuration.current.stack }
      shared := { configuration.shared with heap := configuration.shared.heap.newList.2 } } := by
  obtain ⟨⟨routine, code, stack, locals⟩, callers, shared, calls⟩ := configuration
  cases hcode
  rfl

theorem Ordered.newList (h : Ordered program table origin configuration layout own pending)
    (hcode : configuration.current.code = .newList :: rest)
    (hreaches : Reaches program (.running origin) (.running configuration))
    (hallowed : Allowed table (.newList :: rest) layout)
    (hproceeds : ∀ count, Proceeds table configuration.current.routine count rest
      (Layout.settle rest (.begun (.newList :: rest) :: layout)))
    (hstep : step program configuration = .running next) :
    Advances program table origin configuration (own ++ pending) next := by
  have hself : Passed program origin configuration next :=
    ⟨hreaches, hstep ▸ .step configuration, hcode ▸ hallowed⟩
  have hpassed : ∀ first, Passed program origin first configuration →
      Passed program origin first next := fun first h => h.step hstep
  cases (step_newList program hcode).symm.trans hstep
  have hitems := Heap.items_newList configuration.shared.heap
  have hsize : configuration.shared.heap.newList.2.lists.size = configuration.nextList + 1 := by
    rw [Heap.newList, Array.size_push]
    rfl
  have hmore : ∀ place, configuration.Complete (own ++ pending) place →
      place < configuration.shared.heap.newList.2.lists.size ∧
        place ∉ (configuration :: own ++ pending).map Configuration.nextList := by
    rintro place ⟨hplace, hmem⟩
    refine ⟨by omega, ?_⟩
    rw [List.cons_append, List.map_cons, List.mem_cons, not_or]
    exact ⟨Nat.ne_of_lt hplace, hmem⟩
  obtain ⟨⟨hlocals, hstack, -⟩, hcallers, hshared, hdistinct, hbegun, hmade, hacyclic⟩ := h
  refine ⟨.begun configuration.current.code :: layout, configuration :: own, pending,
    ⟨⟨fun operand hmem => (hlocals operand hmem).mono hmore, .begun rfl (hstack.mono hmore),
      hcode ▸ hproceeds⟩, hcallers.mono hmore, hshared.newList.mono hmore, ?_, ?_, ?_,
      hacyclic.of_items hitems⟩, fun place hplace => ⟨hmore place hplace, hitems place⟩⟩
  · rw [List.cons_append, List.map_cons, List.nodup_cons]
    refine ⟨fun hmem => ?_, hdistinct⟩
    obtain ⟨first, hfirst, heq⟩ := List.mem_map.1 hmem
    exact Nat.ne_of_lt (hbegun first hfirst).1 heq
  · refine List.forall_mem_cons.2
      ⟨⟨Nat.lt_of_lt_of_eq (Nat.lt_succ_self _) hsize.symm, hself⟩, fun first hfirst => ?_⟩
    obtain ⟨hplace, hfirst⟩ := hbegun first hfirst
    exact ⟨Nat.lt_of_lt_of_eq (Nat.lt_succ_of_lt hplace) hsize.symm, hpassed first hfirst⟩
  · intro place hplace
    have hplace : place < configuration.nextList + 1 := hsize ▸ hplace
    rcases Nat.lt_succ_iff_lt_or_eq.1 hplace with hplace | rfl
    · obtain ⟨first, heq, hfirst⟩ := hmade place hplace
      exact ⟨first, heq, hpassed first hfirst⟩
    · exact ⟨configuration, rfl, hself⟩

theorem step_add {operand : Operand} {place : Nat} {below : List Operand}
    (hcode : configuration.current.code = .invoke .listAdd :: rest)
    (hstack : configuration.current.stack = operand :: .ref (.list place) :: below)
    (hstep : step program configuration = .running next) :
    ∃ item, operand = .ref item ∧ next = { configuration with
      current := { configuration.current with code := rest, stack := .int 1 :: below }
      shared := { configuration.shared with
        heap := configuration.shared.heap.add place item } } := by
  obtain ⟨⟨routine, code, stack, locals⟩, callers, shared, calls⟩ := configuration
  cases hcode
  cases hstack
  cases operand with
  | int value => cases hstep
  | ref item =>
    cases hstep
    exact ⟨item, rfl, rfl⟩

theorem Ordered.add (h : Ordered program table origin configuration layout own pending)
    (hcode : configuration.current.code = .invoke .listAdd :: rest)
    (hflow : flow (.invoke .listAdd :: rest) layout = some after)
    (hproceeds : ∀ count,
      Proceeds table configuration.current.routine count rest (after.settle rest))
    (hstep : step program configuration = .running next) :
    Advances program table origin configuration (own ++ pending) next := by
  obtain ⟨start, below, rfl, rfl⟩ := eq_of_flow_add hflow
  obtain ⟨operand, stack, hstack, hoperand, habove⟩ := h.current.stack.of_value
  obtain ⟨again, others, rfl, hbegun⟩ := habove.of_again
  obtain ⟨first, others, rfl, rfl, hcallers, hfirst, hbelow⟩ := hbegun.of_begun
  cases hfirst
  obtain ⟨item, rfl, hnext⟩ := step_add hcode hstack hstep
  have hpassed : ∀ first, Passed program origin first configuration →
      Passed program origin first next := fun first h => h.step hstep
  subst hnext
  obtain ⟨⟨hlocals, -, -⟩, hwaits, hshared, hdistinct, hbegun', hmade, hacyclic⟩ := h
  obtain ⟨⟨hplace, -⟩, -⟩ := List.forall_mem_cons.1 hbegun'
  have hopen : ¬configuration.Complete (first :: others ++ pending) first.nextList :=
    fun h => h.2 List.mem_cons_self
  have hitems := Heap.items_add hplace item
  have hsize : (configuration.shared.heap.add first.nextList item).lists.size =
      configuration.nextList := by
    rw [Heap.add, Array.size_modify]
    rfl
  have hsame : ∀ place, configuration.Complete (first :: others ++ pending) place →
      place < (configuration.shared.heap.add first.nextList item).lists.size ∧
        place ∉ (first :: others ++ pending).map Configuration.nextList :=
    fun place h => ⟨hsize ▸ h.1, h.2⟩
  refine ⟨.value :: .begun first.current.code :: below, first :: others, pending,
    ⟨⟨fun operand hmem => (hlocals operand hmem).mono hsame,
        .value (within_int 1) (.begun hcallers (hbelow.mono hsame)), hproceeds⟩,
      hwaits.mono hsame, (hshared.add hplace (within_ref.1 hoperand)).mono hsame, hdistinct, ?_, ?_,
      ?_⟩, ?_⟩
  · intro other hother
    obtain ⟨hother, hpassed'⟩ := hbegun' other hother
    exact ⟨Nat.lt_of_lt_of_eq hother hsize.symm, hpassed other hpassed'⟩
  · intro place hplace
    obtain ⟨other, heq, hother⟩ := hmade place (Nat.lt_of_lt_of_eq hplace hsize)
    exact ⟨other, heq, hpassed other hother⟩
  · refine hacyclic.add hplace (fun other hother => hopen (hshared.items other _ hother _ rfl)) ?_
    rintro rfl
    exact hopen (hoperand _ rfl)
  · intro place hcomplete
    refine ⟨hsame place hcomplete, ?_⟩
    rw [hitems, if_neg]
    rintro rfl
    exact hopen hcomplete

theorem enter_running {name : String} {arguments : List Operand} {waiting : Waiting}
    (h : enter program configuration name arguments waiting = .running next) :
    ∃ routine, program.routines.find? name = some routine ∧ next = { configuration with
      current := .start routine arguments
      callers := waiting :: configuration.callers
      calls := (name, configuration.callers.length) :: configuration.calls } := by
  unfold enter callee at h
  cases hroutine : program.routines.find? name with
  | none =>
    rw [hroutine] at h
    cases h
  | some routine =>
    rw [hroutine] at h
    dsimp only at h
    split at h
    · cases h
    · next current hcurrent =>
      split at hcurrent
      · cases hcurrent
      · split at hcurrent
        · cases hcurrent
        · cases hcurrent
          cases h
          exact ⟨routine, rfl, rfl⟩

theorem step_call {name : String} {argc : Nat} {returns : Bool}
    (hcode : configuration.current.code = .call name argc returns :: rest)
    (hlength : ¬configuration.current.stack.length < argc + 1) :
    step program configuration = enter program configuration name
      (configuration.current.stack.take (argc + 1)).reverse
      ⟨returns, { configuration.current with
        code := rest, stack := configuration.current.stack.drop (argc + 1) }⟩ := by
  obtain ⟨⟨routine, code, stack, locals⟩, callers, shared, calls⟩ := configuration
  cases hcode
  simp only [step, Activation.advance, Activation.step, if_neg hlength]
  rfl

theorem Ordered.call {name : String} {argc : Nat} {returns : Bool} (hsteady : program.Steady table)
    (h : Ordered program table origin configuration layout own pending)
    (hcode : configuration.current.code = .call name argc returns :: rest)
    (hflow : flow (.call name argc returns :: rest) layout = some after)
    (hallowed : Allowed table (.call name argc returns :: rest) layout)
    (hproceeds : ∀ count,
      Proceeds table configuration.current.routine count rest (after.settle rest))
    (hstep : step program configuration = .running next) :
    Advances program table origin configuration (own ++ pending) next := by
  rw [flow, Option.map_eq_some_iff] at hflow
  obtain ⟨layout', htake, rfl⟩ := hflow
  obtain ⟨below, habove, hbelow⟩ := h.current.stack.take htake
  obtain ⟨hfound, hclosed⟩ := hallowed
  have hclosed := hclosed layout' htake
  obtain ⟨harguments, hdrop, hlength⟩ := habove.split
  obtain ⟨routine, hroutine, rfl⟩ :=
    enter_running ((step_call hcode (Nat.not_lt_of_le hlength)).symm.trans hstep)
  refine h.of_lists hstep rfl (show [] ++ (own ++ pending) = _ from rfl)
    ⟨?_, .nil, hsteady.routines name routine hfound hroutine⟩
    (.cons ⟨h.current.locals, ?_, hproceeds⟩ hclosed h.callers) h.shared
  · exact Activation.start_within routine fun operand hmem =>
      harguments operand (List.mem_reverse.1 hmem)
  · rw [hdrop]
    exact hbelow

theorem Ordered.leave {result : Option Operand}
    (h : Ordered program table origin configuration layout [] pending)
    (hresult : ∀ operand, result = some operand → operand.Within (configuration.Complete pending))
    (hstep : step program configuration = .running next)
    (hleave : Machine.leave configuration result = .running next) :
    Advances program table origin configuration pending next := by
  obtain ⟨current, callers, shared, calls⟩ := configuration
  obtain ⟨-, hcallers, hshared, -, -, -, -⟩ := id h
  cases hcallers with
  | nil => cases hleave
  | @cons waiting callers layout' own others hstands hclosed hcallers =>
    obtain ⟨returns, caller⟩ := waiting
    cases returns with
    | false =>
      cases hleave
      exact h.of_lists hstep rfl (show own ++ others = _ from rfl) hstands hcallers hshared
    | true =>
      cases result with
      | none => cases hleave
      | some operand =>
        cases hleave
        exact h.of_lists hstep rfl (show own ++ others = _ from rfl)
          ⟨hstands.locals, .value (hresult operand rfl) hstands.stack, hstands.proceeds⟩ hcallers
          hshared

theorem step_returnVoid (hcode : configuration.current.code = .returnVoid :: rest) :
    step program configuration = Machine.leave configuration none := by
  obtain ⟨⟨routine, code, stack, locals⟩, callers, shared, calls⟩ := configuration
  cases hcode
  rfl

theorem step_returnValue {operand : Operand} {below : List Operand}
    (hinstruction : instruction = .returnInt ∨ instruction = .returnRef)
    (hcode : configuration.current.code = instruction :: rest)
    (hstack : configuration.current.stack = operand :: below)
    (hstep : step program configuration = .running next) :
    Machine.leave configuration (some operand) = .running next := by
  obtain ⟨⟨routine, code, stack, locals⟩, callers, shared, calls⟩ := configuration
  cases hcode
  cases hstack
  rcases hinstruction with rfl | rfl
  · cases operand with
    | int value => exact hstep
    | ref object => cases hstep
  · cases operand with
    | int value => cases hstep
    | ref object => exact hstep

theorem Ordered.returnValue (hinstruction : instruction = .returnInt ∨ instruction = .returnRef)
    (h : Ordered program table origin configuration layout own pending)
    (hcode : configuration.current.code = instruction :: rest)
    (hflow : flow (instruction :: rest) layout = some after)
    (hstep : step program configuration = .running next) :
    Advances program table origin configuration (own ++ pending) next := by
  obtain rfl : layout = [.value] := eq_of_flow_return hinstruction hflow
  obtain ⟨operand, below, hstack, hoperand, hrest⟩ := h.current.stack.of_value
  obtain ⟨rfl, rfl⟩ := hrest.of_nil
  refine h.leave ?_ hstep (step_returnValue hinstruction hcode hstack hstep)
  intro other heq
  exact Option.some.inj heq ▸ hoperand

theorem Ordered.returnVoid (h : Ordered program table origin configuration layout own pending)
    (hcode : configuration.current.code = .returnVoid :: rest)
    (hflow : flow (.returnVoid :: rest) layout = some after)
    (hstep : step program configuration = .running next) :
    Advances program table origin configuration (own ++ pending) next := by
  obtain rfl : layout = [] := by
    cases layout with
    | nil => rfl
    | cons entry below => cases hflow
  obtain ⟨hstack, rfl⟩ := h.current.stack.of_nil
  refine h.leave ?_ hstep ((step_returnVoid hcode).symm.trans hstep)
  exact fun _ heq => nomatch heq

end Instructions

/-- What the next instruction makes of the layout, once the list of a literal that is over is a
value. -/
theorem Ordered.ready (h : Ordered program table origin configuration layout own pending)
    {instruction : Instruction} {rest : List Instruction}
    (hcode : configuration.current.code = instruction :: rest) :
    ∃ layout' own' after, Ordered program table origin configuration layout' own' pending ∧
      (∀ place, configuration.Complete (own ++ pending) place →
        configuration.Complete (own' ++ pending) place) ∧
      flow (instruction :: rest) layout' = some after ∧
      Allowed table (instruction :: rest) layout' ∧
      ∀ code ∈ successors configuration.current.routine instruction rest, ∀ count,
        Proceeds table configuration.current.routine count code (after.settle code) := by
  obtain ⟨own', hsettled, hmore⟩ := h.settle
  rw [hcode] at hsettled
  have hproceeds : ∀ count, Proceeds table configuration.current.routine count
      (instruction :: rest) (layout.settle (instruction :: rest)) := by
    intro count
    have hproceeds := h.current.proceeds count
    rw [hcode] at hproceeds
    exact hproceeds
  obtain ⟨after, hflow, hallowed, hnext⟩ := Proceeds.always hproceeds
  exact ⟨_, own', after, hsettled, hmore, hflow, hallowed, hnext⟩

/-- One instruction leaves complete lists as they are. -/
theorem step_ordered (hsteady : program.Steady table)
    (h : Ordered program table origin configuration layout own pending)
    (hreaches : Reaches program (.running origin) (.running configuration))
    (hstep : step program configuration = .running next) :
    Advances program table origin configuration (own ++ pending) next := by
  cases hcode : configuration.current.code with
  | nil =>
    obtain ⟨⟨routine, code, stack, locals⟩, callers, shared, calls⟩ := configuration
    cases hcode
    cases hstep
  | cons instruction rest =>
    obtain ⟨layout', own', after, hready, hmore, hflow, hallowed, hnext⟩ := h.ready hcode
    suffices hadvances : Advances program table origin configuration (own' ++ pending) next by
      obtain ⟨last, own'', others, hordered, hkept⟩ := hadvances
      exact ⟨last, own'', others, hordered, fun place hplace => hkept place (hmore place hplace)⟩
    cases hexchange : instruction.exchange? with
    | some pair => exact hready.plain hcode hexchange hflow hnext hstep
    | none =>
      cases instruction with
      | dup => exact hready.dup hcode hflow (hnext rest (List.mem_singleton_self _)) hstep
      | newList =>
        cases hflow
        exact hready.newList hcode hreaches hallowed (hnext rest (List.mem_singleton_self _)) hstep
      | invoke method =>
        cases method with
        | listAdd => exact hready.add hcode hflow (hnext rest (List.mem_singleton_self _)) hstep
        | _ => cases hexchange
      | call name argc returns =>
        exact hready.call hsteady hcode hflow hallowed (hnext rest (List.mem_singleton_self _)) hstep
      | returnInt => exact hready.returnValue (.inl rfl) hcode hflow hstep
      | returnRef => exact hready.returnValue (.inr rfl) hcode hflow hstep
      | returnVoid => exact hready.returnVoid hcode hflow hstep
      | _ => cases hexchange

/-- A run leaves complete lists as they are. -/
theorem reaches_ordered (hsteady : program.Steady table)
    (h : Ordered program table origin configuration layout own pending)
    (hreaches : Reaches program (.running origin) (.running configuration))
    (hnext : Reaches program (.running configuration) (.running next)) :
    Advances program table origin configuration (own ++ pending) next := by
  obtain ⟨fuel, hrun⟩ := hnext
  replace hrun : run program fuel configuration = .running next := hrun
  induction fuel generalizing configuration layout own pending with
  | zero =>
    cases hrun
    exact ⟨layout, own, pending, h, fun _ hplace => ⟨hplace, rfl⟩⟩
  | succ fuel ih =>
    rw [run] at hrun
    cases hstep : step program configuration with
    | running middle =>
      rw [hstep] at hrun
      obtain ⟨layout', own', others, hmiddle, hkept⟩ := step_ordered hsteady h hreaches hstep
      obtain ⟨last, own'', others', hordered, hkept'⟩ :=
        ih hmiddle (hreaches.trans (hstep ▸ .step configuration)) hrun
      refine ⟨last, own'', others', hordered, fun place hplace => ?_⟩
      obtain ⟨hcomplete, hitems⟩ := hkept place hplace
      obtain ⟨hcomplete', hitems'⟩ := hkept' place hcomplete
      exact ⟨hcomplete', hitems'.trans hitems⟩
    | finished last =>
      rw [hstep] at hrun
      cases hrun
    | failed error last =>
      rw [hstep] at hrun
      cases hrun

theorem within_defaultFields {P : Nat → Prop} (fields : List Field) {scope : Scope Operand}
    (h : ∀ entry ∈ scope, entry.2.Within P) :
    ∀ entry ∈ fields.foldl (fun scope field =>
      scope.bind field.name (defaultOf field.descriptor)) scope, entry.2.Within P := by
  induction fields generalizing scope with
  | nil => exact h
  | cons field rest ih =>
    refine ih fun entry hmem => ?_
    rcases Scope.mem_bind hmem with rfl | hmem
    · cases field.descriptor
      · exact within_int 0
      · exact within_ref.2 (within_of_sort nofun)
    · exact h entry hmem

theorem start_ordered (hsteady : program.Steady table) (output : String) :
    Ordered program table (start program output) (start program output) [] [] [] := by
  have hitems : ∀ place, (start program output).shared.heap.items place = #[] := fun _ => rfl
  refine ⟨⟨Activation.start_within program.main ?_, .nil, hsteady.main⟩, .nil,
    ⟨within_defaultFields program.fields nofun, ?_, nofun⟩, .nil, nofun, nofun, ?_⟩
  · intro operand hmem
    rw [List.mem_singleton.1 hmem]
    exact within_ref.2 (within_of_sort nofun)
  · intro place object hmem
    rw [hitems] at hmem
    exact absurd hmem (Array.not_mem_empty _)
  · intro place hway
    cases hway with
    | single hmem | tail _ hmem =>
      rw [Heap.Holds, hitems] at hmem
      exact absurd hmem (Array.not_mem_empty _)

end Machine
end CatScript
