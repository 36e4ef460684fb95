import CatScript.Machine.Run
import CatScript.Proofs.Accepted
import CatScript.Proofs.Code.Integrity

/-! # Runs of intact code

Intact code can be linked, and no run of the linked code fails because something that the code
refers to is not there (`Arena.compile_intact`).  One instruction keeps what the run rests on: the
code that is left belongs to an intact routine, the routine has all its slots, and every field has a
value (`Machine.step_intact`). -/
set_option autoImplicit false
namespace CatScript

/-- The error says that something is not there that code refers to. -/
def MachineError.Dangling : MachineError → Prop
  | .undefinedLabel _ | .invalidSlot _ | .undefinedField _ | .undefinedFunction _ => True
  | _ => False

structure LinkedRoutine.Intact (program : LinkedProgram) (routine : LinkedRoutine) : Prop where
  jumps : ∀ label ∈ targets routine.code,
    ∃ code, routine.target? label = some code ∧ code <:+ routine.code
  slots : ∀ access ∈ routine.code.filterMap Instruction.access?,
    (access.1 : Nat) < routine.maxLocals
  fields : ∀ name ∈ routine.code.filterMap Instruction.field?,
    ∃ field ∈ program.fields, field.name = name
  calls : ∀ call ∈ routine.code.filterMap Instruction.callee?,
    ∃ callee, program.routines.find? call.1 = some callee

structure LinkedProgram.Intact (program : LinkedProgram) : Prop where
  routines : program.routines.All fun routine => routine.Intact program
  main : program.main.Intact program

section Linking
variable {executable : Executable} {program : LinkedProgram} {routine : Routine}

theorem Routine.Intact.linkable (h : routine.Intact executable) : Linkable routine.code := by
  refine ⟨h.distinct, fun label hlabel => ?_⟩
  exact List.count_pos_iff.1 (by rw [h.jumps label hlabel]; exact Nat.one_pos)

theorem Routine.Intact.linked (h : routine.Intact executable) {linked : LinkedRoutine}
    (hlinks : Links routine linked)
    (hfields : program.fields = executable.fields)
    (hmatch : Scope.Match Links executable.routines program.routines) : linked.Intact program := by
  obtain ⟨-, hmaxLocals, hcode, hresolves⟩ := hlinks
  refine ⟨?_, ?_, ?_, ?_⟩
  · intro label hlabel
    rw [hcode] at hlabel
    obtain ⟨before, after, hplace⟩ := exists_of_mem_places (h.linkable.closed label hlabel)
    have hsuffix : (.label label :: after) <:+ linked.code := by
      rw [hcode, hplace]
      exact List.suffix_append _ _
    exact ⟨_, hresolves label after hsuffix, hsuffix⟩
  · rw [hcode, hmaxLocals]
    exact h.slots
  · rw [hcode, hfields]
    exact h.fields
  · intro call hcall
    rw [hcode] at hcall
    obtain ⟨callee, hcallee, -⟩ := h.calls call hcall
    obtain ⟨linked, hlinked, -⟩ := hmatch.find_left hcallee
    exact ⟨linked, hlinked⟩

/-- Intact code can be linked, and linking keeps it intact. -/
theorem Executable.Intact.link (h : executable.Intact) :
    ∃ program, executable.link = .ok program ∧ program.Intact := by
  obtain ⟨program, hlink, hfields, hmatch, hmain⟩ := link_ok h.distinct
    (fun entry hentry => (h.routines entry hentry).linkable) h.main.linkable
  refine ⟨program, hlink, ?_, h.main.linked hmain hfields hmatch⟩
  intro name routine hfind
  obtain ⟨original, horiginal, hlinks⟩ := hmatch.find hfind
  exact (h.routines _ (Scope.mem_of_find? horiginal)).linked hlinks hfields hmatch

end Linking

def Shared.Holds (fields : List Field) (shared : Shared) : Prop :=
  ∀ field ∈ fields, (shared.fields.find? field.name).isSome = true

/-- What the act gives has a property, the fields keep having values, and the act does not fail
because something is not there. -/
def Sound {α : Type} (fields : List Field) (act : Act α) (P : α → Prop) : Prop :=
  ∀ shared : Shared, shared.Holds fields →
    match act.run shared with
    | .ok a after => P a ∧ after.Holds fields
    | .error error _ => ¬error.Dangling

section Acts
variable {α β : Type} {fields : List Field} {act : Act α} {P : α → Prop} {Q : β → Prop}

theorem sound_pure {a : α} (h : P a) : Sound fields (pure a) P := by
  intro _ hshared
  exact ⟨h, hshared⟩

theorem sound_throw {error : MachineError} (h : ¬error.Dangling) : Sound fields (throw error) P :=
  fun _ _ => h

theorem sound_get : Sound fields (get : Act Shared) (Shared.Holds fields) := by
  intro _ hshared
  exact ⟨hshared, hshared⟩

theorem sound_modify {change : Shared → Shared}
    (h : ∀ shared : Shared, shared.Holds fields → (change shared).Holds fields) :
    Sound fields (modify change : Act Unit) fun _ => True := by
  intro shared hshared
  exact ⟨trivial, h shared hshared⟩

theorem Sound.bind {next : α → Act β} (h : Sound fields act P)
    (hnext : ∀ a, P a → Sound fields (next a) Q) : Sound fields (act >>= next) Q := by
  intro shared hshared
  have hact := h shared hshared
  simp only [EStateM.run, Bind.bind, EStateM.bind] at hact ⊢
  cases hrun : act shared with
  | error error after =>
    rw [hrun] at hact
    exact hact
  | ok a after =>
    rw [hrun] at hact
    exact hnext a hact.1 after hact.2

theorem Sound.andThen {next : α → Act β} (h : Sound fields act fun _ => True)
    (hnext : ∀ a, Sound fields (next a) Q) : Sound fields (act >>= next) Q := by
  refine h.bind fun a _ => ?_
  exact hnext a

end Acts

namespace Activation
variable {fields : List Field}

section Parts

theorem asInt_sound (operand : Operand) : Sound fields (asInt operand) fun _ => True := by
  cases operand with
  | int value => exact sound_pure trivial
  | ref object => exact sound_throw id

theorem asRef_sound (operand : Operand) : Sound fields (asRef operand) fun _ => True := by
  cases operand with
  | int value => exact sound_throw id
  | ref object => exact sound_pure trivial

theorem pop_sound (stack : List Operand) : Sound fields (pop stack) fun _ => True := by
  cases stack with
  | nil => exact sound_throw id
  | cons operand rest => exact sound_pure trivial

theorem popInt_sound (stack : List Operand) : Sound fields (popInt stack) fun _ => True := by
  apply (pop_sound stack).andThen
  intro top
  exact (asInt_sound top.1).andThen fun _ => sound_pure trivial

theorem popRef_sound (stack : List Operand) : Sound fields (popRef stack) fun _ => True := by
  apply (pop_sound stack).andThen
  intro top
  exact (asRef_sound top.1).andThen fun _ => sound_pure trivial

theorem expectProgram_sound (object : Object) :
    Sound fields (expectProgram object) fun _ => True := by
  cases object with
  | program => exact sound_pure trivial
  | _ => exact sound_throw id

theorem expectList_sound (object : Object) : Sound fields (expectList object) fun _ => True := by
  cases object with
  | list place => exact sound_pure trivial
  | _ => exact sound_throw id

theorem expectIterator_sound (object : Object) :
    Sound fields (expectIterator object) fun _ => True := by
  cases object with
  | iterator place => exact sound_pure trivial
  | _ => exact sound_throw id

theorem expectKept_sound (descriptor : Descriptor) (operand : Operand) :
    Sound fields (expectKept descriptor operand) fun _ => True := by
  cases descriptor with
  | int => exact (asInt_sound operand).andThen fun _ => sound_pure trivial
  | reference => exact (asRef_sound operand).andThen fun _ => sound_pure trivial

theorem unbox_sound (primitive : Primitive) (object : Object) :
    Sound fields (unbox primitive object) fun _ => True := by
  unfold unbox
  split
  · exact sound_pure trivial
  · exact sound_pure trivial
  · exact sound_throw id
  · exact sound_throw id

theorem concat_sound (left right : Object) : Sound fields (concat left right) fun _ => True := by
  unfold concat
  split
  · exact sound_pure trivial
  · exact sound_throw id
  · exact sound_throw id

theorem divide_sound (left right : Int64) : Sound fields (divide left right) fun _ => True := by
  unfold divide
  split
  · exact sound_throw id
  · exact sound_pure trivial

theorem binary_sound {operation : Int64 → Int64 → Act Int64}
    (h : ∀ left right, Sound fields (operation left right) fun _ => True) (stack : List Operand) :
    Sound fields (binary operation stack) fun _ => True := by
  apply (popInt_sound stack).andThen
  intro right
  apply (popInt_sound right.2).andThen
  intro left
  exact (h left.1 right.1).andThen fun _ => sound_pure trivial

theorem onHeap_sound {α : Type} (change : Heap → α × Heap) :
    Sound fields (onHeap change) fun _ => True := by
  intro _ hshared
  exact ⟨trivial, hshared⟩

theorem modifyHeap_sound (change : Heap → Heap) :
    Sound fields (modifyHeap change) fun _ => True :=
  sound_modify fun _ hshared => hshared

theorem invoke_sound (method : Method) (stack : List Operand) :
    Sound fields (invoke method stack) fun _ => True := by
  cases method with
  | listAdd =>
    apply (popRef_sound stack).andThen
    intro item
    apply (popRef_sound item.2).andThen
    intro list
    apply (expectList_sound list.1).andThen
    intro place
    exact (modifyHeap_sound _).andThen fun _ => sound_pure trivial
  | listIterator =>
    apply (popRef_sound stack).andThen
    intro list
    apply (expectList_sound list.1).andThen
    intro place
    exact (onHeap_sound _).andThen fun _ => sound_pure trivial
  | iteratorHasNext =>
    apply (popRef_sound stack).andThen
    intro iterator
    apply sound_get.bind
    intro shared _
    exact (expectIterator_sound iterator.1).andThen fun _ => sound_pure trivial
  | iteratorNext =>
    apply (popRef_sound stack).andThen
    intro iterator
    apply sound_get.bind
    intro shared _
    apply (expectIterator_sound iterator.1).andThen
    intro place
    dsimp only
    split
    · exact sound_throw id
    · exact (modifyHeap_sound _).andThen fun _ => sound_pure trivial
  | stringValueOf =>
    apply (popRef_sound stack).andThen
    intro object
    exact sound_get.bind fun _ _ => sound_pure trivial
  | stringConcat =>
    apply (popRef_sound stack).andThen
    intro right
    apply (popRef_sound right.2).andThen
    intro left
    exact (concat_sound left.1 right.1).andThen fun _ => sound_pure trivial
  | objectsEquals =>
    apply (popRef_sound stack).andThen
    intro right
    apply (popRef_sound right.2).andThen
    intro left
    exact sound_get.bind fun _ _ => sound_pure trivial
  | print =>
    apply (popRef_sound stack).andThen
    intro object
    apply (popRef_sound object.2).andThen
    intro target
    apply (expectProgram_sound target.1).andThen
    intro _
    refine Sound.andThen (sound_modify ?_) fun _ => sound_pure trivial
    exact fun _ hshared => hshared

end Parts

/-- The code that is left is of an intact routine, and the routine has all its slots. -/
structure Intact (program : LinkedProgram) (activation : Activation) : Prop where
  routine : activation.routine.Intact program
  code : activation.code <:+ activation.routine.code
  locals : activation.routine.maxLocals ≤ activation.locals.size

end Activation

def Progress.Intact (program : LinkedProgram) : Progress → Prop
  | .next activation => activation.Intact program
  | .call name _ _ caller =>
    caller.Intact program ∧ ∃ callee, program.routines.find? name = some callee
  | .done _ => True

namespace Activation
variable {program : LinkedProgram} {activation : Activation}

theorem Intact.withStack (h : activation.Intact program) (stack : List Operand) :
    Intact program { activation with stack } :=
  ⟨h.routine, h.code, h.locals⟩

theorem Intact.size (h : activation.Intact program) {instruction : Instruction}
    (hmem : instruction ∈ activation.routine.code) {slot : Nat} {kind : Descriptor}
    (haccess : instruction.access? = some (slot, kind)) : slot < activation.locals.size := by
  have hslot := h.routine.slots (slot, kind) (List.mem_filterMap.2 ⟨instruction, hmem, haccess⟩)
  exact Nat.lt_of_lt_of_le hslot h.locals

theorem Intact.find (h : activation.Intact program) {instruction : Instruction}
    (hmem : instruction ∈ activation.routine.code) {name : String}
    (hname : instruction.field? = some name) {shared : Shared}
    (hshared : shared.Holds program.fields) : ∃ operand, shared.fields.find? name = some operand := by
  obtain ⟨field, hfield, rfl⟩ :=
    h.routine.fields name (List.mem_filterMap.2 ⟨instruction, hmem, hname⟩)
  exact Option.isSome_iff_exists.1 (hshared field hfield)

theorem load_sound {fields : List Field} {locals : Array Operand} {slot : Nat}
    (h : slot < locals.size) : Sound fields (load locals slot) fun _ => True := by
  rw [load, Array.getElem?_eq_getElem h]
  exact sound_pure trivial

theorem store_sound {fields : List Field} {locals : Array Operand} {slot : Nat}
    (h : slot < locals.size) (operand : Operand) :
    Sound fields (store locals slot operand) fun after => after.size = locals.size := by
  rw [store, if_pos h]
  exact sound_pure Array.size_setIfInBounds

theorem jump_sound {fields : List Field} (h : activation.Intact program) {instruction : Instruction}
    (hmem : instruction ∈ activation.routine.code) {label : Label}
    (htarget : instruction.target? = some label) :
    Sound fields (activation.jump label) (Progress.Intact program) := by
  obtain ⟨code, hcode, hsuffix⟩ :=
    h.routine.jumps label (List.mem_filterMap.2 ⟨instruction, hmem, htarget⟩)
  rw [jump, hcode]
  exact sound_pure ⟨h.routine, hsuffix, h.locals⟩

theorem getField_sound (h : activation.Intact program) {name : String} {descriptor : Descriptor}
    (hmem : .getField name descriptor ∈ activation.routine.code) :
    Sound program.fields (activation.step (.getField name descriptor)) (Progress.Intact program) := by
  apply (popRef_sound activation.stack).andThen
  intro target
  apply (expectProgram_sound target.1).andThen
  intro _
  apply sound_get.bind
  intro shared hshared
  obtain ⟨operand, hoperand⟩ := h.find hmem rfl hshared
  simp only [hoperand]
  exact (expectKept_sound descriptor operand).andThen fun _ => sound_pure (h.withStack _)

theorem putField_sound (h : activation.Intact program) {name : String} {descriptor : Descriptor}
    (hmem : .putField name descriptor ∈ activation.routine.code) :
    Sound program.fields (activation.step (.putField name descriptor)) (Progress.Intact program) := by
  apply (pop_sound activation.stack).andThen
  intro top
  apply (expectKept_sound descriptor top.1).andThen
  intro operand
  apply (popRef_sound top.2).andThen
  intro target
  apply (expectProgram_sound target.1).andThen
  intro _
  apply sound_get.bind
  intro shared hshared
  obtain ⟨old, hold⟩ := h.find hmem rfl hshared
  simp only [hold]
  refine Sound.andThen (sound_modify ?_) fun _ => sound_pure (h.withStack _)
  intro before hbefore field hmember
  rw [Scope.find?_bind]
  split
  · rfl
  · exact hbefore field hmember

/-- An instruction of an intact routine does not fail because something is not there, and what
follows it is intact. -/
theorem step_sound {instruction : Instruction} (h : activation.Intact program)
    (hmem : instruction ∈ activation.routine.code) :
    Sound program.fields (activation.step instruction) (Progress.Intact program) := by
  have hstack : ∀ stack, Progress.Intact program (.next { activation with stack }) := h.withStack
  cases instruction with
  | pushInt value | pushString text | pushNull => exact sound_pure (hstack _)
  | loadInt slot =>
    apply (load_sound (h.size hmem rfl)).andThen
    intro operand
    exact (asInt_sound operand).andThen fun _ => sound_pure (hstack _)
  | loadRef slot =>
    apply (load_sound (h.size hmem rfl)).andThen
    intro operand
    exact (asRef_sound operand).andThen fun _ => sound_pure (hstack _)
  | storeInt slot =>
    apply (popInt_sound activation.stack).andThen
    intro top
    apply (store_sound (h.size hmem rfl) _).bind
    intro locals hsize
    exact sound_pure ⟨h.routine, h.code, hsize ▸ h.locals⟩
  | storeRef slot =>
    apply (popRef_sound activation.stack).andThen
    intro top
    apply (store_sound (h.size hmem rfl) _).bind
    intro locals hsize
    exact sound_pure ⟨h.routine, h.code, hsize ▸ h.locals⟩
  | getField name descriptor => exact getField_sound h hmem
  | putField name descriptor => exact putField_sound h hmem
  | add | sub | mul | xor =>
    apply (binary_sound ?_ activation.stack).andThen
    · exact fun _ => sound_pure (hstack _)
    · exact fun _ _ => sound_pure trivial
  | div => exact (binary_sound divide_sound activation.stack).andThen fun _ => sound_pure (hstack _)
  | neg => exact (popInt_sound activation.stack).andThen fun _ => sound_pure (hstack _)
  | jumpIf condition label =>
    apply (popInt_sound activation.stack).andThen
    intro right
    apply (popInt_sound right.2).andThen
    intro left
    dsimp only
    split
    · exact jump_sound (h.withStack left.2) hmem rfl
    · exact sound_pure (hstack _)
  | jumpIfZero label =>
    apply (popInt_sound activation.stack).andThen
    intro top
    dsimp only
    split
    · exact jump_sound (h.withStack top.2) hmem rfl
    · exact sound_pure (hstack _)
  | jump label => exact jump_sound h hmem rfl
  | label place => exact sound_pure h
  | dup | pop => exact (pop_sound activation.stack).andThen fun _ => sound_pure (hstack _)
  | newList => exact (onHeap_sound _).andThen fun _ => sound_pure (hstack _)
  | invoke method =>
    exact (invoke_sound method activation.stack).andThen fun _ => sound_pure (hstack _)
  | call name argc returns =>
    have hcall := h.routine.calls (name, returns) (List.mem_filterMap.2 ⟨_, hmem, rfl⟩)
    unfold step
    dsimp only
    split
    · exact sound_throw id
    · exact sound_pure ⟨h.withStack _, hcall⟩
  | checkCast ty =>
    apply (popRef_sound activation.stack).andThen
    intro top
    dsimp only
    split
    · exact sound_pure (hstack _)
    · exact sound_throw id
  | box primitive => exact (popInt_sound activation.stack).andThen fun _ => sound_pure (hstack _)
  | unbox primitive =>
    apply (popRef_sound activation.stack).andThen
    intro top
    exact (unbox_sound primitive top.1).andThen fun _ => sound_pure (hstack _)
  | returnInt => exact (popInt_sound activation.stack).andThen fun _ => sound_pure trivial
  | returnRef => exact (popRef_sound activation.stack).andThen fun _ => sound_pure trivial
  | returnVoid => exact sound_pure trivial

theorem advance_sound (h : activation.Intact program) :
    Sound program.fields activation.advance (Progress.Intact program) := by
  obtain ⟨routine, code, stack, locals⟩ := activation
  cases code with
  | nil => exact sound_throw id
  | cons instruction rest =>
    obtain ⟨hroutine, hcode, hlocals⟩ := h
    have hrest : rest <:+ routine.code := (List.suffix_cons instruction rest).trans hcode
    exact step_sound ⟨hroutine, hrest, hlocals⟩ (hcode.subset List.mem_cons_self)

theorem start_intact {routine : LinkedRoutine} (h : routine.Intact program)
    (arguments : List Operand) : (start routine arguments).Intact program := by
  refine ⟨h, List.suffix_rfl, ?_⟩
  simp only [start, List.size_toArray, List.length_append, List.length_replicate]
  omega

theorem resume_sound {fields : List Field} (h : activation.Intact program) (returns : Bool)
    (result : Option Operand) : Sound fields (activation.resume returns result) (Intact program) := by
  cases returns with
  | false => exact sound_pure h
  | true =>
    cases result with
    | none => exact sound_throw id
    | some operand => exact sound_pure (h.withStack _)

end Activation

structure Configuration.Intact (program : LinkedProgram) (configuration : Configuration) : Prop where
  current : configuration.current.Intact program
  callers : ∀ waiting ∈ configuration.callers, waiting.caller.Intact program
  shared : configuration.shared.Holds program.fields

/-- The run has not failed because something is not there, and it goes on intact. -/
def Status.Intact (program : LinkedProgram) : Status → Prop
  | .running configuration => configuration.Intact program
  | .finished _ => True
  | .failed error _ => ¬error.Dangling

namespace Machine
variable {program : LinkedProgram} {configuration : Configuration}

theorem enter_intact (hprogram : program.Intact) (h : configuration.Intact program) {name : String}
    (hcallee : ∃ callee, program.routines.find? name = some callee) (arguments : List Operand)
    {waiting : Waiting} (hwaiting : waiting.caller.Intact program) :
    (enter program configuration name arguments waiting).Intact program := by
  obtain ⟨routine, hroutine⟩ := hcallee
  unfold enter callee
  rw [hroutine]
  dsimp only
  by_cases harity : arguments.length ≠ routine.params + 1
  · rw [if_pos harity]
    exact id
  · rw [if_neg harity]
    by_cases hdepth : maxCallDepth ≤ configuration.callers.length
    · rw [if_pos hdepth]
      exact id
    · rw [if_neg hdepth]
      exact ⟨Activation.start_intact (hprogram.routines name routine hroutine) arguments,
        List.forall_mem_cons.2 ⟨hwaiting, h.callers⟩, h.shared⟩

theorem leave_intact (h : configuration.Intact program) (result : Option Operand) :
    (leave configuration result).Intact program := by
  obtain ⟨current, callers, shared, calls⟩ := configuration
  cases callers with
  | nil => trivial
  | cons waiting callers =>
    obtain ⟨hwaiting, hcallers⟩ := List.forall_mem_cons.1 h.callers
    have hresume := Activation.resume_sound hwaiting waiting.returns result shared h.shared
    unfold leave
    dsimp only
    cases hrun : (waiting.caller.resume waiting.returns result).run shared with
    | error error after =>
      rw [hrun] at hresume
      exact hresume
    | ok next after =>
      rw [hrun] at hresume
      exact ⟨hresume.1, hcallers, hresume.2⟩

/-- One instruction keeps a configuration intact. -/
theorem step_intact (hprogram : program.Intact) (h : configuration.Intact program) :
    (step program configuration).Intact program := by
  obtain ⟨current, callers, shared, calls⟩ := configuration
  have hadvance := Activation.advance_sound h.current shared h.shared
  unfold step
  dsimp only
  cases hrun : current.advance.run shared with
  | error error after =>
    rw [hrun] at hadvance
    exact hadvance
  | ok progress after =>
    rw [hrun] at hadvance
    obtain ⟨hprogress, hafter⟩ := hadvance
    have h' : Configuration.Intact program ⟨current, callers, after, calls⟩ :=
      ⟨h.current, h.callers, hafter⟩
    cases progress with
    | next next => exact ⟨hprogress, h.callers, hafter⟩
    | call name arguments returns caller =>
      exact enter_intact hprogram h' hprogress.2 arguments hprogress.1
    | done result => exact leave_intact h' result

theorem run_intact (hprogram : program.Intact) (h : configuration.Intact program) (fuel : Nat) :
    (run program fuel configuration).Intact program := by
  induction fuel generalizing configuration with
  | zero => exact h
  | succ fuel ih =>
    have hstep := step_intact hprogram h
    rw [run]
    cases hnext : step program configuration with
    | running next =>
      rw [hnext] at hstep
      exact ih hstep
    | finished last => trivial
    | failed error last =>
      rw [hnext] at hstep
      exact hstep

theorem start_intact (hprogram : program.Intact) (output : String) :
    (start program output).Intact program := by
  refine ⟨Activation.start_intact hprogram.main _, nofun, ?_⟩
  intro field hmem
  rw [start, Scope.isSome_foldl_bind Field.name]
  exact .inr (List.mem_map_of_mem hmem)

end Machine

namespace Arena

theorem ok_of_toOption {ε α : Type} {m : Except ε α} {a : α} (h : m.toOption = some a) :
    m = .ok a := by
  cases m with
  | error fault => cases h
  | ok b => exact congrArg Except.ok (Option.some.inj h)

/-- Whatever an arena holds, the code that is compiled from it is intact and can be linked, and no
run of it fails because something is not there that the code refers to. -/
theorem compile_intact {arena : Arena} {executable : Executable}
    (h : arena.compile = .ok executable) :
    executable.Intact ∧ ∃ program, executable.link = .ok program ∧
      ∀ output fuel error last,
        Machine.run program fuel (Machine.start program output) = .failed error last →
          ¬error.Dangling := by
  have hintact := Executable.intact_of_compile h
  obtain ⟨program, hlink, hprogram⟩ := hintact.link
  refine ⟨hintact, program, hlink, ?_⟩
  intro output fuel error last hrun
  have hstatus := Machine.run_intact hprogram (Machine.start_intact hprogram output) fuel
  rw [hrun] at hstatus
  exact hstatus

/-- A text that is not accepted: two functions of one name return values of different types. -/
theorem compile_intact_repeated : ∃ arena executable,
    analyze "function f(x: int, x: bool): int { var y = [x] for (x in y) { print(x) } return 1 }
function f(): bool { return true }
if (f()) { var a = f() print(a) }" = .ok arena ∧ arena.diagnostics ≠ .ok [] ∧
      arena.compile = .ok executable ∧ executable.Intact ∧
      ∃ program, executable.link = .ok program ∧
        ∀ output fuel error last,
          Machine.run program fuel (Machine.start program output) = .failed error last →
            ¬error.Dangling := by
  have hcompiles : (analyze
      "function f(x: int, x: bool): int { var y = [x] for (x in y) { print(x) } return 1 }
function f(): bool { return true }
if (f()) { var a = f() print(a) }").toOption.any (fun arena =>
      arena.diagnostics ≠ .ok [] ∧ arena.compile.toOption.isSome = true) = true := by
    decide +kernel
  obtain ⟨arena, harena, hcompiles⟩ := (Option.any_eq_true _ _).1 hcompiles
  obtain ⟨hreported, hcompiles⟩ := of_decide_eq_true hcompiles
  obtain ⟨executable, hexecutable⟩ := Option.isSome_iff_exists.1 hcompiles
  have h := ok_of_toOption hexecutable
  exact ⟨arena, executable, ok_of_toOption harena, hreported, h, compile_intact h⟩

end Arena
end CatScript
