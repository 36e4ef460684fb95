import CatScript.Proofs.Machine.Reaches
import CatScript.Proofs.Machine.Representation
import CatScript.Proofs.Code.Linking

/-! # What the instructions do

One lemma for each instruction, and for each way it can fail in the code of a well-typed program. -/
set_option autoImplicit false
namespace CatScript

/-- What stays while a routine is at work. -/
structure Site where
  routine : LinkedRoutine
  callers : List Waiting

/-- What all routines share at some point of a run, the values in its heap and the calls so far. -/
structure Moment where
  contents : Contents
  shared : Shared
  calls : List (String × Nat)

namespace Moment

def withHeap (moment : Moment) (heap : Heap) : Moment :=
  { moment with shared := { moment.shared with heap } }

def put (moment : Moment) (name : String) (operand : Operand) : Moment :=
  { moment with shared := { moment.shared with fields := moment.shared.fields.bind name operand } }

def print (moment : Moment) (text : String) : Moment :=
  { moment with shared := { moment.shared with output := moment.shared.output ++ text ++ "\n" } }

end Moment

def Site.at (site : Site) (code : List Instruction) (stack : List Operand) (slots : Array Operand)
    (moment : Moment) : Status :=
  .running ⟨⟨site.routine, code, stack, slots⟩, site.callers, moment.shared, moment.calls⟩

namespace Machine
variable {program : LinkedProgram} {site : Site} {code : List Instruction} {stack : List Operand}
  {slots : Array Operand} {moment : Moment}

/-- The run fails, with nothing changed on the way. -/
def Stops (program : LinkedProgram) (s : Status) (error : MachineError) (shared : Shared) : Prop :=
  ∃ last, last.shared = shared ∧ Reaches program s (.failed error last)

theorem run_get_bind {α : Type} (act : Shared → Act α) (shared : Shared) :
    ((get : Act Shared) >>= act).run shared = (act shared).run shared := rfl

theorem next {instruction : Instruction} {code' : List Instruction} {stack' : List Operand}
    {slots' : Array Operand} {shared : Shared}
    (h : (Activation.step instruction ⟨site.routine, code, stack, slots⟩).run moment.shared =
      .ok (.next ⟨site.routine, code', stack', slots'⟩) shared) :
    Reaches program (site.at (instruction :: code) stack slots moment)
      (site.at code' stack' slots' { moment with shared }) := by
  have hstep : Reaches program (site.at (instruction :: code) stack slots moment) _ :=
    Reaches.step _
  rw [Machine.step, Activation.advance, h] at hstep
  exact hstep

theorem stops {instruction : Instruction} {error : MachineError}
    (h : (Activation.step instruction ⟨site.routine, code, stack, slots⟩).run moment.shared =
      .error error moment.shared) :
    Stops program (site.at (instruction :: code) stack slots moment) error moment.shared := by
  have hstep : Reaches program (site.at (instruction :: code) stack slots moment) _ :=
    Reaches.step _
  rw [Machine.step, Activation.advance, h] at hstep
  exact ⟨_, rfl, hstep⟩

section Stack

theorem pushInt (n : Int64) : Reaches program (site.at (.pushInt n :: code) stack slots moment)
    (site.at code (.int n :: stack) slots moment) :=
  next rfl

theorem pushString (text : String) :
    Reaches program (site.at (.pushString text :: code) stack slots moment)
      (site.at code (.ref (.string text) :: stack) slots moment) :=
  next rfl

theorem pushNull : Reaches program (site.at (.pushNull :: code) stack slots moment)
    (site.at code (.ref .null :: stack) slots moment) :=
  next rfl

theorem dup (operand : Operand) :
    Reaches program (site.at (.dup :: code) (operand :: stack) slots moment)
      (site.at code (operand :: operand :: stack) slots moment) :=
  next rfl

theorem pop (operand : Operand) :
    Reaches program (site.at (.pop :: code) (operand :: stack) slots moment)
      (site.at code stack slots moment) :=
  next rfl

theorem box (primitive : Primitive) (n : Int64) :
    Reaches program (site.at (.box primitive :: code) (.int n :: stack) slots moment)
      (site.at code (.ref (Activation.box primitive n) :: stack) slots moment) :=
  next rfl

theorem unboxInt (n : Int64) :
    Reaches program (site.at (.unbox .int :: code) (.ref (.integer n) :: stack) slots moment)
      (site.at code (.int n :: stack) slots moment) :=
  next rfl

theorem unboxBoolean (b : Bool) :
    Reaches program (site.at (.unbox .boolean :: code) (.ref (.boolean b) :: stack) slots moment)
      (site.at code (Activation.flag b :: stack) slots moment) :=
  next rfl

theorem unboxNull (primitive : Primitive) :
    Stops program (site.at (.unbox primitive :: code) (.ref .null :: stack) slots moment)
      .nullReference moment.shared :=
  stops (by cases primitive <;> rfl)

theorem checkCast {object : Object} {ty : Ty} (h : object.isInstance ty = true) :
    Reaches program (site.at (.checkCast ty :: code) (.ref object :: stack) slots moment)
      (site.at code (.ref object :: stack) slots moment) := by
  refine next ?_
  simp only [Activation.step, Activation.popRef, Activation.pop, Activation.asRef, pure_bind, h,
    if_true]
  rfl

end Stack
section Returns

theorem done {instruction : Instruction} {result : Option Operand}
    (h : (Activation.step instruction ⟨site.routine, code, stack, slots⟩).run moment.shared =
      .ok (.done result) moment.shared) :
    Reaches program (site.at (instruction :: code) stack slots moment)
      (leave ⟨⟨site.routine, instruction :: code, stack, slots⟩, site.callers, moment.shared,
        moment.calls⟩ result) := by
  have hstep : Reaches program (site.at (instruction :: code) stack slots moment) _ :=
    Reaches.step _
  rw [Machine.step, Activation.advance, h] at hstep
  exact hstep

theorem returnVoid : Reaches program (site.at (.returnVoid :: code) stack slots moment)
    (leave ⟨⟨site.routine, .returnVoid :: code, stack, slots⟩, site.callers, moment.shared,
      moment.calls⟩ none) :=
  done rfl

theorem returnInt (n : Int64) :
    Reaches program (site.at (.returnInt :: code) (.int n :: stack) slots moment)
      (leave ⟨⟨site.routine, .returnInt :: code, .int n :: stack, slots⟩, site.callers,
        moment.shared, moment.calls⟩ (some (.int n))) :=
  done rfl

theorem returnRef (object : Object) :
    Reaches program (site.at (.returnRef :: code) (.ref object :: stack) slots moment)
      (leave ⟨⟨site.routine, .returnRef :: code, .ref object :: stack, slots⟩, site.callers,
        moment.shared, moment.calls⟩ (some (.ref object))) :=
  done rfl

end Returns
theorem call (name : String) (operands : List Operand) (object : Operand) (returns : Bool) :
    Reaches program
      (site.at (.call name operands.length returns :: code) (operands.reverse ++ object :: stack)
        slots moment)
      (enter program ⟨⟨site.routine, .call name operands.length returns :: code,
        operands.reverse ++ object :: stack, slots⟩, site.callers, moment.shared, moment.calls⟩ name
        (object :: operands) ⟨returns, ⟨site.routine, code, stack, slots⟩⟩) := by
  have hlength : ¬(operands.reverse ++ object :: stack).length < operands.length + 1 := by
    rw [List.length_append, List.length_reverse, List.length_cons]
    omega
  have hsplit : operands.reverse ++ object :: stack =
      (operands.reverse ++ [object]) ++ stack := by
    rw [List.append_assoc, List.singleton_append]
  have hfirst : operands.length + 1 = (operands.reverse ++ [object]).length := by
    rw [List.length_append, List.length_reverse, List.length_singleton]
  have htake : ((operands.reverse ++ object :: stack).take (operands.length + 1)).reverse =
      object :: operands := by
    rw [hsplit, hfirst, List.take_left, List.reverse_append, List.reverse_reverse,
      List.reverse_singleton, List.singleton_append]
  have hdrop : (operands.reverse ++ object :: stack).drop (operands.length + 1) = stack := by
    rw [hsplit, hfirst, List.drop_left]
  have hstep : Reaches program (site.at (.call name operands.length returns :: code)
      (operands.reverse ++ object :: stack) slots moment) _ := Reaches.step _
  have hrun : (Activation.advance ⟨site.routine, .call name operands.length returns :: code,
      operands.reverse ++ object :: stack, slots⟩).run moment.shared =
      .ok (.call name (object :: operands) returns ⟨site.routine, code, stack, slots⟩)
        moment.shared := by
    rw [Activation.advance]
    simp only [Activation.step, if_neg hlength, htake, hdrop]
    rfl
  rw [Machine.step, hrun] at hstep
  exact hstep

section Slots
variable {slot : Slot}

theorem loadInt {n : Int64} (h : slots[slot]? = some (.int n)) :
    Reaches program (site.at (.loadInt slot :: code) stack slots moment)
      (site.at code (.int n :: stack) slots moment) := by
  refine next ?_
  simp only [Activation.step, Activation.load, h, pure_bind, Activation.asInt]
  rfl

theorem loadRef {object : Object} (h : slots[slot]? = some (.ref object)) :
    Reaches program (site.at (.loadRef slot :: code) stack slots moment)
      (site.at code (.ref object :: stack) slots moment) := by
  refine next ?_
  simp only [Activation.step, Activation.load, h, pure_bind, Activation.asRef]
  rfl

theorem storeInt (n : Int64) (h : slot < slots.size) :
    Reaches program (site.at (.storeInt slot :: code) (.int n :: stack) slots moment)
      (site.at code stack (slots.setIfInBounds slot (.int n)) moment) := by
  refine next ?_
  simp only [Activation.step, Activation.popInt, Activation.pop, Activation.asInt, pure_bind,
    Activation.store, if_pos h]
  rfl

theorem storeRef (object : Object) (h : slot < slots.size) :
    Reaches program (site.at (.storeRef slot :: code) (.ref object :: stack) slots moment)
      (site.at code stack (slots.setIfInBounds slot (.ref object)) moment) := by
  refine next ?_
  simp only [Activation.step, Activation.popRef, Activation.pop, Activation.asRef, pure_bind,
    Activation.store, if_pos h]
  rfl

end Slots
section Fields
variable {name : String} {descriptor : Descriptor} {operand : Operand}

/-- The operand is kept as the descriptor says. -/
def Suits (descriptor : Descriptor) (operand : Operand) : Prop :=
  Activation.expectKept descriptor operand = pure operand

theorem getField (h : moment.shared.fields.find? name = some operand)
    (hsuits : Suits descriptor operand) :
    Reaches program (site.at (.getField name descriptor :: code) (.ref .program :: stack) slots
      moment) (site.at code (operand :: stack) slots moment) := by
  refine next ?_
  simp only [Activation.step, Activation.popRef, Activation.pop, Activation.asRef, pure_bind,
    Activation.expectProgram]
  simp only [run_get_bind, h]
  rw [hsuits]
  rfl

theorem putField {old : Operand} (h : moment.shared.fields.find? name = some old)
    (hsuits : Suits descriptor operand) :
    Reaches program (site.at (.putField name descriptor :: code)
      (operand :: .ref .program :: stack) slots moment)
      (site.at code stack slots (moment.put name operand)) := by
  refine next ?_
  simp only [Activation.step, Activation.popRef, Activation.pop, Activation.asRef, pure_bind,
    Activation.expectProgram]
  rw [hsuits]
  simp only [pure_bind, run_get_bind, h]
  rfl

end Fields
section Integers
variable {a b n : Int64}

theorem arithmetic {op : BinaryOp} (h : Evaluation.compute? op a b = some n) :
    Reaches program
      (site.at (Generation.arithmetic op :: code) (.int b :: .int a :: stack) slots moment)
      (site.at code (.int n :: stack) slots moment) := by
  refine next ?_
  cases op with
  | div =>
    rw [Evaluation.compute?] at h
    split at h
    · cases h
    · next hb =>
      cases h
      simp only [Generation.arithmetic, Activation.step, Activation.binary, Activation.popInt,
        Activation.pop, Activation.asInt, pure_bind, Activation.divide, if_neg hb]
      rfl
  | _ => cases h; rfl

theorem divisionByZero {op : BinaryOp} (h : Evaluation.compute? op a b = none) :
    Stops program
      (site.at (Generation.arithmetic op :: code) (.int b :: .int a :: stack) slots moment)
      .divisionByZero moment.shared := by
  refine stops ?_
  cases op with
  | div =>
    rw [Evaluation.compute?] at h
    split at h
    · next hb => subst hb; rfl
    · cases h
  | _ => cases h

theorem neg (n : Int64) :
    Reaches program (site.at (.neg :: code) (.int n :: stack) slots moment)
      (site.at code (.int (-n) :: stack) slots moment) :=
  next rfl

theorem negation (truth : Bool) :
    Reaches program (site.at (Generation.negation ++ code) (Activation.flag truth :: stack) slots
      moment) (site.at code (Activation.flag (!truth) :: stack) slots moment) := by
  refine (pushInt 1).trans (next ?_)
  cases truth <;> rfl

end Integers
section Jumps
variable {label : Label}

theorem label_next (label : Label) :
    Reaches program (site.at (.label label :: code) stack slots moment)
      (site.at code stack slots moment) :=
  next rfl

theorem jump {rest : List Instruction} (hresolves : Resolves site.routine)
    (hrest : (.label label :: rest) <:+ site.routine.code) :
    Reaches program (site.at (.jump label :: code) stack slots moment)
      (site.at rest stack slots moment) := by
  refine .trans (next ?_) (label_next label)
  simp only [Activation.step, Activation.jump, hresolves label rest hrest]
  rfl

theorem jumpIf_taken {condition : Condition} {a b : Int64} {rest : List Instruction}
    (hresolves : Resolves site.routine) (hrest : (.label label :: rest) <:+ site.routine.code)
    (h : Activation.holds condition a b = true) :
    Reaches program
      (site.at (.jumpIf condition label :: code) (.int b :: .int a :: stack) slots moment)
      (site.at rest stack slots moment) := by
  refine .trans (next ?_) (label_next label)
  simp only [Activation.step, Activation.popInt, Activation.pop, Activation.asInt, pure_bind, h,
    if_true, Activation.jump, hresolves label rest hrest]
  rfl

theorem jumpIf_not {condition : Condition} {a b : Int64}
    (h : Activation.holds condition a b = false) :
    Reaches program
      (site.at (.jumpIf condition label :: code) (.int b :: .int a :: stack) slots moment)
      (site.at code stack slots moment) := by
  refine next ?_
  simp only [Activation.step, Activation.popInt, Activation.pop, Activation.asInt, pure_bind, h,
    Bool.false_eq_true, if_false]
  rfl

theorem jumpIfZero_taken {rest : List Instruction} (hresolves : Resolves site.routine)
    (hrest : (.label label :: rest) <:+ site.routine.code) :
    Reaches program (site.at (.jumpIfZero label :: code) (Activation.flag false :: stack) slots moment)
      (site.at rest stack slots moment) := by
  refine .trans (next ?_) (label_next label)
  simp only [Activation.step, Activation.popInt, Activation.pop, Activation.flag,
    Bool.false_eq_true, if_false, Activation.asInt, pure_bind, if_true, Activation.jump,
    hresolves label rest hrest]
  rfl

theorem jumpIfZero_not :
    Reaches program (site.at (.jumpIfZero label :: code) (Activation.flag true :: stack) slots moment)
      (site.at code stack slots moment) :=
  next rfl

end Jumps
section Heap

theorem newList :
    Reaches program (site.at (.newList :: code) stack slots moment)
      (site.at code (.ref (.list moment.shared.heap.lists.size) :: stack) slots
        (moment.withHeap moment.shared.heap.newList.2)) :=
  next rfl

theorem listAdd (place : Nat) (object : Object) :
    Reaches program (site.at (.invoke .listAdd :: .pop :: code)
      (.ref object :: .ref (.list place) :: stack) slots moment)
      (site.at code stack slots (moment.withHeap (moment.shared.heap.add place object))) :=
  .trans (next rfl) (pop _)

theorem listIterator (place : Nat) :
    Reaches program (site.at (.invoke .listIterator :: code) (.ref (.list place) :: stack) slots
      moment)
      (site.at code (.ref (.iterator moment.shared.heap.iterators.size) :: stack) slots
        (moment.withHeap (moment.shared.heap.newIterator place).2)) :=
  next rfl

theorem listIterator_null :
    Stops program (site.at (.invoke .listIterator :: code) (.ref .null :: stack) slots moment)
      .nullReference moment.shared :=
  stops rfl

theorem iteratorHasNext (place : Nat) :
    Reaches program (site.at (.invoke .iteratorHasNext :: code) (.ref (.iterator place) :: stack)
      slots moment)
      (site.at code (Activation.flag (decide ((moment.shared.heap.iteration place).position <
        (moment.shared.heap.items (moment.shared.heap.iteration place).list).size)) :: stack) slots
        moment) :=
  next rfl

theorem iteratorNext {place : Nat} {item : Object}
    (h : (moment.shared.heap.items (moment.shared.heap.iteration place).list)[
      (moment.shared.heap.iteration place).position]? = some item) :
    Reaches program (site.at (.invoke .iteratorNext :: code) (.ref (.iterator place) :: stack)
      slots moment)
      (site.at code (.ref item :: stack) slots
        (moment.withHeap (moment.shared.heap.advance place))) := by
  refine next ?_
  simp only [Activation.step, Activation.invoke, Activation.popRef, Activation.pop,
    Activation.asRef, pure_bind, Activation.expectIterator]
  simp only [bind_assoc, run_get_bind, h]
  rfl

end Heap
section Objects

theorem stringValueOf (object : Object) :
    Reaches program (site.at (.invoke .stringValueOf :: code) (.ref object :: stack) slots moment)
      (site.at code (.ref (.string (moment.shared.heap.text object)) :: stack) slots moment) :=
  next rfl

theorem stringConcat (a b : String) :
    Reaches program (site.at (.invoke .stringConcat :: code)
      (.ref (.string b) :: .ref (.string a) :: stack) slots moment)
      (site.at code (.ref (.string (a ++ b)) :: stack) slots moment) :=
  next rfl

theorem objectsEquals (a b : Object) :
    Reaches program (site.at (.invoke .objectsEquals :: code) (.ref b :: .ref a :: stack) slots
      moment)
      (site.at code (Activation.flag (moment.shared.heap.same a b) :: stack) slots moment) :=
  next rfl

theorem print (object : Object) :
    Reaches program (site.at (.invoke .print :: code) (.ref object :: .ref .program :: stack) slots
      moment) (site.at code stack slots (moment.print (moment.shared.heap.text object))) :=
  next rfl

end Objects
end Machine
end CatScript
