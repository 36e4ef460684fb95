import CatScript.Proofs.Code.Programs
import CatScript.Proofs.Evaluation.Inhabits
import CatScript.Proofs.Machine.Growth
import CatScript.Proofs.Machine.Instructions

/-! # When the machine agrees with an evaluation

An operand keeps a value of a type unboxed, or as an object that stands for it (`Keeps`).  The
machine agrees with a store when the fields keep the top-level variables and the same text has been
printed (`Agrees`), and its slots hold the local variables (`Holds`). -/
set_option autoImplicit false
namespace CatScript

/-- The operand is how a value of a type is kept. -/
inductive Keeps (contents : Contents) : Ty → Value → Operand → Prop where
  | integer (n : Int64) : Keeps contents .int (.integer n) (.int n)
  | boolean (b : Bool) : Keeps contents .boolean (.boolean b) (Activation.flag b)
  | reference {ty : Ty} {value : Value} {object : Object} :
      ty.isPrimitive = false → ty.admits value = true → Represents contents object value →
      Keeps contents ty value (.ref object)

namespace Keeps
variable {contents contents' : Contents} {ty : Ty} {value : Value} {operand : Operand}

theorem mono (h : Keeps contents ty value operand)
    (hfinished : ∀ place items, contents place = some items → contents' place = some items) :
    Keeps contents' ty value operand := by
  cases h with
  | integer n => exact .integer n
  | boolean b => exact .boolean b
  | reference hty hvalue hobject => exact .reference hty hvalue (hobject.mono hfinished)

theorem admits (h : Keeps contents ty value operand) : ty.admits value = true := by
  cases h with
  | integer n => rfl
  | boolean b => rfl
  | reference _ hvalue _ => exact hvalue

theorem of_int (h : Keeps contents .int value operand) :
    ∃ n, value = .integer n ∧ operand = .int n := by
  cases h with
  | integer n => exact ⟨n, rfl, rfl⟩
  | reference hty => cases hty

theorem of_boolean (h : Keeps contents .boolean value operand) :
    ∃ b, value = .boolean b ∧ operand = Activation.flag b := by
  cases h with
  | boolean b => exact ⟨b, rfl, rfl⟩
  | reference hty => cases hty

theorem unboxed (h : Keeps contents ty value operand) (hty : ty.isPrimitive = true) :
    ∃ n, operand = .int n := by
  cases h with
  | integer n => exact ⟨n, rfl⟩
  | boolean b => exact ⟨_, rfl⟩
  | reference hreference => rw [hreference] at hty; cases hty

theorem of_reference (hty : ty.isPrimitive = false) (h : Keeps contents ty value operand) :
    ∃ object, operand = .ref object ∧ ty.admits value = true ∧
      Represents contents object value := by
  cases h with
  | integer n => cases hty
  | boolean b => cases hty
  | reference _ hvalue hobject => exact ⟨_, rfl, hvalue, hobject⟩

theorem suits (h : Keeps contents ty value operand) :
    Machine.Suits (.of ty) operand := by
  cases h with
  | integer n => rfl
  | boolean b => rfl
  | reference hty _ _ => rw [Descriptor.of, hty]; rfl

end Keeps

/-- A program, the code that it has been compiled to, and what both had printed at some point. -/
structure Setting where
  program : LinkedProgram
  globals : Globals
  table : Scope Signature
  functions : Scope Definition
  carries : Generation.Carries globals table functions program
  printed : String
  printed' : String

variable (setting : Setting)

/-- The fields keep the top-level variables, and since some point the same text has been printed. -/
structure Agrees (store : Store) (moment : Moment) : Prop where
  describes : moment.contents.Describes moment.shared.heap
  globals : ∀ name ty, setting.globals.fields.find? name = some ty →
    ∃ value operand, store.scopes.outermost.find? name = some value ∧
      moment.shared.fields.find? name = some operand ∧ Keeps moment.contents ty value operand
  output : ∃ text, store.output = setting.printed ++ text ∧
    moment.shared.output = setting.printed' ++ text

inductive Corresponds : EvalError → MachineError → Prop where
  | divisionByZero : Corresponds .divisionByZero .divisionByZero
  | nullReference : Corresponds .nullReference .nullReference
  | notIterable : Corresponds (.notIterable .null) .nullReference
  | callDepthExceeded (limit : Nat) :
      Corresponds (.callDepthExceeded limit) (.callDepthExceeded limit)

def Failed (cause : EvalError) (store : Store) (t : Status) : Prop :=
  ∃ error last contents, t = .failed error last ∧ Corresponds cause error ∧
    Agrees setting store ⟨contents, last.shared, last.calls⟩

/-- Between two points of a run the evaluation has kept its nested scopes, the machine agrees at the
second one, and the heap has grown. -/
structure Beyond (store : Store) (moment : Moment) (after : Store) (later : Moment) : Prop where
  nested : after.scopes.nested = store.scopes.nested
  agrees : Agrees setting after later
  heap : moment.contents.Extends moment.shared.heap later.contents later.shared.heap

structure Holds (locals : Scopes Local) (slots : Array Operand) (contents : Contents)
    (nested : List (Scope Value)) : Prop where
  program : slots[0]? = some (.ref .program)
  levels : List.Forall₂ (Scope.Match fun value (home : Local) =>
    ∃ operand, slots[home.slot]? = some operand ∧ Keeps contents home.ty value operand)
    nested locals.levels

variable {setting} {store after last : Store} {moment later latest : Moment}

theorem Agrees.beyond (h : Agrees setting store moment) : Beyond setting store moment store moment :=
  ⟨rfl, h, .refl _ _⟩

theorem Beyond.trans (h : Beyond setting store moment after later)
    (h' : Beyond setting after later last latest) : Beyond setting store moment last latest :=
  ⟨h'.nested.trans h.nested, h'.agrees, h.heap.trans h'.heap⟩

theorem Holds.mono {locals : Scopes Local} {slots : Array Operand} {contents contents' : Contents}
    {nested : List (Scope Value)} (h : Holds locals slots contents nested)
    (hfinished : ∀ place items, contents place = some items → contents' place = some items) :
    Holds locals slots contents' nested := by
  refine ⟨h.program, ?_⟩
  refine h.levels.imp fun _ _ hmatch => ?_
  refine hmatch.imp fun _ _ _ _ _ ⟨operand, hslot, hkeeps⟩ => ?_
  exact ⟨operand, hslot, hkeeps.mono hfinished⟩

theorem Beyond.holds {locals : Scopes Local} {slots : Array Operand}
    (h : Beyond setting store moment after later)
    (hholds : Holds locals slots moment.contents store.scopes.nested) :
    Holds locals slots later.contents after.scopes.nested := by
  rw [h.nested]
  exact hholds.mono h.heap.finished

theorem Holds.find_local {locals : Scopes Local} {slots : Array Operand} {contents : Contents}
    {scopes : Scopes Value} (h : Holds locals slots contents scopes.nested) (hbased : locals.Based)
    {name : String} {home : Local} (hhome : locals.find? name = some home) :
    ∃ value operand, scopes.find? name = some value ∧ slots[home.slot]? = some operand ∧
      Keeps contents home.ty value operand := by
  have hrel := Scopes.findSome?_match h.levels name
  rw [Scopes.find?_levels hbased, hhome] at hrel
  cases hvalue : scopes.nested.findSome? (·.find? name) with
  | none => rw [hvalue] at hrel; cases hrel
  | some value =>
    rw [hvalue] at hrel
    cases hrel with
    | some hkept =>
      obtain ⟨operand, hslot, hkeeps⟩ := hkept
      exact ⟨value, operand, by rw [Scopes.find?, hvalue], hslot, hkeeps⟩

theorem Holds.find_field {locals : Scopes Local} {slots : Array Operand} {contents : Contents}
    {scopes : Scopes Value} (h : Holds locals slots contents scopes.nested) (hbased : locals.Based)
    {name : String} (hnone : locals.find? name = none) :
    scopes.nested.findSome? (·.find? name) = none := by
  have hrel := Scopes.findSome?_match h.levels name
  rw [Scopes.find?_levels hbased, hnone] at hrel
  cases hvalue : scopes.nested.findSome? (·.find? name) with
  | none => rfl
  | some value => rw [hvalue] at hrel; cases hrel

theorem Beyond.print (h : Beyond setting store moment after later) {object : Object} {value : Value}
    (hobject : Represents later.contents object value) :
    Beyond setting store moment (after.print value)
      (later.print (later.shared.heap.text object)) := by
  obtain ⟨hnested, ⟨hdescribes, hglobals, text, houtput, houtput'⟩, hheap⟩ := h
  refine ⟨hnested, ⟨hdescribes, hglobals, text ++ (value.text ++ "\n"), ?_, ?_⟩, hheap⟩
  · rw [Store.print, houtput, String.append_assoc, String.append_assoc]
  · rw [Moment.print, hdescribes.text hobject, houtput', String.append_assoc, String.append_assoc]

theorem Machine.Stops.failed {s : Status} {error : MachineError} {cause : EvalError}
    (h : Machine.Stops setting.program s error moment.shared) (hcause : Corresponds cause error)
    (hagrees : Agrees setting store moment) :
    ∃ t, Machine.Reaches setting.program s t ∧ Failed setting cause store t := by
  obtain ⟨last, hshared, hreaches⟩ := h
  refine ⟨_, hreaches, error, last, moment.contents, rfl, hcause, ?_⟩
  obtain ⟨hdescribes, hglobals, houtput⟩ := hagrees
  rw [← hshared] at hdescribes hglobals houtput
  exact ⟨hdescribes, hglobals, houtput⟩

section Coercion
open Machine
variable {site : Site} {code : List Instruction} {stack : List Operand} {slots : Array Operand}

/-- An object that stands for a value of a type passes a cast to it. -/
theorem Represents.isInstance {contents : Contents} {object : Object} {value : Value} {ty : Ty}
    (h : Represents contents object value) (hvalue : value = .null ∨ ty.admits value = true) :
    object.isInstance ty = true := by
  cases h with
  | null => rfl
  | _ =>
    have hadmits := hvalue.resolve_left (by simp)
    cases ty <;> simp_all [Ty.admits, Object.isInstance]

theorem coerce_object {source : Ty} {value : Value} {operand : Operand}
    (hkeeps : Keeps moment.contents source value operand) :
    ∃ object, Represents moment.contents object value ∧
      Reaches setting.program
        (site.at (Generation.coerce source .object ++ code) (operand :: stack) slots moment)
        (site.at code (.ref object :: stack) slots moment) := by
  cases hkeeps with
  | integer n => exact ⟨_, .integer n, box .int n⟩
  | boolean b => exact ⟨_, by cases b <;> exact .boolean _, box .boolean _⟩
  | @reference _ _ object hsource _ hobject =>
    have hnone : Primitive.of? source = none := by cases source <;> first | rfl | cases hsource
    refine ⟨object, hobject, ?_⟩
    rw [Generation.coerce, hnone]
    dsimp only [Primitive.of?]
    split
    · exact .refl _
    · exact checkCast (hobject.isInstance (.inr (Ty.admits_object value)))

/-- The operand keeps a value as a type asks for, and has taken the place of another one. -/
def Coerced (site : Site) (code : List Instruction) (stack : List Operand) (slots : Array Operand)
    (moment : Moment) (store : Store) (target : Ty) (value : Value) :
    Value → Store → Status → Prop :=
  fun stored after t => stored = value ∧ after = store ∧ ∃ operand,
    t = site.at code (operand :: stack) slots moment ∧ Keeps moment.contents target value operand

theorem unbox_simulates {target : Ty} {value : Value} {object : Object} {primitive : Primitive}
    (hobject : Represents moment.contents object value)
    (hvalue : value = .null ∨ target.admits value = true)
    (hprimitive : Primitive.of? target = some primitive) (hagrees : Agrees setting store moment) :
    Simulates setting.program (Evaluation.stored (some target) value) store
      (site.at (.checkCast target :: .unbox primitive :: code) (.ref object :: stack) slots moment)
      (Coerced site code stack slots moment store target value) (Failed setting) := by
  refine .of_reaches (checkCast (hobject.isInstance hvalue)) ?_
  rcases hvalue with rfl | hadmits
  · cases hobject
    have hstored : Evaluation.stored (some target) .null store = .error .nullReference store := by
      cases target <;> first | rfl | cases hprimitive
    obtain ⟨t, hreaches, hfailed⟩ := (unboxNull primitive).failed .nullReference hagrees
    exact .of_error hstored hreaches hfailed
  · cases target with
    | int =>
      cases hprimitive
      obtain ⟨n, rfl⟩ := Ty.admits_int hadmits
      cases hobject
      exact .of_ok rfl (unboxInt n) ⟨rfl, rfl, _, rfl, .integer n⟩
    | boolean =>
      cases hprimitive
      obtain ⟨b, rfl⟩ := Ty.admits_boolean hadmits
      cases hobject
      exact .of_ok rfl (unboxBoolean b) ⟨rfl, rfl, _, rfl, .boolean b⟩
    | _ => cases hprimitive

theorem box_simulates {target : Ty} {value : Value} {n : Int64} {primitive : Primitive}
    (hobject : Represents moment.contents (Activation.box primitive n) value)
    (hvalue : target.admits value = true) (htarget : target.isPrimitive = false) :
    Simulates setting.program (Evaluation.stored (some target) value) store
      (site.at (.box primitive :: code) (.int n :: stack) slots moment)
      (Coerced site code stack slots moment store target value) (Failed setting) := by
  have hstored : Evaluation.stored (some target) value store = .ok value store := by
    cases primitive <;> cases hobject <;> rfl
  exact .of_ok hstored (box primitive n) ⟨rfl, rfl, _, rfl, .reference htarget hvalue hobject⟩

/-- A value of one type is stored as another type asks for, unless it is `null` and that type has no
room for it. -/
theorem coerce_simulates {source target : Ty} {value : Value} {operand : Operand}
    (hkeeps : Keeps moment.contents source value operand)
    (hvalue : value = .null ∨ target.admits value = true) (hagrees : Agrees setting store moment) :
    Simulates setting.program (Evaluation.stored (some target) value) store
      (site.at (Generation.coerce source target ++ code) (operand :: stack) slots moment)
      (Coerced site code stack slots moment store target value) (Failed setting) := by
  cases hkeeps with
  | integer n =>
    have hadmits := hvalue.resolve_left (by simp)
    cases target with
    | int => exact .of_ok rfl (.refl _) ⟨rfl, rfl, _, rfl, .integer n⟩
    | object => exact box_simulates (.integer n) hadmits rfl
    | _ => cases hadmits
  | boolean b =>
    have hadmits := hvalue.resolve_left (by simp)
    cases target with
    | boolean => exact .of_ok rfl (.refl _) ⟨rfl, rfl, _, rfl, .boolean b⟩
    | object => exact box_simulates (by cases b <;> exact .boolean _) hadmits rfl
    | _ => cases hadmits
  | @reference _ _ object hsource _ hobject =>
    have hnone : Primitive.of? source = none := by cases source <;> first | rfl | cases hsource
    cases hprimitive : Primitive.of? target with
    | some primitive =>
      rw [Generation.coerce, hnone, hprimitive]
      exact unbox_simulates hobject hvalue hprimitive hagrees
    | none =>
      have htarget : target.isPrimitive = false := by
        cases target <;> first | rfl | cases hprimitive
      have hadmits : target.admits value = true :=
        hvalue.elim (fun hnull => hnull ▸ Ty.admits_null htarget) id
      have hstored : Evaluation.stored (some target) value store = .ok value store := by
        cases hobject with
        | null => simp [Evaluation.stored, htarget, pure, EStateM.pure]
        | _ => rfl
      have hreaches : Reaches setting.program
          (site.at (Generation.coerce source target ++ code) (.ref object :: stack) slots moment)
          (site.at code (.ref object :: stack) slots moment) := by
        rw [Generation.coerce, hnone, hprimitive]
        dsimp only
        split
        · exact .refl _
        · exact checkCast (hobject.isInstance hvalue)
      exact .of_ok hstored hreaches ⟨rfl, rfl, _, rfl, .reference htarget hadmits hobject⟩

end Coercion
end CatScript
