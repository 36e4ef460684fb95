import CatScript.Proofs.Machine.Agreement

/-! # The code of expressions

The code of a well-typed expression leaves on the stack what keeps the value of the expression, and
fails as evaluating it does (`Simulation.expression`).  That calls do so is assumed here
(`Simulation.CallsAgree`). -/
set_option autoImplicit false
namespace CatScript
namespace Simulation
open Machine Typing

/-- The value is on top of the stack; only a call of a `void` function leaves nothing there. -/
def Leaves (contents : Contents) (ty : Ty) (value : Value) (stack stack' : List Operand) : Prop :=
  if ty = .void then value = .null ∧ stack' = stack
  else ∃ operand, stack' = operand :: stack ∧ Keeps contents ty value operand

inductive Binds (contents : Contents) :
    List Parameter → Scope Value → List Operand → Prop where
  | nil : Binds contents [] [] []
  | cons {param : Parameter} {params : List Parameter} {value : Value} {bound : Scope Value}
      {operand : Operand} {operands : List Operand} :
      Keeps contents param.ty value operand → Binds contents params bound operands →
      Binds contents (param :: params) ((param.name, value) :: bound) (operand :: operands)

def Evaluated (setting : Setting) (site : Site) (rest : List Instruction) (stack : List Operand)
    (slots : Array Operand) (store : Store) (moment : Moment) (ty : Ty) :
    Value → Store → Status → Prop :=
  fun value after t => ∃ later stack', t = site.at rest stack' slots later ∧
    Leaves later.contents ty value stack stack' ∧ Beyond setting store moment after later

def Called (setting : Setting) (caller : Activation) (callers : List Waiting) (store : Store)
    (moment : Moment) (ty : Ty) : Value → Store → Status → Prop :=
  fun value after t => ∃ later stack',
    t = .running ⟨{ caller with stack := stack' }, callers, later.shared, later.calls⟩ ∧
    Leaves later.contents ty value caller.stack stack' ∧ Beyond setting store moment after later

/-- Calls of the machine do what calls of the evaluation do when `room` calls may still nest. -/
def CallsAgree (setting : Setting) (room : Nat) (invoke : Invoke Eval) : Prop :=
  ∀ name signature definition, setting.table.find? name = some signature →
    setting.functions.find? name = some definition →
    ∀ (bound : Scope Value) (operands : List Operand) (store : Store) (moment : Moment)
      (current caller : Activation) (callers : List Waiting),
      callers.length + room = maxCallDepth →
      Binds moment.contents definition.params bound operands → Agrees setting store moment →
      Simulates setting.program (invoke definition bound) store
        (enter setting.program ⟨current, callers, moment.shared, moment.calls⟩ name
          (.ref .program :: operands) ⟨signature.returns != .void, caller⟩)
        (Called setting caller callers store moment signature.returns) (Failed setting)

def answer (op : EqualityOp) (same : Bool) : Bool :=
  match op with
  | .equal => same
  | .notEqual => !same

section Pieces
variable {setting : Setting} {site : Site} {code rest : List Instruction} {stack : List Operand}
  {slots : Array Operand} {moment : Moment} {locals : Scopes Local}

theorem load_local {home : Local} {value : Value} {operand : Operand}
    (hslot : slots[home.slot]? = some operand) (h : Keeps moment.contents home.ty value operand) :
    Reaches setting.program (site.at (Generation.load home :: code) stack slots moment)
      (site.at code (operand :: stack) slots moment) := by
  obtain ⟨slot, ty⟩ := home
  rw [Generation.load]
  cases h with
  | integer n => exact loadInt hslot
  | boolean b => exact loadInt hslot
  | reference hty _ _ => rw [if_neg (by rw [hty]; exact Bool.false_ne_true)]; exact loadRef hslot

theorem related_reaches (condition : Condition) (label : Label) (a b : Int64)
    (hresolves : Resolves site.routine)
    (hsuffix : Generation.related condition label ++ code <:+ site.routine.code) :
    Reaches setting.program
      (site.at (Generation.related condition label ++ code) (.int b :: .int a :: stack) slots moment)
      (site.at code (Activation.flag (Activation.holds condition a b) :: stack) slots moment) := by
  have hyes := suffix_tail (suffix_tail (suffix_tail hsuffix))
  have hdone := suffix_tail (suffix_tail hyes)
  cases h : Activation.holds condition a b with
  | true =>
    refine (jumpIf_taken hresolves hyes h).trans ?_
    exact (pushInt 1).trans (label_next _)
  | false =>
    refine (jumpIf_not h).trans ?_
    exact (pushInt 0).trans (jump hresolves hdone)

theorem sameness_holds {contents contents' : Contents} {op : EqualityOp} {ty : Ty}
    {value value' : Value} {a b : Int64} (hty : ty.isPrimitive = true)
    (h : Keeps contents ty value (.int a)) (h' : Keeps contents' ty value' (.int b)) :
    Activation.holds (Generation.sameness op) a b = answer op (value.equal value') := by
  cases ty with
  | int =>
    obtain ⟨m, rfl, hm⟩ := h.of_int
    obtain ⟨n, rfl, hn⟩ := h'.of_int
    cases hm
    cases hn
    cases op <;> rfl
  | boolean =>
    obtain ⟨x, rfl, hx⟩ := h.of_boolean
    obtain ⟨y, rfl, hy⟩ := h'.of_boolean
    cases hx
    cases hy
    cases op <;> cases x <;> cases y <;> rfl
  | _ => cases hty

def turned (op : EqualityOp) : List Instruction :=
  match op with
  | .equal => []
  | .notEqual => Generation.negation

theorem turned_eq (op : EqualityOp) :
    turned op = if op = .notEqual then Generation.negation else [] := by
  cases op <;> rfl

theorem turned_reaches (op : EqualityOp) (same : Bool) :
    Reaches setting.program
      (site.at (turned op ++ code) (Activation.flag same :: stack) slots moment)
      (site.at code (Activation.flag (answer op same) :: stack) slots moment) := by
  cases op with
  | equal => exact .refl _
  | notEqual => exact negation same

theorem ordering_holds (op : ComparisonOp) (a b : Int64) :
    Activation.holds (Generation.ordering op) a b = Evaluation.related op a b := by
  cases op <;> rfl

end Pieces

section Expressions
variable {setting : Setting} {room : Nat} {invoke : Invoke Eval} {site : Site} {symbols : Symbols}
  {locals : Scopes Local} {slots : Array Operand}

/-- What is assumed of a routine at work on the code of expressions. -/
structure Working (setting : Setting) (room : Nat) (invoke : Invoke Eval) (site : Site) : Prop where
  calls : CallsAgree setting room invoke
  room : site.callers.length + room = maxCallDepth
  resolves : Resolves site.routine

theorem Evaluated.of_keeps {rest : List Instruction} {stack : List Operand} {store after : Store}
    {moment later : Moment} {ty : Ty} {value : Value} {operand : Operand} (hty : ty ≠ .void)
    (hkeeps : Keeps later.contents ty value operand)
    (hbeyond : Beyond setting store moment after later) :
    Evaluated setting site rest stack slots store moment ty value after
      (site.at rest (operand :: stack) slots later) :=
  ⟨later, _, rfl, by rw [Leaves, if_neg hty]; exact ⟨operand, rfl, hkeeps⟩, hbeyond⟩

/-- What follows an expression finds its value on the stack. -/
theorem bind_value {α : Type} {m : Eval Value} {f : Value → Eval α} {rest : List Instruction}
    {stack : List Operand} {store : Store} {moment : Moment} {ty : Ty} {s : Status}
    {Q : α → Store → Status → Prop} (hty : ty ≠ .void)
    (hm : Simulates setting.program m store s
      (Evaluated setting site rest stack slots store moment ty) (Failed setting))
    (hf : ∀ value operand after later, Keeps later.contents ty value operand →
      Beyond setting store moment after later →
      Simulates setting.program (f value) after (site.at rest (operand :: stack) slots later) Q
        (Failed setting)) :
    Simulates setting.program (m >>= f) store s Q (Failed setting) := by
  refine hm.bind ?_
  rintro value after t ⟨later, stack', rfl, hleaves, hbeyond⟩
  rw [Leaves, if_neg hty] at hleaves
  obtain ⟨operand, rfl, hkeeps⟩ := hleaves
  exact hf value operand after later hkeeps hbeyond

/-- A list is being filled with the values of items, in code that has started from `base`. -/
structure Filling (setting : Setting) (base : Moment) (place : Nat) (done : List Value)
    (store : Store) (moment : Moment) : Prop where
  agrees : Agrees setting store moment
  heap : base.contents.Extends base.shared.heap moment.contents moment.shared.heap
  old : base.shared.heap.lists.size ≤ place
  bound : place < moment.shared.heap.lists.size
  pending : moment.contents place = none
  items : List.Forall₂ (Represents moment.contents) (moment.shared.heap.items place).toList done

namespace Filling
variable {base moment later : Moment} {place : Nat} {done : List Value} {store after : Store}

theorem start (h : Agrees setting store base) :
    Filling setting base base.shared.heap.lists.size [] store
      (base.withHeap base.shared.heap.newList.2) := by
  refine ⟨⟨h.describes.newList, h.globals, h.output⟩, .newList _ _, Nat.le_refl _, ?_,
    h.describes.unfinished, ?_⟩
  · rw [Moment.withHeap, Heap.newList, Array.size_push]
    exact Nat.lt_succ_self _
  · rw [Moment.withHeap, Heap.items_newList, Heap.items, Array.getElem?_eq_none (Nat.le_refl _)]
    exact .nil

theorem beyond (h : Filling setting base place done store moment)
    (hbeyond : Beyond setting store moment after later) :
    Filling setting base place done after later := by
  obtain ⟨hpending, hitems⟩ := hbeyond.heap.pending place h.bound h.pending
  refine ⟨hbeyond.agrees, h.heap.trans hbeyond.heap, h.old,
    Nat.lt_of_lt_of_le h.bound hbeyond.heap.lists, hpending, ?_⟩
  rw [hitems]
  exact h.items.imp fun _ _ hrep => hrep.mono hbeyond.heap.finished

theorem add (h : Filling setting base place done store moment) {object : Object} {value : Value}
    (hobject : Represents moment.contents object value) :
    Filling setting base place (done ++ [value]) store
      (moment.withHeap (moment.shared.heap.add place object)) := by
  refine ⟨⟨h.agrees.describes.add h.bound h.pending object, h.agrees.globals, h.agrees.output⟩,
    h.heap.add h.old h.bound object, h.old, ?_, h.pending, ?_⟩
  · rw [Moment.withHeap, Heap.add, Array.size_modify]
    exact h.bound
  · rw [Moment.withHeap, Heap.items_add h.bound, if_pos rfl, Array.toList_push]
    exact List.rel_append h.items (.cons hobject .nil)

theorem finish (h : Filling setting base place done after moment)
    (hnested : after.scopes.nested = store.scopes.nested) :
    Beyond setting store base after
      { moment with contents := moment.contents.finish place done } := by
  refine ⟨hnested, ⟨h.agrees.describes.finish h.bound h.pending h.items, fun name ty hname => ?_,
    h.agrees.output⟩, h.heap.finish h.old h.pending done⟩
  obtain ⟨value, operand, hvalue, hoperand, hkeeps⟩ := h.agrees.globals name ty hname
  exact ⟨value, operand, hvalue, hoperand,
    hkeeps.mono (Contents.finish_of_finished h.pending done)⟩

end Filling

variable {types : Scopes Ty}

/-- The code of an expression leaves its value on the stack, wherever in a routine it stands. -/
def Computes (setting : Setting) (invoke : Invoke Eval) (site : Site) (locals : Scopes Local)
    (slots : Array Operand) (e : Expr Info) (ty : Ty) : Prop :=
  ∀ ⦃label label' : Label⦄ ⦃code : List Instruction⦄,
    Generation.expression setting.globals locals e label = .ok (code, label') →
    ∀ rest : List Instruction, code ++ rest <:+ site.routine.code →
    ∀ (stack : List Operand) (store : Store) (moment : Moment),
    Holds locals slots moment.contents store.scopes.nested → Agrees setting store moment →
    Simulates setting.program (Evaluation.expression setting.functions invoke e) store
      (site.at (code ++ rest) stack slots moment)
      (Evaluated setting site rest stack slots store moment ty) (Failed setting)

def Fills (setting : Setting) (invoke : Invoke Eval) (site : Site) (locals : Scopes Local)
    (slots : Array Operand) (items : List (Expr Info)) (component : Ty) : Prop :=
  ∀ ⦃label label' : Label⦄ ⦃code : List Instruction⦄,
    Generation.listItems setting.globals locals items label = .ok (code, label') →
    ∀ rest : List Instruction, code ++ rest <:+ site.routine.code →
    ∀ (stack : List Operand) (start : Store) (base : Moment),
    Holds locals slots base.contents start.scopes.nested →
    ∀ (place : Nat) (done : List Value) (store : Store) (moment : Moment),
    store.scopes.nested = start.scopes.nested → Filling setting base place done store moment →
    Simulates setting.program (Evaluation.expressions setting.functions invoke items) store
      (site.at (code ++ rest) (.ref (.list place) :: stack) slots moment)
      (fun values after t => ∃ later, t = site.at rest (.ref (.list place) :: stack) slots later ∧
        (∀ value ∈ values, value = .null ∨ component.admits value = true) ∧
        after.scopes.nested = start.scopes.nested ∧
        Filling setting base place (done ++ values) after later)
      (Failed setting)

def Passes (setting : Setting) (invoke : Invoke Eval) (site : Site) (locals : Scopes Local)
    (slots : Array Operand) (args : List (Expr Info)) (params : List Parameter) : Prop :=
  ∀ ⦃params' : List Parameter⦄, params.map Parameter.ty = params'.map Parameter.ty →
    ∀ ⦃label label' : Label⦄ ⦃code : List Instruction⦄,
    Generation.arguments setting.globals locals args params' label = .ok (code, label') →
    ∀ bound : Scope Value, (bound.map Prod.fst ++ params.map Parameter.name).Nodup →
    ∀ rest : List Instruction, code ++ rest <:+ site.routine.code →
    ∀ (stack : List Operand) (store : Store) (moment : Moment),
    Holds locals slots moment.contents store.scopes.nested → Agrees setting store moment →
    Simulates setting.program (Evaluation.arguments setting.functions invoke params args bound)
      store (site.at (code ++ rest) stack slots moment)
      (fun result after t => ∃ more operands later, result = bound ++ more ∧
        Binds later.contents params more operands ∧ operands.length = args.length ∧
        t = site.at rest (operands.reverse ++ stack) slots later ∧
        Beyond setting store moment after later)
      (Failed setting)

namespace Computes
variable {info : Info} {left right : Expr Info} {ty tyA tyB : Ty}

theorem identifier {name : String}
    (hprovides : Generation.Provides ⟨types, setting.table⟩ setting.globals locals)
    (hname : (⟨types, setting.table⟩ : Symbols).typeOf? name = some ty) (hty : ty.Storable) :
    Computes setting invoke site locals slots (.identifier info name) ty := by
  intro label label' code hcode rest _ stack store moment hholds hagrees
  rw [Evaluation.expression]
  rcases hprovides.find hname with ⟨home, hhome, rfl⟩ | ⟨hnone, hfield⟩
  · rw [(Generation.ExpressionCode.inSlot hhome).ok] at hcode
    cases hcode
    obtain ⟨value, operand, hvalue, hslot, hkeeps⟩ := hholds.find_local hprovides.based hhome
    have hload : Evaluation.load name store = .ok value store := by
      rw [Evaluation.load_eq, hvalue]
    exact .of_ok hload (load_local hslot hkeeps) (.of_keeps hty.ne_void hkeeps hagrees.beyond)
  · rw [(Generation.ExpressionCode.inField hnone hfield).ok] at hcode
    cases hcode
    obtain ⟨value, operand, hvalue, hoperand, hkeeps⟩ := hagrees.globals name ty hfield
    have hload : Evaluation.load name store = .ok value store := by
      rw [Evaluation.load_eq, Scopes.find?, hholds.find_field hprovides.based hnone, hvalue]
    exact .of_ok hload ((loadRef hholds.program).trans (getField hoperand hkeeps.suits))
      (.of_keeps hty.ne_void hkeeps hagrees.beyond)

theorem literal {e : Expr Info} {instruction : Instruction} {value : Value} {operand : Operand}
    (hcode : Generation.expression setting.globals locals e = pure [instruction])
    (hvalue : Evaluation.expression setting.functions invoke e = Evaluator.seeing e (pure value))
    (hpush : ∀ rest stack moment,
      Reaches setting.program (site.at (instruction :: rest) stack slots moment)
        (site.at rest (operand :: stack) slots moment))
    (hvoid : ty ≠ .void) (hkeeps : ∀ contents, Keeps contents ty value operand) :
    Computes setting invoke site locals slots e ty := by
  intro label label' code hgenerated rest _ stack store moment _ hagrees
  rw [hcode] at hgenerated
  cases hgenerated
  rw [hvalue]
  exact .of_ok rfl (hpush rest stack moment) (.of_keeps hvoid (hkeeps _) hagrees.beyond)

/-- A list is made empty, filled, and is a value from then on. -/
theorem list {items : List (Expr Info)} {component : Ty}
    (hitems : Fills setting invoke site locals slots items component) :
    Computes setting invoke site locals slots (.list info items) (.list component) := by
  intro label label' code hcode rest hsuffix stack store moment hholds hagrees
  rw [Evaluation.expression]
  cases Generation.expression_code hcode with
  | list hitemsCode =>
  refine .of_reaches newList (.bind (hitems hitemsCode rest (suffix_tail hsuffix) stack store moment
    hholds _ [] store _ rfl (.start hagrees)) ?_)
  rintro values after t ⟨later, rfl, hvalues, hnested, hfilling⟩
  rw [List.nil_append] at hfilling
  have hkeeps : Keeps (later.contents.finish moment.shared.heap.lists.size values) _
      (.list values) (.ref (.list moment.shared.heap.lists.size)) :=
    .reference rfl (Ty.list_admits hvalues) (.list (if_pos rfl))
  have hevaluated : Evaluated setting site rest stack slots store moment _ (.list values) after
      (site.at rest (.ref (.list moment.shared.heap.lists.size) :: stack) slots
        { later with contents := later.contents.finish _ values }) :=
    .of_keeps (by simp) hkeeps (hfilling.finish hnested)
  exact .of_ok rfl (.refl _) hevaluated

theorem parenthesized {inner : Expr Info} (h : Computes setting invoke site locals slots inner ty) :
    Computes setting invoke site locals slots (.parenthesized info inner) ty := by
  intro label label' code hcode rest hsuffix stack store moment hholds hagrees
  rw [Evaluation.expression]
  cases Generation.expression_code hcode with
  | parenthesized hcode => exact h hcode rest hsuffix stack store moment hholds hagrees

theorem unary {op : UnaryOp} {operand : Expr Info}
    (h : Computes setting invoke site locals slots operand (operandType op)) :
    Computes setting invoke site locals slots (.unary info op operand) (operandType op) := by
  intro label label' code hcode rest hsuffix stack store moment hholds hagrees
  rw [Evaluation.expression]
  cases Generation.expression_code hcode with
  | negate hoperand =>
    rw [List.append_assoc] at hsuffix ⊢
    refine bind_value (by simp [operandType]) (h hoperand _ hsuffix stack store moment hholds
      hagrees) fun value kept after later hkeeps hbeyond => ?_
    obtain ⟨n, rfl, rfl⟩ := hkeeps.of_int
    exact .of_ok rfl (neg n) (.of_keeps (by simp [operandType]) (.integer _) hbeyond)
  | not hoperand =>
    rw [List.append_assoc] at hsuffix ⊢
    refine bind_value (by simp [operandType]) (h hoperand _ hsuffix stack store moment hholds
      hagrees) fun value kept after later hkeeps hbeyond => ?_
    obtain ⟨b, rfl, rfl⟩ := hkeeps.of_boolean
    exact .of_ok rfl (negation b) (.of_keeps (by simp [operandType]) (.boolean _) hbeyond)

/-- Each operand is turned into a string as soon as it is on the stack. -/
theorem concat (hleft : Computes setting invoke site locals slots left tyA)
    (hright : Computes setting invoke site locals slots right tyB) (hinfo : info.ty = some .string)
    (hmark : left.mark.ty = some tyA) (hmark' : right.mark.ty = some tyB) (ha : tyA ≠ .void)
    (hb : tyB ≠ .void) :
    Computes setting invoke site locals slots (.binary info .add left right) .string := by
  intro label label' code hcode rest hsuffix stack store moment hholds hagrees
  cases Generation.expression_code hcode with
  | arithmetic hty =>
    obtain ⟨ty, hty, hne⟩ := hty rfl
    cases hinfo.symm.trans hty
    exact absurd rfl hne
  | concat _ htyA htyB hfirst hsecond =>
  cases hmark.symm.trans htyA
  cases hmark'.symm.trans htyB
  simp only [List.append_assoc, List.cons_append, List.nil_append] at hsuffix ⊢
  rw [Evaluation.expression]
  refine bind_value ha (hleft hfirst _ hsuffix stack store moment hholds hagrees)
    fun a kept middle later hkeeps hbeyond => ?_
  obtain ⟨object, hobject, hcoerce⟩ := coerce_object hkeeps
  refine .of_reaches (hcoerce.trans (stringValueOf object)) ?_
  rw [hbeyond.agrees.describes.text hobject]
  refine bind_value hb (hright hsecond _ (suffix_tail (suffix_right (suffix_right hsuffix))) _
    middle later (hbeyond.holds hholds) hbeyond.agrees)
    fun b kept' after latest hkeeps' hbeyond' => ?_
  obtain ⟨object', hobject', hcoerce'⟩ := coerce_object hkeeps'
  refine .of_reaches (hcoerce'.trans (stringValueOf object')) ?_
  rw [hbeyond'.agrees.describes.text hobject', if_pos ⟨rfl, hinfo⟩]
  exact .of_ok rfl (stringConcat _ _)
    (.of_keeps (by simp) (.reference rfl rfl (.string _)) (hbeyond.trans hbeyond'))

theorem arithmetic {op : BinaryOp} (hleft : Computes setting invoke site locals slots left .int)
    (hright : Computes setting invoke site locals slots right .int) (hinfo : info.ty = some .int) :
    Computes setting invoke site locals slots (.binary info op left right) .int := by
  intro label label' code hcode rest hsuffix stack store moment hholds hagrees
  cases Generation.expression_code hcode with
  | concat hty => cases hinfo.symm.trans hty
  | arithmetic _ hfirst hsecond =>
  simp only [List.append_assoc, List.cons_append, List.nil_append] at hsuffix ⊢
  rw [Evaluation.expression]
  refine bind_value (by simp) (hleft hfirst _ hsuffix stack store moment hholds hagrees)
    fun a kept middle later hkeeps hbeyond => ?_
  refine bind_value (by simp) (hright hsecond _ (suffix_right hsuffix) _ middle later
    (hbeyond.holds hholds) hbeyond.agrees) fun b kept' after latest hkeeps' hbeyond' => ?_
  obtain ⟨m, rfl, rfl⟩ := hkeeps.of_int
  obtain ⟨n, rfl, rfl⟩ := hkeeps'.of_int
  rw [if_neg (by rw [hinfo]; simp)]
  have hrun := Evaluation.arithmetic_eq op m n after
  cases hcompute : Evaluation.compute? op m n with
  | some result =>
    rw [hcompute] at hrun
    exact .of_ok hrun (Machine.arithmetic hcompute)
      (.of_keeps (by simp) (.integer result) (hbeyond.trans hbeyond'))
  | none =>
    rw [hcompute] at hrun
    obtain ⟨t, hreaches, hfailed⟩ := (divisionByZero hcompute).failed .divisionByZero
      hbeyond'.agrees
    exact .of_error hrun hreaches hfailed

theorem comparison {op : ComparisonOp} (hresolves : Resolves site.routine)
    (hleft : Computes setting invoke site locals slots left .int)
    (hright : Computes setting invoke site locals slots right .int) :
    Computes setting invoke site locals slots (.comparison info op left right) .boolean := by
  intro label label' code hcode rest hsuffix stack store moment hholds hagrees
  cases Generation.expression_code hcode with
  | comparison hfirst hsecond =>
  rw [List.append_assoc, List.append_assoc] at hsuffix ⊢
  rw [Evaluation.expression]
  refine bind_value (by simp) (hleft hfirst _ hsuffix stack store moment hholds hagrees)
    fun a kept middle later hkeeps hbeyond => ?_
  obtain ⟨m, rfl, rfl⟩ := hkeeps.of_int
  refine bind_value (by simp) (hright hsecond _ (suffix_right hsuffix) _ middle later
    (hbeyond.holds hholds) hbeyond.agrees) fun b kept' after latest hkeeps' hbeyond' => ?_
  obtain ⟨n, rfl, rfl⟩ := hkeeps'.of_int
  refine .of_reaches (related_reaches (Generation.ordering op) _ m n hresolves
    (suffix_right (suffix_right hsuffix))) ?_
  rw [ordering_holds]
  exact .of_ok rfl (.refl _) (.of_keeps (by simp) (.boolean _) (hbeyond.trans hbeyond'))

/-- Operands of one primitive type are compared as the stack has them, all others as objects. -/
theorem equality {op : EqualityOp} (hresolves : Resolves site.routine)
    (hleft : Computes setting invoke site locals slots left tyA)
    (hright : Computes setting invoke site locals slots right tyB) (hmark : left.mark.ty = some tyA)
    (hmark' : right.mark.ty = some tyB) (ha : tyA ≠ .void) (hb : tyB ≠ .void) :
    Computes setting invoke site locals slots (.equality info op left right) .boolean := by
  intro label label' code hcode rest hsuffix stack store moment hholds hagrees
  rw [Evaluation.expression]
  cases Generation.expression_code hcode with
  | unboxed htyA htyB hdirect hfirst hsecond =>
    cases hmark.symm.trans htyA
    cases hmark'.symm.trans htyB
    obtain ⟨hprimitive, rfl⟩ : tyA.isPrimitive = true ∧ tyA = tyB := by
      simpa [Generation.direct] using hdirect
    rw [List.append_assoc, List.append_assoc] at hsuffix ⊢
    refine bind_value ha (hleft hfirst _ hsuffix stack store moment hholds hagrees)
      fun a kept middle later hkeeps hbeyond => ?_
    refine bind_value ha (hright hsecond _ (suffix_right hsuffix) _ middle later
      (hbeyond.holds hholds) hbeyond.agrees) fun b kept' after latest hkeeps' hbeyond' => ?_
    obtain ⟨m, rfl⟩ := hkeeps.unboxed hprimitive
    obtain ⟨n, rfl⟩ := hkeeps'.unboxed hprimitive
    refine .of_reaches (related_reaches (Generation.sameness op) _ m n hresolves
      (suffix_right (suffix_right hsuffix))) ?_
    rw [sameness_holds hprimitive hkeeps hkeeps']
    cases op <;> exact .of_ok rfl (.refl _)
      (.of_keeps (by simp) (.boolean _) (hbeyond.trans hbeyond'))
  | boxed htyA htyB _ hfirst hsecond =>
    cases hmark.symm.trans htyA
    cases hmark'.symm.trans htyB
    rw [← turned_eq] at hsuffix ⊢
    simp only [List.append_assoc, List.cons_append] at hsuffix ⊢
    refine bind_value ha (hleft hfirst _ hsuffix stack store moment hholds hagrees)
      fun a kept middle later hkeeps hbeyond => ?_
    obtain ⟨object, hobject, hcoerce⟩ := coerce_object hkeeps
    refine .of_reaches hcoerce ?_
    refine bind_value hb (hright hsecond _ (suffix_right (suffix_right hsuffix)) _ middle later
      (hbeyond.holds hholds) hbeyond.agrees) fun b kept' after latest hkeeps' hbeyond' => ?_
    obtain ⟨object', hobject', hcoerce'⟩ := coerce_object hkeeps'
    refine .of_reaches (hcoerce'.trans ((objectsEquals object object').trans
      (turned_reaches op _))) ?_
    rw [hbeyond'.agrees.describes.same (hobject.mono hbeyond'.heap.finished) hobject']
    cases op <;> exact .of_ok rfl (.refl _)
      (.of_keeps (by simp) (.boolean _) (hbeyond.trans hbeyond'))

/-- A call finds its arguments on the stack, over the program that it is made on. -/
theorem call {name : String} {args : List (Expr Info)} {signature : Signature}
    {params : List Parameter} {definition : Definition}
    (hworking : Working setting room invoke site)
    (hargs : Passes setting invoke site locals slots args definition.params)
    (hfunction : (⟨types, setting.table⟩ : Symbols).function? name = some signature)
    (hfind : setting.globals.functions.find? name = some (params, signature.returns))
    (hdefinition : setting.functions.find? name = some definition)
    (hsame : definition.params.map Parameter.ty = params.map Parameter.ty)
    (hdistinct : (definition.params.map Parameter.name).Nodup)
    (hlength : definition.params.length = args.length) :
    Computes setting invoke site locals slots (.call info name args) signature.returns := by
  intro label label' code hcode rest hsuffix stack store moment hholds hagrees
  cases Generation.expression_code hcode with
  | call hentry hargsCode =>
  cases hfind.symm.trans hentry
  rw [Evaluation.expression, hdefinition]
  dsimp only
  rw [if_neg fun hne => hne hlength]
  simp only [List.cons_append, List.append_assoc, List.nil_append] at hsuffix ⊢
  refine .of_reaches (loadRef hholds.program) (.bind (hargs hsame hargsCode [] hdistinct _
    (suffix_tail hsuffix) _ store moment hholds hagrees) ?_)
  rintro bound after t ⟨more, operands, later, rfl, hbinds, hcount, rfl, hbeyond⟩
  have hcall := fun current => hworking.calls name signature definition hfunction hdefinition bound
    operands after later current ⟨site.routine, rest, stack, slots⟩ site.callers hworking.room
    hbinds hbeyond.agrees
  rw [← hcount]
  refine .of_reaches (Machine.call name operands (.ref .program) _)
    ((hcall _).mono ?_ fun _ _ _ hfailed => hfailed)
  rintro value last t ⟨latest, stack', rfl, hleaves, hbeyond'⟩
  exact ⟨latest, stack', rfl, hleaves, hbeyond.trans hbeyond'⟩

end Computes

theorem Fills.nil {component : Ty} : Fills setting invoke site locals slots [] component := by
  intro label label' code hcode rest _ stack start base _ place done store moment hnested hfilling
  cases Generation.items_code hcode
  rw [Evaluation.expressions]
  refine .pure ⟨moment, rfl, fun _ h => absurd h List.not_mem_nil, hnested, ?_⟩
  rw [List.append_nil]
  exact hfilling

/-- An item is added as an object, and the list stays on the stack for the next one. -/
theorem Fills.cons {item : Expr Info} {items : List (Expr Info)} {ty component : Ty}
    (hitem : Computes setting invoke site locals slots item ty)
    (hitems : Fills setting invoke site locals slots items component)
    (hmark : item.mark.ty = some ty) (hvoid : ty ≠ .void) (haccepts : component.accepts ty = true) :
    Fills setting invoke site locals slots (item :: items) component := by
  intro label label' code hcode rest hsuffix stack start base hholds place done store moment hnested
    hfilling
  cases Generation.items_code hcode with
  | cons hty hfirst hmore =>
  cases hmark.symm.trans hty
  simp only [List.append_assoc, List.cons_append, List.nil_append] at hsuffix ⊢
  rw [Evaluation.expressions]
  have hhere : Holds locals slots moment.contents store.scopes.nested := by
    rw [hnested]
    exact hholds.mono hfilling.heap.finished
  refine .of_reaches (dup _) (bind_value hvoid (hitem hfirst _ (suffix_tail hsuffix) _ store moment
    hhere hfilling.agrees) ?_)
  intro value operand middle later hkeeps hbeyond
  obtain ⟨object, hobject, hcoerce⟩ := coerce_object hkeeps
  refine .of_reaches (hcoerce.trans (listAdd place object)) (.bind (hitems hmore rest
    (suffix_tail (suffix_tail (suffix_right (suffix_right (suffix_tail hsuffix))))) stack start base
    hholds place _ middle _ (hbeyond.nested.trans hnested)
    ((hfilling.beyond hbeyond).add hobject)) ?_)
  rintro values after t ⟨latest, rfl, hvalues, hnested', hfilling'⟩
  rw [List.append_assoc, List.singleton_append] at hfilling'
  refine .pure ⟨latest, rfl, fun other hother => ?_, hnested', hfilling'⟩
  rcases List.mem_cons.1 hother with rfl | hother
  · exact Ty.admits_of_accepts haccepts hkeeps.admits
  · exact hvalues other hother

theorem Passes.nil : Passes setting invoke site locals slots [] [] := by
  intro params' hsame label label' code hcode bound _ rest _ stack store moment _ hagrees
  obtain rfl : params' = [] := List.map_eq_nil_iff.1 hsame.symm
  cases Generation.arguments_code hcode
  rw [Evaluation.arguments.eq_def]
  exact .pure ⟨[], [], moment, (List.append_nil _).symm, .nil, rfl, rfl, hagrees.beyond⟩

theorem Passes.cons {arg : Expr Info} {args : List (Expr Info)} {ty : Ty} {param : Parameter}
    {params : List Parameter} (harg : Computes setting invoke site locals slots arg ty)
    (hargs : Passes setting invoke site locals slots args params) (hmark : arg.mark.ty = some ty)
    (hvoid : ty ≠ .void) (haccepts : param.ty.accepts ty = true) :
    Passes setting invoke site locals slots (arg :: args) (param :: params) := by
  intro params' hsame label label' code hcode bound hdistinct rest hsuffix stack store moment hholds
    hagrees
  obtain ⟨param', params', rfl, hty, hrest⟩ := List.map_eq_cons_iff.1 hsame.symm
  cases Generation.arguments_code hcode with
  | cons htyA hfirst hmore =>
  cases hmark.symm.trans htyA
  simp only [List.append_assoc] at hsuffix ⊢
  rw [Evaluation.arguments]
  refine bind_value hvoid (harg hfirst _ hsuffix _ store moment hholds hagrees)
    fun value operand middle later hkeeps hbeyond => ?_
  rw [hty]
  refine (coerce_simulates hkeeps (Ty.admits_of_accepts haccepts hkeeps.admits)
    hbeyond.agrees).bind ?_
  rintro value middle t ⟨rfl, rfl, kept, rfl, hkept⟩
  obtain ⟨hfresh, hdistinct⟩ := Generation.names_bind hdistinct value
  refine (hargs hrest.symm hmore _ hdistinct rest (suffix_right (suffix_right hsuffix)) _ middle
    later (hbeyond.holds hholds) hbeyond.agrees).mono ?_ fun _ _ _ hfailed => hfailed
  rintro result after t ⟨others, operands, latest, rfl, hbinds, hcount, rfl, hbeyond'⟩
  refine ⟨(param.name, value) :: others, kept :: operands, latest, ?_,
    .cons (hkept.mono hbeyond'.heap.finished) hbinds, by simp [hcount], ?_, hbeyond.trans hbeyond'⟩
  · rw [Scope.bind_eq_append hfresh, List.append_assoc, List.singleton_append]
  · rw [List.reverse_cons, List.append_assoc, List.singleton_append]

mutual

theorem expression (hworking : Working setting room invoke site)
    (hprovides : Generation.Provides ⟨types, setting.table⟩ setting.globals locals) :
    (e : Expr Info) → {ty : Ty} → HasType ⟨types, setting.table⟩ e ty →
    Computes setting invoke site locals slots e ty
  | .identifier _ _, _, .identifier _ hname hty => .identifier hprovides hname hty
  | .integer _ n, _, .integer _ =>
    .literal (by rw [Generation.expression]) (by rw [Evaluation.expression])
      (fun _ _ _ => pushInt n) (by simp) fun _ => .integer n
  | .string _ text, _, .string _ =>
    .literal (by rw [Generation.expression]) (by rw [Evaluation.expression])
      (fun _ _ _ => pushString text) (by simp) fun _ => .reference rfl rfl (.string text)
  | .boolean _ b, _, .boolean _ =>
    .literal (by rw [Generation.expression]) (by rw [Evaluation.expression])
      (fun _ _ _ => pushInt _) (by simp) fun _ => .boolean b
  | .null _, _, .null _ =>
    .literal (by rw [Generation.expression]) (by rw [Evaluation.expression])
      (fun _ _ _ => pushNull) (by simp) fun _ => .reference rfl rfl .null
  | .list _ items, _, .list _ _ hitems => .list (listItems hworking hprovides items hitems)
  | .parenthesized _ inner, _, .parenthesized _ hinner =>
    .parenthesized (expression hworking hprovides inner hinner)
  | .unary _ _ operand, _, .unary _ hoperand =>
    .unary (expression hworking hprovides operand hoperand)
  | .binary _ _ left right, _, .concat hinfo hleft hright ha hb =>
    .concat (expression hworking hprovides left hleft) (expression hworking hprovides right hright)
      hinfo hleft.mark hright.mark ha hb
  | .binary _ _ left right, _, .arithmetic hinfo hleft hright =>
    .arithmetic (expression hworking hprovides left hleft)
      (expression hworking hprovides right hright) hinfo
  | .comparison _ _ left right, _, .comparison _ hleft hright =>
    .comparison hworking.resolves (expression hworking hprovides left hleft)
      (expression hworking hprovides right hright)
  | .equality _ _ left right, _, .equality _ hleft hright ha hb =>
    .equality hworking.resolves (expression hworking hprovides left hleft)
      (expression hworking hprovides right hright) hleft.mark hright.mark ha hb
  | .call _ name args, _, @HasType.call _ _ _ _ signature _ hfunction hargs => by
    obtain ⟨params, hfind, hparams⟩ := hprovides.functions name signature hfunction
    obtain ⟨definition, linked, hdefinition, -, himplements⟩ :=
      setting.carries.calls name signature hfunction
    have hwell := himplements.wellTyped
    rw [hwell.params] at hargs
    exact .call hworking (arguments hworking hprovides args hargs) hfunction hfind hdefinition
      (hwell.params.symm.trans hparams.symm) hwell.callable.distinct
      (by rw [hargs.length, List.length_map])

theorem listItems (hworking : Working setting room invoke site)
    (hprovides : Generation.Provides ⟨types, setting.table⟩ setting.globals locals) :
    (items : List (Expr Info)) → {component : Ty} →
    ItemsFit ⟨types, setting.table⟩ items component →
    Fills setting invoke site locals slots items component
  | [], _, _ => .nil
  | item :: items, _, .cons hitem hvoid haccepts hitems =>
    .cons (expression hworking hprovides item hitem) (listItems hworking hprovides items hitems)
      hitem.mark hvoid haccepts

theorem arguments (hworking : Working setting room invoke site)
    (hprovides : Generation.Provides ⟨types, setting.table⟩ setting.globals locals) :
    (args : List (Expr Info)) → {params : List Parameter} →
    ArgsFit ⟨types, setting.table⟩ args (params.map Parameter.ty) →
    Passes setting invoke site locals slots args params
  | [], [], _ => .nil
  | arg :: args, _ :: _, .cons harg hvoid haccepts hargs =>
    .cons (expression hworking hprovides arg harg) (arguments hworking hprovides args hargs)
      harg.mark hvoid haccepts

end
end Expressions
end Simulation
end CatScript
