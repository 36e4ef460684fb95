import CatScript.Evaluation.Run

/-! # Evaluators side by side

Programs are evaluated in whatever monad an `Evaluator` is given for.  A relation between the steps
of two evaluators may be one that all their operations keep (`Evaluator.Keep`).  As evaluation is
made of nothing else, every expression and every statement keeps it too, as long as calls do. -/
set_option autoImplicit false
namespace CatScript
open Evaluator

variable {m n : Type → Type} [Monad m] [Evaluator m] [Monad n] [Evaluator n]

/-- The operations of two evaluators keep a relation between their steps. -/
structure Evaluator.Keep (R : ⦃α : Type⦄ → m α → n α → Prop) : Prop where
  pure {α : Type} (a : α) : R (Pure.pure a : m α) (Pure.pure a)
  bind {α β : Type} {x : m α} {y : n α} {f : α → m β} {g : α → n β} :
    R x y → (∀ a, R (f a) (g a)) → R (x >>= f) (y >>= g)
  lift {α : Type} (step : Eval α) : R (Evaluator.lift step : m α) (Evaluator.lift step)
  seeing (e : Expr Info) {x : m Value} {y : n Value} : R x y → R (seeing e x) (seeing e y)
  inScope {α : Type} {x : m α} {y : n α} : R x y → R (inScope x) (inScope y)

namespace Evaluator.Keep

def Calls (R : ⦃α : Type⦄ → m α → n α → Prop) (invoke : Invoke m) (invoke' : Invoke n) : Prop :=
  ∀ definition bound, R (invoke definition bound) (invoke' definition bound)

variable {R : ⦃α : Type⦄ → m α → n α → Prop} (h : Keep R)
include h

theorem enclose (rule : LoopRule) {x : m Flow} {y : n Flow} (hloop : R x y) :
    R (rule.enclose x) (rule.enclose y) := by
  cases rule with
  | around => exact hloop
  | own => exact h.inScope hloop

theorem eachItem {act : Value → m Flow} {act' : Value → n Flow}
    (hact : ∀ item, R (act item) (act' item)) (items : List Value) :
    R (Evaluation.eachItem act items) (Evaluation.eachItem act' items) := by
  induction items with
  | nil => exact h.pure _
  | cons item rest ih =>
    refine h.bind (hact item) fun flow => ?_
    cases flow with
    | normal => exact ih
    | returned value => exact h.pure _

variable (functions : Scope Definition) {invoke : Invoke m} {invoke' : Invoke n}

mutual

theorem expression (hcalls : Calls R invoke invoke') : (e : Expr Info) →
    R (Evaluation.expression functions invoke e) (Evaluation.expression functions invoke' e)
  | .identifier _ name => by
    rw [Evaluation.expression, Evaluation.expression]
    exact h.seeing _ (h.lift _)
  | .integer .. | .string .. | .boolean .. | .null _ => by
    rw [Evaluation.expression, Evaluation.expression]
    exact h.seeing _ (h.pure _)
  | .list _ items => by
    rw [Evaluation.expression, Evaluation.expression]
    exact h.seeing _ (h.bind (expressions hcalls items) fun _ => h.pure _)
  | .parenthesized _ inner => by
    rw [Evaluation.expression, Evaluation.expression]
    exact h.seeing _ (expression hcalls inner)
  | .unary _ op operand => by
    rw [Evaluation.expression, Evaluation.expression]
    refine h.seeing _ (h.bind (expression hcalls operand) fun value => ?_)
    cases op <;> exact h.bind (h.lift _) fun _ => h.pure _
  | .binary info op left right => by
    rw [Evaluation.expression, Evaluation.expression]
    refine h.seeing _ (h.bind (expression hcalls left) fun a => ?_)
    refine h.bind (expression hcalls right) fun b => ?_
    split
    · exact h.pure _
    · exact h.lift _
  | .comparison _ op left right => by
    rw [Evaluation.expression, Evaluation.expression]
    refine h.seeing _ (h.bind (expression hcalls left) fun a => h.bind (h.lift _) fun _ => ?_)
    refine h.bind (expression hcalls right) fun b => h.bind (h.lift _) fun _ => ?_
    exact h.pure _
  | .equality _ op left right => by
    rw [Evaluation.expression, Evaluation.expression]
    refine h.seeing _ (h.bind (expression hcalls left) fun a => ?_)
    refine h.bind (expression hcalls right) fun b => ?_
    cases op <;> exact h.pure _
  | .call _ name args => by
    rw [Evaluation.expression, Evaluation.expression]
    refine h.seeing _ ?_
    cases functions.find? name with
    | none => exact h.lift _
    | some definition =>
      have hcall := h.bind (arguments hcalls definition.params args []) (hcalls definition)
      dsimp only
      split
      · exact h.bind (h.lift _) fun _ => hcall
      · exact hcall
  | .broken _ text => by
    rw [Evaluation.expression, Evaluation.expression]
    exact h.lift _

theorem expressions (hcalls : Calls R invoke invoke') : (items : List (Expr Info)) →
    R (Evaluation.expressions functions invoke items)
      (Evaluation.expressions functions invoke' items)
  | [] => by
    rw [Evaluation.expressions, Evaluation.expressions]
    exact h.pure _
  | e :: rest => by
    rw [Evaluation.expressions, Evaluation.expressions]
    refine h.bind (expression hcalls e) fun _ => ?_
    exact h.bind (expressions hcalls rest) fun _ => h.pure _

theorem arguments (hcalls : Calls R invoke invoke') : (params : List Parameter) →
    (args : List (Expr Info)) → (bound : Scope Value) →
    R (Evaluation.arguments functions invoke params args bound)
      (Evaluation.arguments functions invoke' params args bound)
  | param :: params, arg :: args, bound => by
    rw [Evaluation.arguments, Evaluation.arguments]
    refine h.bind (expression hcalls arg) fun value => ?_
    refine h.bind (h.lift _) fun kept => ?_
    exact arguments hcalls params args (bound.bind param.name kept)
  | [], _, bound | _ :: _, [], bound => by
    simp only [Evaluation.arguments]
    exact h.pure _

end

variable (rule : LoopRule)

mutual

theorem statement (hcalls : Calls R invoke invoke') : (s : Stmt Info) →
    R (Evaluation.statement functions invoke rule s) (Evaluation.statement functions invoke' rule s)
  | .declaration _ _ _ value | .assignment _ _ value => by
    rw [Evaluation.statement, Evaluation.statement]
    refine h.bind (h.expression functions hcalls value) fun value => h.bind (h.lift _) fun kept => ?_
    exact h.bind (h.lift _) fun _ => h.pure _
  | .function .. | .returning _ none => by
    rw [Evaluation.statement, Evaluation.statement]
    exact h.pure _
  | .ifThen _ condition thenBody => by
    rw [Evaluation.statement, Evaluation.statement]
    refine h.bind (h.expression functions hcalls condition) fun value => h.bind (h.lift _) fun test => ?_
    cases test with
    | true => exact h.inScope (statements hcalls thenBody)
    | false => exact h.pure _
  | .ifThenElse _ condition thenBody elseBody => by
    rw [Evaluation.statement, Evaluation.statement]
    refine h.bind (h.expression functions hcalls condition) fun value => h.bind (h.lift _) fun test => ?_
    cases test with
    | true => exact h.inScope (statements hcalls thenBody)
    | false => exact h.inScope (statements hcalls elseBody)
  | .loop info name iterable body => by
    rw [Evaluation.statement, Evaluation.statement]
    refine h.bind (h.expression functions hcalls iterable) fun value => ?_
    cases value with
    | list items =>
      refine h.enclose rule (h.eachItem (fun item => ?_) items)
      refine h.bind (h.lift _) fun kept => h.bind (h.lift _) fun _ => ?_
      exact h.inScope (statements hcalls body)
    | _ => exact h.lift _
  | .print _ value => by
    rw [Evaluation.statement, Evaluation.statement]
    refine h.bind (h.expression functions hcalls value) fun value => ?_
    exact h.bind (h.lift _) fun _ => h.pure _
  | .call _ value | .returning _ (some value) | .bare value => by
    rw [Evaluation.statement, Evaluation.statement]
    exact h.bind (h.expression functions hcalls value) fun _ => h.pure _
  | .broken _ text => by
    rw [Evaluation.statement, Evaluation.statement]
    exact h.lift _

theorem statements (hcalls : Calls R invoke invoke') : (body : List (Stmt Info)) →
    R (Evaluation.statements functions invoke rule body)
      (Evaluation.statements functions invoke' rule body)
  | [] => by
    rw [Evaluation.statements, Evaluation.statements]
    exact h.pure _
  | s :: rest => by
    rw [Evaluation.statements, Evaluation.statements]
    refine h.bind (statement hcalls s) fun flow => ?_
    cases flow with
    | normal => exact statements hcalls rest
    | returned value => exact h.pure _

end
end Evaluator.Keep
end CatScript
