import CatScript.Evaluation.Run
import CatScript.Typing.Check

/-! # Paths of control

A path goes through statements in order until it returns or comes out at their end.  Of the values
of expressions it knows nothing: a branch may be taken or not, and a loop may go round any number of
times.  `Typing.alwaysReturns` holds of the statements that no path goes through to the end
(`Typing.alwaysReturns_iff`), and evaluation always follows a path (`Evaluation.statements_path`). -/
set_option autoImplicit false
namespace CatScript

/-- Where control goes from a statement: on to what follows it, or out of the function. -/
inductive Exit where
  | through | returned
deriving DecidableEq

variable {α : Type}

/-- Control goes through the statement, whatever happens in it. -/
def Stmt.Plain : Stmt α → Prop
  | .ifThen .. | .ifThenElse .. | .loop .. | .returning .. => False
  | _ => True

mutual

/-- A path of control through a statement. -/
inductive Stmt.Path : Stmt α → Exit → Prop where
  | plain {s : Stmt α} : s.Plain → Path s .through
  | returning {mark : α} {value : Option (Expr α)} : Path (.returning mark value) .returned
  | taken {mark : α} {condition : Expr α} {thenBody : List (Stmt α)} {exit : Exit} :
    Paths thenBody exit → Path (.ifThen mark condition thenBody) exit
  | skipped {mark : α} {condition : Expr α} {thenBody : List (Stmt α)} :
    Path (.ifThen mark condition thenBody) .through
  | first {mark : α} {condition : Expr α} {thenBody elseBody : List (Stmt α)} {exit : Exit} :
    Paths thenBody exit → Path (.ifThenElse mark condition thenBody elseBody) exit
  | second {mark : α} {condition : Expr α} {thenBody elseBody : List (Stmt α)} {exit : Exit} :
    Paths elseBody exit → Path (.ifThenElse mark condition thenBody elseBody) exit
  | done {mark : α} {name : String} {iterable : Expr α} {body : List (Stmt α)} :
    Path (.loop mark name iterable body) .through
  | round {mark : α} {name : String} {iterable : Expr α} {body : List (Stmt α)} {exit : Exit} :
    Paths body .through → Path (.loop mark name iterable body) exit →
    Path (.loop mark name iterable body) exit
  | broken {mark : α} {name : String} {iterable : Expr α} {body : List (Stmt α)} :
    Paths body .returned → Path (.loop mark name iterable body) .returned

inductive Stmt.Paths : List (Stmt α) → Exit → Prop where
  | nil : Paths [] .through
  | next {s : Stmt α} {rest : List (Stmt α)} {exit : Exit} :
    Path s .through → Paths rest exit → Paths (s :: rest) exit
  | stop {s : Stmt α} {rest : List (Stmt α)} : Path s .returned → Paths (s :: rest) .returned

end

namespace Stmt

theorem paths_through_cons {s : Stmt α} {rest : List (Stmt α)} :
    Paths (s :: rest) .through ↔ Path s .through ∧ Paths rest .through := by
  constructor
  · rintro (_ | ⟨hs, hrest⟩)
    exact ⟨hs, hrest⟩
  · rintro ⟨hs, hrest⟩
    exact .next hs hrest

theorem path_through_ifThenElse {mark : α} {condition : Expr α} {thenBody elseBody : List (Stmt α)} :
    Path (.ifThenElse mark condition thenBody elseBody) .through ↔
      Paths thenBody .through ∨ Paths elseBody .through := by
  constructor
  · intro h
    cases h with
    | plain hplain => exact hplain.elim
    | first h => exact .inl h
    | second h => exact .inr h
  · rintro (h | h)
    · exact .first h
    · exact .second h

theorem not_path_through_returning {mark : α} {value : Option (Expr α)} :
    ¬Path (.returning mark value) .through := by
  intro h
  cases h with
  | plain hplain => exact hplain

end Stmt

namespace Typing
open Stmt (Path Paths)

mutual

theorem returns_iff : (s : Stmt Info) → (returns s = true ↔ ¬Path s .through)
  | .returning _ _ => iff_of_true rfl Stmt.not_path_through_returning
  | .ifThenElse _ _ thenBody elseBody => by
    rw [returns, Bool.and_eq_true, alwaysReturns_iff thenBody, alwaysReturns_iff elseBody,
      Stmt.path_through_ifThenElse, not_or]
  | .ifThen .. => iff_of_false Bool.false_ne_true (not_not_intro .skipped)
  | .loop .. => iff_of_false Bool.false_ne_true (not_not_intro .done)
  | .declaration .. | .assignment .. | .function .. | .print .. | .call .. | .broken .. | .bare _ =>
    iff_of_false Bool.false_ne_true (not_not_intro (.plain trivial))

/-- The check for returns is exact: it fails where some path goes through to the end. -/
theorem alwaysReturns_iff : (body : List (Stmt Info)) →
    (alwaysReturns body = true ↔ ¬Paths body .through)
  | [] => iff_of_false Bool.false_ne_true (not_not_intro .nil)
  | s :: rest => by
    rw [alwaysReturns, Bool.or_eq_true, returns_iff s, alwaysReturns_iff rest,
      Stmt.paths_through_cons, Classical.not_and_iff_not_or_not]

end
end Typing

def Flow.exit : Flow → Exit
  | .normal => .through
  | .returned _ => .returned

namespace Evaluation

variable {β : Type}

/-- Whatever the step gives, `P` holds of it. -/
def Gives (P : α → Prop) (m : Eval α) : Prop :=
  ∀ store a after, m store = .ok a after → P a

namespace Gives
variable {P : α → Prop}

theorem mono {Q : α → Prop} {m : Eval α} (h : Gives P m) (himp : ∀ a, P a → Q a) : Gives Q m := by
  intro store a after hrun
  exact himp a (h store a after hrun)

theorem pure {a : α} (h : P a) : Gives P (Pure.pure a : Eval α) := by
  intro store b after hrun
  cases hrun
  exact h

theorem throw (cause : EvalError) : Gives P (MonadExcept.throw cause : Eval α) := by
  intro store a after hrun
  cases hrun

theorem bind {Q : β → Prop} {m : Eval α} {f : α → Eval β} (hm : Gives P m)
    (hf : ∀ a, P a → Gives Q (f a)) : Gives Q (m >>= f) := by
  intro store b after hrun
  simp only [Bind.bind, EStateM.bind] at hrun
  cases hfirst : m store with
  | ok a middle =>
    rw [hfirst] at hrun
    exact hf a (hm store a middle hfirst) middle b after hrun
  | error cause middle =>
    rw [hfirst] at hrun
    cases hrun

theorem after {Q : β → Prop} {m : Eval α} {f : α → Eval β} (hf : ∀ a, Gives Q (f a)) :
    Gives Q (m >>= f) := by
  refine bind (P := fun _ => True) (fun _ _ _ _ => trivial) fun a _ => ?_
  exact hf a

theorem inScope {m : Eval α} (h : Gives P m) : Gives P (Evaluation.inScope m) := by
  intro store a after hrun
  change thenAlways m Scopes.pop (store.onScopes Scopes.push) = .ok a after at hrun
  rw [thenAlways] at hrun
  cases hbody : m (store.onScopes Scopes.push) with
  | ok b middle =>
    rw [hbody] at hrun
    cases hrun
    exact h _ _ _ hbody
  | error cause middle =>
    rw [hbody] at hrun
    cases hrun

theorem enclose {P : Flow → Prop} {loop : Eval Flow} (rule : LoopRule) (h : Gives P loop) :
    Gives P (rule.enclose loop) := by
  cases rule with
  | around => exact h
  | own => exact h.inScope

end Gives

open Stmt (Path Paths)

/-- A loop goes round once for each item, unless the body returns. -/
theorem eachItem_path {info : Info} {name : String} {iterable : Expr Info}
    {body : List (Stmt Info)} {act : Value → Eval Flow}
    (hact : ∀ item, Gives (fun flow => Paths body flow.exit) (act item)) (items : List Value) :
    Gives (fun flow => Path (.loop info name iterable body) flow.exit) (eachItem act items) := by
  induction items with
  | nil => exact .pure .done
  | cons item rest ih =>
    refine (hact item).bind fun flow hflow => ?_
    cases flow with
    | normal => exact ih.mono fun _ => .round hflow
    | returned value => exact .pure (.broken hflow)

section Trees
variable (functions : Scope Definition) (invoke : Invoke Eval) (rule : LoopRule)

mutual

theorem statement_path : (s : Stmt Info) →
    Gives (fun flow => Path s flow.exit) (statement functions invoke rule s)
  | .declaration .. | .assignment .. => by
    rw [statement]
    exact .after fun _ => .after fun _ => .after fun _ => .pure (.plain trivial)
  | .function .. => by
    rw [statement]
    exact .pure (.plain trivial)
  | .ifThen _ _ thenBody => by
    rw [statement]
    refine .after fun _ => .after fun test => ?_
    cases test with
    | true =>
      exact (statements_path thenBody).inScope.mono fun _ => .taken
    | false => exact .pure .skipped
  | .ifThenElse _ _ thenBody elseBody => by
    rw [statement]
    refine .after fun _ => .after fun test => ?_
    cases test with
    | true =>
      exact (statements_path thenBody).inScope.mono fun _ => .first
    | false =>
      exact (statements_path elseBody).inScope.mono fun _ => .second
  | .loop _ _ _ body => by
    rw [statement]
    refine .after fun value => ?_
    cases value with
    | list items =>
      refine .enclose rule (eachItem_path (fun item => ?_) items)
      exact .after fun _ => .after fun _ => (statements_path body).inScope
    | _ => exact .throw _
  | .print .. => by
    rw [statement]
    exact .after fun _ => .after fun _ => .pure (.plain trivial)
  | .call .. | .bare _ => by
    rw [statement]
    exact .after fun _ => .pure (.plain trivial)
  | .returning _ none => by
    rw [statement]
    exact .pure .returning
  | .returning _ (some _) => by
    rw [statement]
    exact .after fun _ => .pure .returning
  | .broken .. => by
    rw [statement]
    exact .throw _

theorem statements_path : (body : List (Stmt Info)) →
    Gives (fun flow => Paths body flow.exit) (statements functions invoke rule body)
  | [] => by
    rw [statements]
    exact .pure .nil
  | s :: rest => by
    rw [statements]
    refine (statement_path s).bind fun flow hflow => ?_
    cases flow with
    | normal => exact (statements_path rest).mono fun _ => .next hflow
    | returned value => exact .pure (.stop hflow)

end
end Trees
end Evaluation
end CatScript
