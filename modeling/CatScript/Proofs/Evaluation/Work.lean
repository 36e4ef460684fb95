import CatScript.Proofs.Evaluation.Steps
import CatScript.Proofs.Evaluation.Watch
import CatScript.Proofs.Scope
import CatScript.Proofs.Typing.Functions
import CatScript.Tree.Marks

/-! # How long evaluation takes

`Program.work` bounds, from the text of a program alone, how many expressions are evaluated in a run
of it (`Work.program`).  Calls nest so deep and no deeper, and a loop goes through a list that is no
longer than the program has parts: no list grows (`Value.Fits`). -/
set_option autoImplicit false
namespace CatScript

namespace Value

mutual

/-- No list in the value has more than `limit` items. -/
def Fits (limit : Nat) : Value → Prop
  | .list items => items.length ≤ limit ∧ FitsAll limit items
  | .integer _ | .boolean _ | .string _ | .null => True

def FitsAll (limit : Nat) : List Value → Prop
  | [] => True
  | value :: rest => value.Fits limit ∧ FitsAll limit rest

end

theorem fitsAll_iff {limit : Nat} {values : List Value} :
    FitsAll limit values ↔ ∀ value ∈ values, value.Fits limit := by
  induction values with
  | nil => simp [FitsAll]
  | cons value rest ih => simp [FitsAll, ih]

end Value

variable {α β : Type}

mutual

/-- How many expressions are evaluated for an expression if `call` are for a call in it. -/
def Expr.work (call : Nat) : Expr α → Nat
  | .identifier .. | .integer .. | .string .. | .boolean .. | .null _ | .broken .. => 1
  | .list _ items => Expr.workAll call items + 1
  | .parenthesized _ inner => inner.work call + 1
  | .unary _ _ operand => operand.work call + 1
  | .binary _ _ left right | .comparison _ _ left right | .equality _ _ left right =>
    left.work call + right.work call + 1
  | .call _ _ args => Expr.workAll call args + call + 1

def Expr.workAll (call : Nat) : List (Expr α) → Nat
  | [] => 0
  | e :: rest => e.work call + Expr.workAll call rest

end

mutual

/-- How many expressions are evaluated for a statement if loops make `rounds` rounds at most. -/
def Stmt.work (rounds call : Nat) : Stmt α → Nat
  | .declaration _ _ _ value | .assignment _ _ value | .print _ value | .call _ value
  | .returning _ (some value) | .bare value => value.work call
  | .function .. | .returning _ none | .broken .. => 0
  | .ifThen _ condition thenBody => condition.work call + Stmt.workAll rounds call thenBody
  | .ifThenElse _ condition thenBody elseBody =>
    condition.work call + (Stmt.workAll rounds call thenBody + Stmt.workAll rounds call elseBody)
  | .loop _ _ iterable body => iterable.work call + rounds * Stmt.workAll rounds call body

def Stmt.workAll (rounds call : Nat) : List (Stmt α) → Nat
  | [] => 0
  | s :: rest => s.work rounds call + Stmt.workAll rounds call rest

end

/-- How many expressions are evaluated for a call if `room` calls may nest. -/
def callWork (rounds : Nat) (functions : Scope Definition) : (room : Nat) → Nat
  | 0 => 0
  | room + 1 =>
    functions.foldr
      (fun entry most => max (Stmt.workAll rounds (callWork rounds functions room) entry.2.body) most) 0

def Program.work (p : Program Info) : Nat :=
  let rounds := p.marks.length
  match p with
  | .expression _ body => body.work (callWork rounds [] Evaluation.maxCallDepth)
  | .statements _ body =>
    Stmt.workAll rounds (callWork rounds (Evaluation.definitions [] body) Evaluation.maxCallDepth)
      body

namespace Watch
variable {limit n k : Nat}

/-- Where no list has more than `limit` items, the step evaluates `n` expressions at most.  What it
gives is as `P` wants it, and there is no longer list after it. -/
def Takes (limit : Nat) (m : Watch α) (n : Nat) (P : α → Prop) : Prop :=
  ∀ store : Store, store.scopes.All (Value.Fits limit) → (m store).2.length ≤ n ∧
    ∀ a after, (m store).1 = .ok a after → P a ∧ after.scopes.All (Value.Fits limit)

def FlowFits (limit : Nat) : Flow → Prop
  | .normal => True
  | .returned value => value.Fits limit

namespace Takes
variable {P Q : α → Prop}

theorem pure {a : α} (h : P a) : Takes limit (Pure.pure a) 0 P := by
  intro store hstore
  refine ⟨Nat.le_refl 0, fun b after hrun => ?_⟩
  cases hrun
  exact ⟨h, hstore⟩

theorem lift {m : Eval α} (h : ∀ store : Store, store.scopes.All (Value.Fits limit) →
    ∀ a after, m store = .ok a after → P a ∧ after.scopes.All (Value.Fits limit)) :
    Takes limit (Evaluator.lift m) 0 P := by
  intro store hstore
  exact ⟨Nat.le_refl 0, h store hstore⟩

theorem throw (cause : EvalError) : Takes limit (Evaluator.lift (MonadExcept.throw cause)) 0 P := by
  refine lift fun _ _ _ _ hrun => ?_
  cases hrun

theorem uniform {m : Eval α} (hm : Evaluation.Uniform m) (h : ∀ a, m = Pure.pure a → P a) :
    Takes limit (Evaluator.lift m) 0 P := by
  rcases hm with ⟨a, rfl⟩ | ⟨cause, rfl⟩
  · exact pure (h a rfl)
  · exact throw cause

theorem mono {m : Watch α} (h : Takes limit m n P) (hle : n ≤ k) (hpost : ∀ a, P a → Q a) :
    Takes limit m k Q := by
  intro store hstore
  obtain ⟨hlength, hok⟩ := h store hstore
  exact ⟨Nat.le_trans hlength hle, fun a after hrun =>
    ⟨hpost a (hok a after hrun).1, (hok a after hrun).2⟩⟩

theorem bind {m : Watch α} {f : α → Watch β} {next : β → Prop} (hm : Takes limit m n P)
    (hf : ∀ a, P a → Takes limit (f a) k next) : Takes limit (m >>= f) (n + k) next := by
  intro store hstore
  obtain ⟨hlength, hok⟩ := hm store hstore
  simp only [Bind.bind]
  cases hrun : m store with
  | mk result seen =>
    rw [hrun] at hlength hok
    cases result with
    | ok a after =>
      obtain ⟨ha, hafter⟩ := hok a after rfl
      obtain ⟨hlength', hok'⟩ := hf a ha after hafter
      dsimp only at hlength ⊢
      rw [List.length_append]
      exact ⟨Nat.add_le_add hlength hlength', hok'⟩
    | error cause after => exact ⟨Nat.le_trans hlength (Nat.le_add_right n k), nofun⟩

theorem bind_free {m : Watch α} {f : α → Watch β} {next : β → Prop} (hm : Takes limit m n P)
    (hf : ∀ a, P a → Takes limit (f a) 0 next) : Takes limit (m >>= f) n next :=
  hm.bind hf

theorem free_bind {m : Watch α} {f : α → Watch β} {next : β → Prop} (hm : Takes limit m 0 P)
    (hf : ∀ a, P a → Takes limit (f a) k next) : Takes limit (m >>= f) k next := by
  rw [← Nat.zero_add k]
  exact hm.bind hf

theorem seeing {e : Expr Info} {m : Watch Value} {P : Value → Prop} (h : Takes limit m n P) :
    Takes limit (Evaluator.seeing e m) (n + 1) P := by
  refine h.bind fun value hvalue store hstore => ⟨Nat.le_refl 1, ?_⟩
  intro a after hrun
  cases hrun
  exact ⟨hvalue, hstore⟩

theorem thenAlways {m : Watch α} {store : Store} {change : Scopes Value → Scopes Value}
    (h : Takes limit m n P) (hstore : store.scopes.All (Value.Fits limit))
    (hchange : ∀ scopes, scopes.All (Value.Fits limit) → (change scopes).All (Value.Fits limit)) :
    (m store).2.length ≤ n ∧ ∀ a after, Evaluation.thenAlways m.erase change store = .ok a after →
      P a ∧ after.scopes.All (Value.Fits limit) := by
  obtain ⟨hlength, hok⟩ := h store hstore
  refine ⟨hlength, fun a after hrun => ?_⟩
  unfold Evaluation.thenAlways Watch.erase at hrun
  cases hm : (m store).1 with
  | ok b middle =>
    rw [hm] at hrun
    cases hrun
    obtain ⟨hresult, hmiddle⟩ := hok _ middle hm
    exact ⟨hresult, hchange _ hmiddle⟩
  | error cause middle =>
    rw [hm] at hrun
    cases hrun

theorem inScope {m : Watch α} (h : Takes limit m n P) : Takes limit (Evaluator.inScope m) n P := by
  intro _ hstore
  exact h.thenAlways hstore.push fun _ hscopes => hscopes.pop

theorem inCall {m : Watch α} {bound : Scope Value} (hbound : bound.All (Value.Fits limit))
    (h : Takes limit m n P) : Takes limit (Evaluator.inCall bound m) n P := by
  intro store hstore
  have hentered : (store.onScopes fun scopes =>
      { scopes with nested := [bound] }).scopes.All (Value.Fits limit) :=
    ⟨hstore.outermost, List.forall_mem_singleton.2 hbound⟩
  exact h.thenAlways hentered fun _ hscopes => ⟨hscopes.outermost, hstore.nested⟩

theorem enclose {rule : LoopRule} {m : Watch Flow} {P : Flow → Prop} (h : Takes limit m n P) :
    Takes limit (rule.enclose m) n P := by
  cases rule with
  | around => exact h
  | own => exact h.inScope

/-- A list is gone through in as many rounds as it has items. -/
theorem eachItem {act : Value → Watch Flow} {items : List Value}
    (h : ∀ item ∈ items, Takes limit (act item) n (FlowFits limit)) :
    Takes limit (Evaluation.eachItem act items) (items.length * n) (FlowFits limit) := by
  induction items with
  | nil => exact (pure trivial).mono (Nat.zero_le _) fun _ h => h
  | cons item rest ih =>
    obtain ⟨hitem, hrest⟩ := List.forall_mem_cons.1 h
    rw [List.length_cons, Nat.succ_mul, Nat.add_comm]
    refine hitem.bind fun flow hflow => ?_
    cases flow with
    | normal => exact ih hrest
    | returned value => exact (pure hflow).mono (Nat.zero_le _) fun _ h => h

end Takes
end Watch

namespace Work
open Watch Evaluation
variable {limit call : Nat} {functions : Scope Definition} {invoke : Invoke Watch}

theorem load (name : String) : Takes limit (Evaluator.lift (load name)) 0 (Value.Fits limit) := by
  refine .lift fun store hstore value after hrun => ?_
  rw [load_eq] at hrun
  cases hfind : store.scopes.find? name with
  | none => rw [hfind] at hrun; cases hrun
  | some found =>
    rw [hfind] at hrun
    cases hrun
    exact ⟨hstore.find hfind, hstore⟩

theorem declare (name : String) {value : Value} (hvalue : value.Fits limit) :
    Takes limit (Evaluator.lift (declare name value)) 0 fun _ => True := by
  refine .lift fun store hstore _ after hrun => ?_
  rw [declare_eq] at hrun
  cases hrun
  exact ⟨trivial, hstore.declare name hvalue⟩

theorem assign (name : String) {value : Value} (hvalue : value.Fits limit) :
    Takes limit (Evaluator.lift (assign name value)) 0 fun _ => True := by
  refine .lift fun store hstore _ after hrun => ?_
  rw [assign_eq] at hrun
  cases hassign : store.scopes.assign? name value with
  | none => rw [hassign] at hrun; cases hrun
  | some scopes =>
    rw [hassign] at hrun
    cases hrun
    exact ⟨trivial, hstore.assign hvalue hassign⟩

theorem print (value : Value) : Takes limit (Evaluator.lift (print value)) 0 fun _ => True := by
  refine .lift fun store hstore _ after hrun => ?_
  rw [print_eq] at hrun
  cases hrun
  exact ⟨trivial, hstore⟩

theorem stored (ty? : Option Ty) {value : Value} (hvalue : value.Fits limit) :
    Takes limit (Evaluator.lift (stored ty? value)) 0 (Value.Fits limit) := by
  refine .uniform (uniform_stored ty? value) fun kept hkept => ?_
  have hsame : kept = value := by
    have hrun : Evaluation.stored ty? value ⟨.empty, ""⟩ = .ok kept ⟨.empty, ""⟩ := by rw [hkept]; rfl
    cases value with
    | null =>
      cases ty? with
      | none => cases hrun; rfl
      | some ty =>
        simp only [Evaluation.stored] at hrun
        split at hrun <;> cases hrun
        rfl
    | _ => cases hrun; rfl
  rw [hsame]
  exact hvalue

theorem arithmetic (op : BinaryOp) (a b : Value) :
    Takes limit (Evaluator.lift (arithmetic op a b)) 0 (Value.Fits limit) := by
  refine .lift fun store hstore value after hrun => ?_
  cases a with
  | integer m =>
    cases b with
    | integer n =>
      rw [arithmetic_eq] at hrun
      cases hresult : compute? op m n with
      | none => rw [hresult] at hrun; cases hrun
      | some result =>
        rw [hresult] at hrun
        cases hrun
        exact ⟨trivial, hstore⟩
    | _ => cases hrun
  | _ => cases hrun

theorem asInteger (operation : Operation) (value : Value) :
    Takes limit (Evaluator.lift (Evaluation.asInteger operation value)) 0 fun _ => True :=
  .uniform (uniform_asInteger operation value) fun _ _ => trivial

theorem asBoolean (operation : Operation) (value : Value) :
    Takes limit (Evaluator.lift (Evaluation.asBoolean operation value)) 0 fun _ => True :=
  .uniform (uniform_asBoolean operation value) fun _ _ => trivial

/-- A function takes what is said for a call, whatever its parameters are bound to. -/
def CallsTake (limit call : Nat) (functions : Scope Definition) (invoke : Invoke Watch) : Prop :=
  ∀ name definition, functions.find? name = some definition → ∀ bound : Scope Value,
    bound.All (Value.Fits limit) → Takes limit (invoke definition bound) call (Value.Fits limit)

section Trees

mutual

theorem expression (hcalls : CallsTake limit call functions invoke) :
    (e : Expr Info) → e.marks.length ≤ limit →
    Takes limit (Evaluation.expression functions invoke e) (e.work call) (Value.Fits limit)
  | .identifier _ name, _ => by
    rw [Evaluation.expression, Expr.work]
    exact (load name).seeing
  | .integer .., _ | .string .., _ | .boolean .., _ | .null _, _ => by
    rw [Evaluation.expression, Expr.work]
    exact Takes.seeing (.pure trivial)
  | .list _ items, hmarks => by
    rw [Evaluation.expression, Expr.work]
    rw [Expr.marks, List.length_cons] at hmarks
    refine ((expressions hcalls items (by omega)).bind_free fun values hvalues => .pure ?_).seeing
    exact ⟨by omega, Value.fitsAll_iff.2 hvalues.2⟩
  | .parenthesized _ inner, hmarks => by
    rw [Evaluation.expression, Expr.work]
    rw [Expr.marks, List.length_cons] at hmarks
    exact (expression hcalls inner (by omega)).seeing
  | .unary _ op operand, hmarks => by
    rw [Evaluation.expression, Expr.work]
    rw [Expr.marks, List.length_cons] at hmarks
    refine ((expression hcalls operand (by omega)).bind_free fun value _ => ?_).seeing
    cases op with
    | negate =>
      exact (asInteger _ value).bind_free fun n _ => .pure trivial
    | not =>
      exact (asBoolean _ value).bind_free fun b _ => .pure trivial
  | .binary info op left right, hmarks => by
    rw [Evaluation.expression, Expr.work]
    rw [Expr.marks, List.length_cons, List.length_append] at hmarks
    refine ((expression hcalls left (by omega)).bind fun a _ =>
      (expression hcalls right (by omega)).bind_free fun b _ => ?_).seeing
    split
    · exact .pure trivial
    · exact arithmetic op a b
  | .comparison _ op left right, hmarks => by
    rw [Evaluation.expression, Expr.work]
    rw [Expr.marks, List.length_cons, List.length_append] at hmarks
    refine ((expression hcalls left (by omega)).bind fun a _ => ?_).seeing
    refine (asInteger _ a).free_bind fun m _ => ?_
    refine (expression hcalls right (by omega)).bind_free fun b _ => ?_
    exact (asInteger _ b).bind_free fun n _ => .pure trivial
  | .equality _ op left right, hmarks => by
    rw [Evaluation.expression, Expr.work]
    rw [Expr.marks, List.length_cons, List.length_append] at hmarks
    refine ((expression hcalls left (by omega)).bind fun a _ =>
      (expression hcalls right (by omega)).bind_free fun b _ => ?_).seeing
    cases op <;> exact .pure trivial
  | .call _ name args, hmarks => by
    rw [Evaluation.expression, Expr.work]
    rw [Expr.marks, List.length_cons] at hmarks
    refine Takes.seeing ?_
    cases hfind : functions.find? name with
    | none => exact (Takes.throw _).mono (Nat.zero_le _) fun _ h => h
    | some definition =>
      have hinvoke : Takes limit (do
          let bound ← Evaluation.arguments functions invoke definition.params args []
          invoke definition bound) (Expr.workAll call args + call) (Value.Fits limit) :=
        (arguments hcalls definition.params args (by omega) [] nofun).bind fun bound hbound =>
          hcalls name definition hfind bound hbound
      dsimp only
      split
      · exact Takes.free_bind (P := fun _ => False) (.throw _) fun _ h => h.elim
      · exact hinvoke
  | .broken _ text, _ => by
    rw [Evaluation.expression]
    exact (Takes.throw _).mono (Nat.zero_le _) fun _ h => h

theorem expressions (hcalls : CallsTake limit call functions invoke) :
    (items : List (Expr Info)) → (Expr.marksAll items).length ≤ limit →
    Takes limit (Evaluation.expressions functions invoke items) (Expr.workAll call items)
      fun values => values.length ≤ (Expr.marksAll items).length ∧
        ∀ value ∈ values, value.Fits limit
  | [], _ => by
    rw [Evaluation.expressions, Expr.workAll]
    exact .pure ⟨Nat.le_refl 0, nofun⟩
  | e :: rest, hmarks => by
    rw [Evaluation.expressions, Expr.workAll]
    rw [Expr.marksAll, List.length_append] at hmarks
    refine (expression hcalls e (by omega)).bind fun value hvalue =>
      (expressions hcalls rest (by omega)).bind_free fun values hvalues => .pure ?_
    refine ⟨?_, List.forall_mem_cons.2 ⟨hvalue, hvalues.2⟩⟩
    have hpositive : 0 < e.marks.length := by
      rw [List.length_pos_iff]
      intro hnil
      have hhead := e.head?_marks
      rw [hnil] at hhead
      cases hhead
    have hlength := hvalues.1
    rw [Expr.marksAll, List.length_append, List.length_cons]
    omega

theorem arguments (hcalls : CallsTake limit call functions invoke) :
    (params : List Parameter) → (args : List (Expr Info)) → (Expr.marksAll args).length ≤ limit →
    (bound : Scope Value) → bound.All (Value.Fits limit) →
    Takes limit (Evaluation.arguments functions invoke params args bound) (Expr.workAll call args)
      fun bound => bound.All (Value.Fits limit)
  | param :: params, arg :: args, hmarks, bound, hbound => by
    rw [Evaluation.arguments, Expr.workAll]
    rw [Expr.marksAll, List.length_append] at hmarks
    exact (expression hcalls arg (by omega)).bind fun value hvalue =>
      (stored (some param.ty) hvalue).free_bind fun kept hkept =>
        arguments hcalls params args (by omega) _ (hbound.bind param.name hkept)
  | [], args, _, bound, hbound => by
    have harguments : Evaluation.arguments functions invoke [] args bound = pure bound := by
      simp only [Evaluation.arguments]
    rw [harguments]
    exact (Takes.pure hbound).mono (Nat.zero_le _) fun _ h => h
  | param :: params, [], _, bound, hbound => by
    rw [show Evaluation.arguments functions invoke (param :: params) [] bound = pure bound by
      simp only [Evaluation.arguments]]
    exact (Takes.pure hbound).mono (Nat.zero_le _) fun _ h => h

end

variable (rule : LoopRule)

mutual

theorem statement (hcalls : CallsTake limit call functions invoke) :
    (s : Stmt Info) → s.marks.length ≤ limit →
    Takes limit (Evaluation.statement functions invoke rule s) (s.work limit call) (FlowFits limit)
  | .declaration info name _ value, hmarks => by
    rw [Evaluation.statement, Stmt.work]
    rw [Stmt.marks, List.length_cons] at hmarks
    refine (expression hcalls value (by omega)).bind_free fun value hvalue => ?_
    refine (stored info.ty hvalue).bind_free fun kept hkept => ?_
    exact (declare name hkept).bind_free fun _ _ => .pure trivial
  | .assignment info name value, hmarks => by
    rw [Evaluation.statement, Stmt.work]
    rw [Stmt.marks, List.length_cons] at hmarks
    refine (expression hcalls value (by omega)).bind_free fun value hvalue => ?_
    refine (stored info.ty hvalue).bind_free fun kept hkept => ?_
    exact (assign name hkept).bind_free fun _ _ => .pure trivial
  | .function .., _ => by
    rw [Evaluation.statement, Stmt.work]
    exact .pure trivial
  | .ifThen _ condition thenBody, hmarks => by
    rw [Evaluation.statement, Stmt.work]
    rw [Stmt.marks, List.length_cons, List.length_append] at hmarks
    refine (expression hcalls condition (by omega)).bind fun test _ => ?_
    refine (asBoolean _ test).free_bind fun holds _ => ?_
    split
    · exact (statements hcalls thenBody (by omega)).inScope
    · exact (Takes.pure trivial).mono (Nat.zero_le _) fun _ h => h
  | .ifThenElse _ condition thenBody elseBody, hmarks => by
    rw [Evaluation.statement, Stmt.work]
    rw [Stmt.marks, List.length_cons, List.length_append, List.length_append] at hmarks
    refine (expression hcalls condition (by omega)).bind fun test _ => ?_
    refine (asBoolean _ test).free_bind fun holds _ => ?_
    split
    · exact (statements hcalls thenBody (by omega)).inScope.mono (Nat.le_add_right _ _) fun _ h => h
    · exact (statements hcalls elseBody (by omega)).inScope.mono (Nat.le_add_left _ _) fun _ h => h
  | .loop info name iterable body, hmarks => by
    rw [Evaluation.statement, Stmt.work]
    rw [Stmt.marks, List.length_cons, List.length_append] at hmarks
    refine (expression hcalls iterable (by omega)).bind fun value hvalue => ?_
    cases value with
    | list items =>
      obtain ⟨hlength, hitems⟩ := hvalue
      refine (Takes.enclose (Takes.eachItem fun item hitem => ?_)).mono
        (Nat.mul_le_mul_right _ hlength) fun _ h => h
      exact (stored info.ty (Value.fitsAll_iff.1 hitems item hitem)).free_bind fun kept hkept =>
        (declare name hkept).free_bind fun _ _ => (statements hcalls body (by omega)).inScope
    | _ => exact (Takes.throw _).mono (Nat.zero_le _) fun _ h => h
  | .print _ value, hmarks => by
    rw [Evaluation.statement, Stmt.work]
    rw [Stmt.marks, List.length_cons] at hmarks
    exact (expression hcalls value (by omega)).bind_free fun value _ =>
      (print value).bind_free fun _ _ => .pure trivial
  | .call _ value, hmarks => by
    rw [Evaluation.statement, Stmt.work]
    rw [Stmt.marks, List.length_cons] at hmarks
    exact (expression hcalls value (by omega)).bind_free fun _ _ => .pure trivial
  | .returning _ none, _ => by
    rw [Evaluation.statement, Stmt.work]
    exact .pure trivial
  | .returning _ (some value), hmarks => by
    rw [Evaluation.statement, Stmt.work]
    rw [Stmt.marks, List.length_cons] at hmarks
    exact (expression hcalls value (by omega)).bind_free fun _ hvalue => .pure hvalue
  | .broken _ text, _ => by
    rw [Evaluation.statement, Stmt.work]
    exact .throw _
  | .bare value, hmarks => by
    rw [Evaluation.statement, Stmt.work]
    rw [Stmt.marks] at hmarks
    exact (expression hcalls value hmarks).bind_free fun _ _ => .pure trivial

theorem statements (hcalls : CallsTake limit call functions invoke) :
    (body : List (Stmt Info)) → (Stmt.marksAll body).length ≤ limit →
    Takes limit (Evaluation.statements functions invoke rule body) (Stmt.workAll limit call body)
      (FlowFits limit)
  | [], _ => by
    rw [Evaluation.statements, Stmt.workAll]
    exact .pure trivial
  | s :: rest, hmarks => by
    rw [Evaluation.statements, Stmt.workAll]
    rw [Stmt.marksAll, List.length_append] at hmarks
    refine (statement hcalls s (by omega)).bind fun flow hflow => ?_
    cases flow with
    | normal => exact statements hcalls rest (by omega)
    | returned value => exact (Takes.pure hflow).mono (Nat.zero_le _) fun _ h => h

end
end Trees

theorem marks_of_mem {s : Stmt Info} {body : List (Stmt Info)} (h : s ∈ body) :
    s.marks.length ≤ (Stmt.marksAll body).length := by
  induction body with
  | nil => cases h
  | cons first rest ih =>
    rw [Stmt.marksAll, List.length_append]
    rcases List.mem_cons.1 h with rfl | h
    · exact Nat.le_add_right _ _
    · exact Nat.le_trans (ih h) (Nat.le_add_left _ _)

/-- A function of a program has no more parts than the program. -/
theorem marks_of_definitions {body : List (Stmt Info)} {name : String} {definition : Definition}
    (h : (definitions [] body).find? name = some definition) :
    (Stmt.marksAll definition.body).length ≤ (Stmt.marksAll body).length := by
  obtain ⟨⟨info, hmem⟩, -⟩ := (definitions_find? h).resolve_left nofun
  refine Nat.le_trans ?_ (marks_of_mem hmem)
  rw [Stmt.marks, List.length_cons]
  exact Nat.le_succ _

theorem le_callWork {rounds room : Nat} {name : String} {definition : Definition}
    (h : functions.find? name = some definition) :
    Stmt.workAll rounds (callWork rounds functions room) definition.body ≤
      callWork rounds functions (room + 1) := by
  have hmost : ∀ (work : String × Definition → Nat) (entries : Scope Definition),
      (name, definition) ∈ entries →
      work (name, definition) ≤ entries.foldr (fun entry most => max (work entry) most) 0 := by
    intro work entries hmem
    induction entries with
    | nil => cases hmem
    | cons entry rest ih =>
      rw [List.foldr_cons]
      rcases List.mem_cons.1 hmem with rfl | hmem
      · exact Nat.le_max_left ..
      · exact Nat.le_trans (ih hmem) (Nat.le_max_right ..)
  rw [callWork]
  exact hmost (fun entry => Stmt.workAll rounds (callWork rounds functions room) entry.2.body)
    functions (Scope.mem_of_find? h)

/-- Each call that may nest in another one adds the work of the functions once more. -/
theorem invokeWithin (rule : LoopRule)
    (hmarks : ∀ name definition, functions.find? name = some definition →
      (Stmt.marksAll definition.body).length ≤ limit) (room : Nat) :
    CallsTake limit (callWork limit functions room) functions
      (Evaluation.invokeWithin rule functions room) := by
  induction room with
  | zero =>
    intro name definition _ bound _
    exact .throw _
  | succ room ih =>
    intro name definition hfind bound hbound
    have hbody := (statements rule ih definition.body (hmarks name definition hfind)).inCall hbound
    refine (hbody.bind_free fun flow hflow => ?_).mono (le_callWork hfind) fun _ h => h
    cases flow with
    | normal => exact .pure trivial
    | returned value => exact stored _ hflow

/-- A run of a program evaluates no more expressions than its text tells. -/
theorem program (rule : LoopRule) (p : Program Info) :
    Takes p.marks.length (Evaluation.program rule p) p.work fun _ => True := by
  cases p with
  | expression mark body =>
    have hmarks : body.marks.length ≤ (Program.expression mark body).marks.length := by
      rw [Program.marks, List.length_cons]
      exact Nat.le_succ _
    have hcalls : CallsTake (Program.expression mark body).marks.length _ [] _ :=
      invokeWithin rule (fun _ _ hfind => by cases hfind) maxCallDepth
    exact (expression hcalls body hmarks).bind_free fun value _ => print value
  | statements mark body =>
    have hmarks : (Stmt.marksAll body).length ≤ (Program.statements mark body).marks.length := by
      rw [Program.marks, List.length_cons]
      exact Nat.le_succ _
    have hcalls := invokeWithin rule
      (fun _ _ hfind => Nat.le_trans (marks_of_definitions hfind) hmarks) maxCallDepth
    exact (statements rule hcalls body hmarks).bind_free fun _ _ => .pure trivial

end Work
end CatScript
