import CatScript.Proofs.Evaluation.Lexical
import CatScript.Proofs.Evaluation.Steps
import CatScript.Proofs.Typing.Functions

/-! # Type soundness of evaluation

Where scopes follow the text, the value of a well-typed expression is one of its type
(`Soundness.expression`), a function gives a value of its return type (`Soundness.invokeWithin`),
and a well-typed program only ever fails as values of the right types can fail
(`Soundness.program`).  All this holds of every value that is observed on the way. -/
set_option autoImplicit false
namespace CatScript

/-- How values of the right types can fail; variables may be missing unless they are `complete`. -/
def EvalError.Expected (complete : Prop) : EvalError → Prop
  | .divisionByZero | .nullReference => True
  | .callDepthExceeded limit => limit = Evaluation.maxCallDepth
  | .notIterable got => got = .null
  | .undefinedVariable _ => ¬complete
  | _ => False

namespace Soundness
open Typing Watch

variable (top : TopLevel)

/-- A value of a type, and scopes that follow the nested types. -/
def Yields (nested : List (Scope Ty)) (ty : Ty) (value : Value) (scopes : Scopes Value) : Prop :=
  ty.admits value = true ∧ Lexical top nested scopes

def Fails (nested : List (Scope Ty)) (cause : EvalError) (scopes : Scopes Value) : Prop :=
  cause.Expected top.complete ∧ Lexical top nested scopes

/-- The scopes follow nested types that differ from `nested` in the innermost scope at most. -/
def LexicalBeside (nested : List (Scope Ty)) (scopes : Scopes Value) : Prop :=
  ∃ beside : List (Scope Ty), beside.tail = nested.tail ∧ beside.length = nested.length ∧
    Lexical top beside scopes

def FailsBeside (nested : List (Scope Ty)) (cause : EvalError) (scopes : Scopes Value) : Prop :=
  cause.Expected top.complete ∧ LexicalBeside top nested scopes

def Returned (returns : Option Ty) (value : Value) : Prop :=
  ∃ ty source, returns = some ty ∧ ty.accepts source = true ∧
    (source.admits value = true ∨ value = .null)

def Returns (returns : Option Ty) (nested : List (Scope Ty)) (value : Value)
    (scopes : Scopes Value) : Prop :=
  Returned returns value ∧ LexicalBeside top nested scopes

def SoundCalls (table : Scope Signature) (invoke : Invoke Watch) : Prop :=
  ∀ definition signature, definition.WellTyped top.types table signature →
    ∀ (nested : List (Scope Ty)) (bound : Scope Value) (store : Store),
      Inhabited bound (parameterScope definition.params) →
      Lexical top nested store.scopes →
      Ensures (invoke definition bound) store
        (Yields top nested signature.returns) (Fails top nested)

variable {top} {table : Scope Signature} {functions : Scope Definition}
  {invoke : Invoke Watch}

theorem lexical_beside {nested : List (Scope Ty)} {scopes : Scopes Value}
    (h : Lexical top nested scopes) : LexicalBeside top nested scopes :=
  ⟨nested, rfl, rfl, h⟩

theorem seeing {e : Expr Info} {ty : Ty} {m : Watch Value} {store : Store}
    {nested : List (Scope Ty)} (hmark : e.mark.ty = some ty)
    (h : Ensures m store (Yields top nested ty) (Fails top nested)) :
    Ensures (Evaluator.seeing e m) store (Yields top nested ty) (Fails top nested) := by
  refine h.seeing fun _ _ hvalue => ?_
  exact ⟨⟨ty, hmark, hvalue.1⟩, hvalue⟩

theorem load {Γ : Symbols} {info : Info} {name : String} {ty : Ty} {store : Store}
    (hmark : info.ty = some ty) (hty : Γ.typeOf? name = some ty)
    (hglobals : Scope.Sub Γ.scopes.outermost top.types)
    (hlexical : Lexical top Γ.scopes.nested store.scopes) :
    Ensures (Evaluator.seeing (.identifier info name) (Evaluator.lift (Evaluation.load name))) store
      (Yields top Γ.scopes.nested ty) (Fails top Γ.scopes.nested) := by
  have hload : Ensures (Evaluator.lift (Evaluation.load name)) store
      (fun value scopes => store.scopes.find? name = some value ∧
        Lexical top Γ.scopes.nested scopes)
      (Fails top Γ.scopes.nested) := by
    refine .lift ?_
    rw [Evaluation.load_eq]
    cases hfind : store.scopes.find? name with
    | some value => exact ⟨rfl, hlexical⟩
    | none => exact ⟨hlexical.missing hglobals hty hfind, hlexical⟩
  refine hload.seeing fun value scopes ⟨hfind, hscopes⟩ => ?_
  have hadmits := hlexical.found hglobals hty hfind
  exact ⟨⟨ty, hmark, hadmits⟩, hadmits, hscopes⟩

theorem stored {target source : Ty} (haccepts : target.accepts source = true) {value : Value}
    {nested : List (Scope Ty)} {store : Store}
    (hvalue : source.admits value = true ∨ value = .null)
    (hlexical : Lexical top nested store.scopes) :
    Ensures (Evaluator.lift (Evaluation.stored (some target) value)) store
      (Yields top nested target) (Fails top nested) := by
  refine .lift ?_
  rcases Evaluation.stored_eq haccepts hvalue store with ⟨hstored, hadmits⟩ | ⟨-, -, hstored⟩
  · rw [hstored]; exact ⟨hadmits, hlexical⟩
  · rw [hstored]; exact ⟨trivial, hlexical⟩

theorem arithmetic {op : BinaryOp} {a b : Value} {nested : List (Scope Ty)} {store : Store}
    (ha : Ty.int.admits a = true) (hb : Ty.int.admits b = true)
    (hlexical : Lexical top nested store.scopes) :
    Ensures (Evaluator.lift (Evaluation.arithmetic op a b)) store
      (Yields top nested .int) (Fails top nested) := by
  obtain ⟨m, rfl⟩ := Ty.admits_int ha
  obtain ⟨n, rfl⟩ := Ty.admits_int hb
  refine .lift ?_
  rw [Evaluation.arithmetic_eq]
  cases Evaluation.compute? op m n with
  | some result => exact ⟨rfl, hlexical⟩
  | none => exact ⟨trivial, hlexical⟩

theorem lexicalBeside_congr {a b : List (Scope Ty)} (htail : a.tail = b.tail)
    (hlength : a.length = b.length) : LexicalBeside top a = LexicalBeside top b := by
  unfold LexicalBeside
  rw [htail, hlength]

theorem pop_beside {scope : Scope Ty} {nested : List (Scope Ty)} {scopes : Scopes Value}
    (h : LexicalBeside top (scope :: nested) scopes) : Lexical top nested scopes.pop := by
  obtain ⟨beside, htail, hlength, hlexical⟩ := h
  cases beside with
  | nil => cases hlength
  | cons first rest => cases htail; exact hlexical.pop

theorem beside {α : Type} {m : Watch α} {store : Store} {post : α → Scopes Value → Prop}
    {nested : List (Scope Ty)} (h : Ensures m store post (Fails top nested)) :
    Ensures m store post (FailsBeside top nested) := by
  refine h.mono (fun _ _ hpost => hpost) fun _ _ hfail => ?_
  exact ⟨hfail.1, lexical_beside hfail.2⟩

theorem inScope {m : Watch Flow} {store : Store} {returns : Option Ty} {scope : Scope Ty}
    {nested : List (Scope Ty)} {inner outer : Scopes Value → Prop}
    (hpop : ∀ scopes, inner scopes → outer scopes.pop)
    (h : Ensures m (store.onScopes Scopes.push)
      (FlowPost inner (Returns top returns (scope :: nested)))
      (FailsBeside top (scope :: nested))) :
    Ensures (Evaluator.inScope m) store
      (FlowPost outer (Returns top returns nested)) (FailsBeside top nested) := by
  refine .inScope (h.mono (fun flow scopes hflow => ?_) fun cause scopes hfail => ?_)
  · cases flow with
    | normal => exact hpop scopes hflow
    | returned value => exact ⟨hflow.1, lexical_beside (pop_beside hflow.2)⟩
  · exact ⟨hfail.1, lexical_beside (pop_beside hfail.2)⟩

/-- A block keeps the scopes around it lexical when the statements in it do what they should. -/
theorem block {body : List (Stmt Info)} {Γ after : Symbols} {m : Watch Flow} {store : Store}
    {returns : Option Ty} {missing : Prop} (hbody : ChecksAll returns Γ.enter body after)
    (hmissing : alwaysReturns body = false → missing)
    (h : Ensures m (store.onScopes Scopes.push)
      (FlowPost (fun scopes => alwaysReturns body = false ∧
          Lexical top after.scopes.nested scopes)
        (Returns top returns ([] :: Γ.scopes.nested)))
      (FailsBeside top ([] :: Γ.scopes.nested))) :
    Ensures (Evaluator.inScope m) store
      (FlowPost (fun scopes => missing ∧ Lexical top Γ.scopes.nested scopes)
        (Returns top returns Γ.scopes.nested))
      (FailsBeside top Γ.scopes.nested) := by
  exact inScope (fun scopes hinner => ⟨hmissing hinner.1,
    pop_beside ⟨_, hbody.grows.tail, hbody.grows.length, hinner.2⟩⟩) h

/-- A round of a loop leaves nothing but the variable of the loop in the scope of that. -/
theorem round {body : List (Stmt Info)} {symbols after : Symbols} {m : Watch Flow} {store : Store}
    {name : String} {ty : Ty} {returns : Option Ty} {scope : Scope Ty} {item : Value}
    (hbody : ChecksAll returns (symbols.enter.declare name ty).enter body after)
    (hscope : scope.bind name ty = [(name, ty)]) (hitem : item = .null ∨ ty.admits item = true)
    (hlexical : Lexical top (scope :: symbols.scopes.nested) store.scopes)
    (h : ∀ store, Lexical top ([] :: [(name, ty)] :: symbols.scopes.nested) store.scopes →
      Ensures m store
        (FlowPost (fun scopes => alwaysReturns body = false ∧
            Lexical top after.scopes.nested scopes)
          (Returns top returns ([] :: [(name, ty)] :: symbols.scopes.nested)))
        (FailsBeside top ([] :: [(name, ty)] :: symbols.scopes.nested))) :
    Ensures (do
        let item ← Evaluator.lift (Evaluation.stored (some ty) item)
        Evaluator.lift (Evaluation.declare name item)
        Evaluator.inScope m) store
      (FlowPost (Lexical top ([(name, ty)] :: symbols.scopes.nested))
        (Returns top returns ([(name, ty)] :: symbols.scopes.nested)))
      (FailsBeside top ([(name, ty)] :: symbols.scopes.nested)) := by
  have hstored := stored (Ty.accepts_self ty) hitem.symm hlexical
  refine .bind (hstored.mono (fun _ _ h => h)
    fun cause scopes hfail => ⟨hfail.1, scope :: _, rfl, rfl, hfail.2⟩) ?_
  intro kept middle ⟨hkept, hmiddle⟩
  have hdeclared : Lexical top _ (middle.scopes.declare name kept) := Lexical.declare
    (Γ := ⟨⟨[], scope :: symbols.scopes.nested⟩, []⟩) hmiddle
    (fun _ _ h => (nomatch h)) hkept
  refine .bind (P := fun _ after => Lexical top ([(name, ty)] :: symbols.scopes.nested) after)
    (.lift ?_) fun _ middle hmiddle => ?_
  · rw [← hscope]; exact hdeclared
  · refine (block (Γ := ⟨⟨symbols.scopes.outermost, [(name, ty)] :: symbols.scopes.nested⟩,
      symbols.functions⟩) hbody (show _ → True from fun _ => trivial)
      (h _ hmiddle.push)).mono (fun flow scopes hflow => ?_) fun _ _ hfail => hfail
    cases flow with
    | normal => exact hflow.2
    | returned value => exact hflow

theorem loop (returns : Option Ty) (name : String) {act : Value → Watch Flow}
    {items : List Value} {store : Store} {ty : Ty} {nested : List (Scope Ty)}
    (hitems : ∀ item ∈ items, item = .null ∨ ty.admits item = true)
    (hact : ∀ item, item = .null ∨ ty.admits item = true → ∀ (scope : Scope Ty) (store : Store),
      scope.bind name ty = [(name, ty)] → Lexical top (scope :: nested) store.scopes →
      Ensures (act item) store
        (FlowPost (Lexical top ([(name, ty)] :: nested))
          (Returns top returns ([(name, ty)] :: nested)))
        (FailsBeside top ([(name, ty)] :: nested)))
    (hlexical : Lexical top nested store.scopes) :
    Ensures (LoopRule.own.enclose (Evaluation.eachItem act items)) store
      (FlowPost (fun after => Lexical top nested after)
        (Returns top returns nested))
      (FailsBeside top nested) := by
  have heach : ∀ store : Store, Lexical top ([] :: nested) store.scopes →
      Ensures (Evaluation.eachItem act items) store
        (FlowPost (fun scopes => ∃ scope : Scope Ty, scope.bind name ty = [(name, ty)] ∧
            Lexical top (scope :: nested) scopes)
          (Returns top returns ([(name, ty)] :: nested)))
        (FailsBeside top ([(name, ty)] :: nested)) := by
    intro store hlexical
    refine .eachItem (fun item hitem store hkeep => ?_) ⟨[], rfl, hlexical⟩
    obtain ⟨scope, hscope, hlexical⟩ := hkeep
    refine (hact item (hitems item hitem) scope store hscope hlexical).mono
      (fun flow scopes hflow => ?_) fun _ _ hfail => hfail
    cases flow with
    | normal => exact ⟨[(name, ty)], by simp [Scope.bind], hflow⟩
    | returned value => exact hflow
  refine inScope (fun scopes hinner => ?_) (heach _ hlexical.push)
  obtain ⟨scope, -, hscope⟩ := hinner
  exact hscope.pop

section Trees

section Expressions

variable (top) in
/-- Well-typed, the expression has a value of its type or fails as expected. -/
def SoundExpression (table : Scope Signature) (functions : Scope Definition)
    (invoke : Invoke Watch) (e : Expr Info) : Prop :=
  ∀ ⦃scopes : Scopes Ty⦄, Scope.Sub scopes.outermost top.types →
    ∀ ⦃ty : Ty⦄, HasType ⟨scopes, table⟩ e ty →
      ∀ ⦃store : Store⦄, Lexical top scopes.nested store.scopes →
        Ensures (Evaluation.expression functions invoke e) store
          (Yields top scopes.nested ty) (Fails top scopes.nested)

variable (top) in
def SoundItems (table : Scope Signature) (functions : Scope Definition)
    (invoke : Invoke Watch) (items : List (Expr Info)) : Prop :=
  ∀ ⦃scopes : Scopes Ty⦄, Scope.Sub scopes.outermost top.types →
    ∀ ⦃component : Ty⦄, ItemsFit ⟨scopes, table⟩ items component →
      ∀ ⦃store : Store⦄, Lexical top scopes.nested store.scopes →
        Ensures (Evaluation.expressions functions invoke items) store
          (fun values after =>
            (∀ value ∈ values, value = .null ∨ component.admits value = true) ∧
              Lexical top scopes.nested after)
          (Fails top scopes.nested)

variable (top) in
def SoundArguments (table : Scope Signature) (functions : Scope Definition)
    (invoke : Invoke Watch) (args : List (Expr Info)) : Prop :=
  ∀ ⦃scopes : Scopes Ty⦄, Scope.Sub scopes.outermost top.types →
    ∀ ⦃params : List Parameter⦄, ArgsFit ⟨scopes, table⟩ args (params.map Parameter.ty) →
      ∀ ⦃bound : Scope Value⦄ ⦃types : Scope Ty⦄, Inhabited bound types →
        ∀ ⦃store : Store⦄, Lexical top scopes.nested store.scopes →
          Ensures (Evaluation.arguments functions invoke params args bound) store
            (fun bound after =>
              Inhabited bound
                (params.foldl (fun scope param => scope.bind param.name param.ty) types) ∧
              Lexical top scopes.nested after)
            (Fails top scopes.nested)

theorem asInteger {operation : Operation} {value : Value} {nested : List (Scope Ty)}
    {store : Store} (hvalue : Ty.int.admits value = true)
    (hlexical : Lexical top nested store.scopes) :
    Ensures (Evaluator.lift (Evaluation.asInteger operation value)) store
      (fun _ after => Lexical top nested after) (Fails top nested) := by
  obtain ⟨n, rfl⟩ := Ty.admits_int hvalue
  exact .lift hlexical

theorem asBoolean {operation : Operation} {value : Value} {nested : List (Scope Ty)}
    {store : Store} (hvalue : Ty.boolean.admits value = true)
    (hlexical : Lexical top nested store.scopes) :
    Ensures (Evaluator.lift (Evaluation.asBoolean operation value)) store
      (fun _ after => Lexical top nested after) (Fails top nested) := by
  obtain ⟨b, rfl⟩ := Ty.admits_boolean hvalue
  exact .lift hlexical

namespace SoundExpression
variable {e left right : Expr Info} {info : Info}

theorem identifier {name : String} :
    SoundExpression top table functions invoke (.identifier info name) := by
  intro scopes hglobals ty htype store hlexical
  cases htype with
  | identifier hmark hty _ =>
    rw [Evaluation.expression]
    exact load (Γ := ⟨scopes, table⟩) hmark hty hglobals hlexical

theorem literal {value : Value} (hrun : Evaluation.expression functions invoke e =
      Evaluator.seeing e (pure value))
    (h : ∀ symbols ty, HasType symbols e ty → ty.admits value = true) :
    SoundExpression top table functions invoke e := by
  intro scopes hglobals ty htype store hlexical
  rw [hrun]
  exact seeing htype.mark (.pure ⟨h _ ty htype, hlexical⟩)

theorem list {items : List (Expr Info)}
    (hitems : SoundItems top table functions invoke items) :
    SoundExpression top table functions invoke (.list info items) := by
  intro scopes hglobals ty htype store hlexical
  cases htype with
  | list hmark _ hfit =>
    rw [Evaluation.expression]
    refine seeing hmark (.bind (hitems hglobals hfit hlexical) ?_)
    intro values after ⟨hvalues, hafter⟩
    exact .pure ⟨Ty.list_admits hvalues, hafter⟩

theorem parenthesized (he : SoundExpression top table functions invoke e) :
    SoundExpression top table functions invoke (.parenthesized info e) := by
  intro scopes hglobals ty htype store hlexical
  cases htype with
  | parenthesized hmark hinner =>
    rw [Evaluation.expression]
    exact seeing hmark (he hglobals hinner hlexical)

theorem unary {op : UnaryOp} (he : SoundExpression top table functions invoke e) :
    SoundExpression top table functions invoke (.unary info op e) := by
  intro scopes hglobals ty htype store hlexical
  cases htype with
  | unary hmark hoperand =>
    rw [Evaluation.expression]
    refine seeing hmark (.bind (he hglobals hoperand hlexical) ?_)
    intro value after ⟨hvalue, hafter⟩
    cases op with
    | negate => exact .bind (asInteger hvalue hafter) fun _ _ hafter => .pure ⟨rfl, hafter⟩
    | not => exact .bind (asBoolean hvalue hafter) fun _ _ hafter => .pure ⟨rfl, hafter⟩

theorem binary {op : BinaryOp} (hleft : SoundExpression top table functions invoke left)
    (hright : SoundExpression top table functions invoke right) :
    SoundExpression top table functions invoke (.binary info op left right) := by
  intro scopes hglobals ty htype store hlexical
  rw [Evaluation.expression]
  cases htype with
  | concat hmark ha hb _ _ =>
    refine seeing hmark (.bind (hleft hglobals ha hlexical) ?_)
    intro a middle ⟨_, hmiddle⟩
    refine .bind (hright hglobals hb hmiddle) ?_
    intro b after ⟨_, hafter⟩
    rw [if_pos ⟨rfl, hmark⟩]
    exact .pure ⟨rfl, hafter⟩
  | arithmetic hmark ha hb =>
    refine seeing hmark (.bind (hleft hglobals ha hlexical) ?_)
    intro a middle ⟨ha, hmiddle⟩
    refine .bind (hright hglobals hb hmiddle) ?_
    intro b after ⟨hb, hafter⟩
    rw [if_neg (by rw [hmark]; simp)]
    exact arithmetic ha hb hafter

theorem comparison {op : ComparisonOp}
    (hleft : SoundExpression top table functions invoke left)
    (hright : SoundExpression top table functions invoke right) :
    SoundExpression top table functions invoke (.comparison info op left right) := by
  intro scopes hglobals ty htype store hlexical
  cases htype with
  | comparison hmark ha hb =>
    rw [Evaluation.expression]
    refine seeing hmark (.bind (hleft hglobals ha hlexical) ?_)
    intro a middle ⟨ha, hmiddle⟩
    refine .bind (asInteger ha hmiddle) ?_
    intro m middle hmiddle
    refine .bind (hright hglobals hb hmiddle) ?_
    intro b after ⟨hb, hafter⟩
    exact .bind (asInteger hb hafter) fun _ _ hafter => .pure ⟨rfl, hafter⟩

theorem equality {op : EqualityOp}
    (hleft : SoundExpression top table functions invoke left)
    (hright : SoundExpression top table functions invoke right) :
    SoundExpression top table functions invoke (.equality info op left right) := by
  intro scopes hglobals ty htype store hlexical
  cases htype with
  | equality hmark ha hb _ _ =>
    rw [Evaluation.expression]
    refine seeing hmark (.bind (hleft hglobals ha hlexical) ?_)
    intro a middle ⟨_, hmiddle⟩
    refine .bind (hright hglobals hb hmiddle) ?_
    intro b after ⟨_, hafter⟩
    cases op <;> exact .pure ⟨rfl, hafter⟩

theorem call {name : String} {args : List (Expr Info)}
    (hdefined : WellDefined top.types table functions)
    (hcalls : SoundCalls top table invoke)
    (hargs : SoundArguments top table functions invoke args) :
    SoundExpression top table functions invoke (.call info name args) := by
  intro scopes hglobals ty htype store hlexical
  cases htype with
  | @call _ _ _ signature hmark hfunction hfit =>
    obtain ⟨definition, hfind, hdefinition⟩ := hdefined name signature hfunction
    rw [hdefinition.params] at hfit
    have hlength : definition.params.length = args.length := by
      rw [hfit.length, List.length_map]
    rw [Evaluation.expression, hfind]
    refine seeing hmark ?_
    dsimp only
    rw [if_neg (fun h => h hlength)]
    refine .bind (hargs hglobals hfit .nil hlexical) ?_
    intro bound after ⟨hbound, hafter⟩
    exact hcalls definition signature hdefinition scopes.nested bound after hbound hafter

end SoundExpression

theorem SoundItems.nil : SoundItems top table functions invoke [] := by
  intro scopes hglobals component _ store hlexical
  rw [Evaluation.expressions]
  exact .pure ⟨fun _ h => absurd h List.not_mem_nil, hlexical⟩

theorem SoundItems.cons {e : Expr Info} {rest : List (Expr Info)}
    (he : SoundExpression top table functions invoke e)
    (hrest : SoundItems top table functions invoke rest) :
    SoundItems top table functions invoke (e :: rest) := by
  intro scopes hglobals component hfit store hlexical
  cases hfit with
  | cons htype _ haccepts hfit =>
    rw [Evaluation.expressions]
    refine .bind (he hglobals htype hlexical) ?_
    intro value middle ⟨hvalue, hmiddle⟩
    refine .bind (hrest hglobals hfit hmiddle) ?_
    intro values after ⟨hvalues, hafter⟩
    refine .pure ⟨fun other hother => ?_, hafter⟩
    rcases List.mem_cons.1 hother with rfl | hother
    · exact Ty.admits_of_accepts haccepts hvalue
    · exact hvalues other hother

theorem SoundArguments.nil : SoundArguments top table functions invoke [] := by
  intro scopes hglobals params hfit bound types hbound store hlexical
  cases params with
  | nil =>
    rw [Evaluation.arguments.eq_def]
    exact .pure ⟨hbound, hlexical⟩
  | cons param params => cases hfit

theorem SoundArguments.cons {arg : Expr Info} {args : List (Expr Info)}
    (harg : SoundExpression top table functions invoke arg)
    (hargs : SoundArguments top table functions invoke args) :
    SoundArguments top table functions invoke (arg :: args) := by
  intro scopes hglobals params hfit bound types hbound store hlexical
  cases params with
  | nil => cases hfit
  | cons param params =>
    cases hfit with
    | cons htype _ haccepts hfit =>
      rw [Evaluation.arguments]
      refine .bind (harg hglobals htype hlexical) ?_
      intro value middle ⟨hvalue, hmiddle⟩
      refine .bind (stored haccepts (.inl hvalue) hmiddle) ?_
      intro kept middle ⟨hkept, hmiddle⟩
      exact hargs hglobals hfit (hbound.bind param.name hkept) hmiddle

mutual

theorem expression (hdefined : WellDefined top.types table functions)
    (hcalls : SoundCalls top table invoke) :
    (e : Expr Info) → SoundExpression top table functions invoke e
  | .identifier .. => .identifier
  | .integer .. => .literal (by rw [Evaluation.expression]) fun _ _ htype => by cases htype; rfl
  | .string .. => .literal (by rw [Evaluation.expression]) fun _ _ htype => by cases htype; rfl
  | .boolean .. => .literal (by rw [Evaluation.expression]) fun _ _ htype => by cases htype; rfl
  | .null _ => .literal (by rw [Evaluation.expression]) fun _ _ htype => by cases htype; rfl
  | .list _ items => .list (expressions hdefined hcalls items)
  | .parenthesized _ e => .parenthesized (expression hdefined hcalls e)
  | .unary _ _ e => .unary (expression hdefined hcalls e)
  | .binary _ _ left right =>
    .binary (expression hdefined hcalls left) (expression hdefined hcalls right)
  | .comparison _ _ left right =>
    .comparison (expression hdefined hcalls left) (expression hdefined hcalls right)
  | .equality _ _ left right =>
    .equality (expression hdefined hcalls left) (expression hdefined hcalls right)
  | .call _ _ args => .call hdefined hcalls (arguments hdefined hcalls args)
  | .broken .. => fun _ _ _ htype => by cases htype

theorem expressions (hdefined : WellDefined top.types table functions)
    (hcalls : SoundCalls top table invoke) :
    (items : List (Expr Info)) → SoundItems top table functions invoke items
  | [] => .nil
  | e :: rest => .cons (expression hdefined hcalls e) (expressions hdefined hcalls rest)

theorem arguments (hdefined : WellDefined top.types table functions)
    (hcalls : SoundCalls top table invoke) :
    (args : List (Expr Info)) → SoundArguments top table functions invoke args
  | [] => .nil
  | arg :: args => .cons (expression hdefined hcalls arg) (arguments hdefined hcalls args)

end
end Expressions

section Statements

variable (top) in
/-- Well-typed, the statement keeps scopes lexical, and what it returns is of the return type. -/
def SoundStatement (table : Scope Signature) (functions : Scope Definition)
    (invoke : Invoke Watch) (returns : Option Ty) (s : Stmt Info) : Prop :=
  ∀ ⦃scopes : Scopes Ty⦄ ⦃symbols : Symbols⦄, Checks returns ⟨scopes, table⟩ s symbols →
    Scope.Sub symbols.scopes.outermost top.types →
      ∀ ⦃store : Store⦄, Lexical top scopes.nested store.scopes →
        Ensures (Evaluation.statement functions invoke .own s) store
          (FlowPost (fun after => Typing.returns s = false ∧
              Lexical top symbols.scopes.nested after)
            (Returns top returns scopes.nested))
          (FailsBeside top scopes.nested)

variable (top) in
def SoundStatements (table : Scope Signature) (functions : Scope Definition)
    (invoke : Invoke Watch) (returns : Option Ty) (body : List (Stmt Info)) : Prop :=
  ∀ ⦃scopes : Scopes Ty⦄ ⦃symbols : Symbols⦄, ChecksAll returns ⟨scopes, table⟩ body symbols →
    Scope.Sub symbols.scopes.outermost top.types →
      ∀ ⦃store : Store⦄, Lexical top scopes.nested store.scopes →
        Ensures (Evaluation.statements functions invoke .own body) store
          (FlowPost (fun after => Typing.alwaysReturns body = false ∧
              Lexical top symbols.scopes.nested after)
            (Returns top returns scopes.nested))
          (FailsBeside top scopes.nested)

variable {returns : Option Ty} {info : Info} {e : Expr Info} {body other : List (Stmt Info)}
  {scopes : Scopes Ty} {store : Store}

theorem kept (he : SoundExpression top table functions invoke e) {ty : Ty}
    (hfits : Fits ⟨scopes, table⟩ e ty) (hglobals : Scope.Sub scopes.outermost top.types)
    (hlexical : Lexical top scopes.nested store.scopes) {m : Value → Watch Flow}
    {post : Flow → Scopes Value → Prop}
    (h : ∀ value (middle : Store), Yields top scopes.nested ty value middle.scopes →
      Ensures (m value) middle post (FailsBeside top scopes.nested)) :
    Ensures (do
        let value ← Evaluation.expression functions invoke e
        let value ← Evaluator.lift (Evaluation.stored (some ty) value)
        m value)
      store post (FailsBeside top scopes.nested) := by
  obtain ⟨source, hsource, -, haccepts⟩ := hfits
  refine .bind (beside (he hglobals hsource hlexical)) ?_
  intro value middle ⟨hadmits, hmiddle⟩
  exact .bind (beside (stored haccepts (.inl hadmits) hmiddle)) h

theorem taken (hbody : SoundStatements top table functions invoke returns body)
    {after : Symbols} (hchecks : ChecksAll returns ⟨scopes.push, table⟩ body after)
    (hglobals : Scope.Sub scopes.outermost top.types) {missing : Prop}
    (hmissing : alwaysReturns body = false → missing)
    (hlexical : Lexical top scopes.nested store.scopes) :
    Ensures (Evaluator.inScope (Evaluation.statements functions invoke .own body)) store
      (FlowPost (fun after => missing ∧ Lexical top scopes.nested after)
        (Returns top returns scopes.nested))
      (FailsBeside top scopes.nested) := by
  have hsub := hchecks.grows.sub (List.cons_ne_nil _ _) hglobals
  exact block (Γ := ⟨scopes, table⟩) hchecks hmissing (hbody hchecks hsub hlexical.push)

theorem decided (he : SoundExpression top table functions invoke e)
    (htype : HasType ⟨scopes, table⟩ e .boolean)
    (hglobals : Scope.Sub scopes.outermost top.types)
    (hlexical : Lexical top scopes.nested store.scopes) {m n : Watch Flow}
    {post : Flow → Scopes Value → Prop}
    (hthen : ∀ middle : Store, Lexical top scopes.nested middle.scopes →
      Ensures m middle post (FailsBeside top scopes.nested))
    (helse : ∀ middle : Store, Lexical top scopes.nested middle.scopes →
      Ensures n middle post (FailsBeside top scopes.nested)) :
    Ensures (do
        let test ← Evaluation.expression functions invoke e
        if ← Evaluator.lift (Evaluation.asBoolean .condition test) then m else n)
      store post (FailsBeside top scopes.nested) := by
  refine .bind (beside (he hglobals htype hlexical)) ?_
  intro test middle ⟨htest, hmiddle⟩
  refine .bind (beside (asBoolean htest hmiddle)) ?_
  intro b middle hmiddle
  cases b with
  | false => exact helse middle hmiddle
  | true => exact hthen middle hmiddle

namespace SoundStatement

theorem declaration {name : String} {declared : Option Ty}
    (he : SoundExpression top table functions invoke e) :
    SoundStatement top table functions invoke returns
      (.declaration info name declared e) := by
  intro scopes symbols hchecks hglobals store hlexical
  cases hchecks with
  | declaration hmark hfresh _ hvalue =>
    have hbefore := (grows_declare hfresh _).outermost.trans hglobals
    rw [Evaluation.statement, hmark]
    refine kept he hvalue hbefore hlexical ?_
    intro value middle ⟨hkept, hmiddle⟩
    refine .bind (P := fun _ after => Lexical top _ after)
      (.lift (.declare (Γ := ⟨scopes, table⟩) hmiddle hglobals hkept)) ?_
    exact fun _ after hafter => .pure ⟨rfl, hafter⟩

theorem assignment {name : String} (he : SoundExpression top table functions invoke e) :
    SoundStatement top table functions invoke returns (.assignment info name e) := by
  intro scopes symbols hchecks hglobals store hlexical
  cases hchecks with
  | assignment hmark hty _ hvalue =>
    rw [Evaluation.statement, hmark]
    refine kept he hvalue hglobals hlexical ?_
    intro value middle ⟨hkept, hmiddle⟩
    refine .bind (P := fun _ after => Lexical top scopes.nested after) (.lift ?_) ?_
    · rw [Evaluation.assign_eq]
      cases hassign : middle.scopes.assign? name value with
      | some after =>
        exact .assign (Γ := ⟨scopes, table⟩) hmiddle hglobals hty hkept hassign
      | none =>
        refine ⟨Lexical.missing (Γ := ⟨scopes, table⟩) hmiddle hglobals hty ?_,
          lexical_beside hmiddle⟩
        exact Scopes.find?_of_assign?_none hassign
    · exact fun _ after hafter => .pure ⟨rfl, hafter⟩

theorem function {name : String} {params : List Parameter} {result : Ty} :
    SoundStatement top table functions invoke returns
      (.function info name params result body) := by
  intro scopes symbols hchecks hglobals store hlexical
  cases hchecks with
  | function =>
    rw [Evaluation.statement]
    exact .pure ⟨rfl, hlexical⟩

theorem ifThen (he : SoundExpression top table functions invoke e)
    (hbody : SoundStatements top table functions invoke returns body) :
    SoundStatement top table functions invoke returns (.ifThen info e body) := by
  intro scopes symbols hchecks hglobals store hlexical
  cases hchecks with
  | ifThen hcondition hthen =>
    rw [Evaluation.statement]
    refine decided he hcondition hglobals hlexical ?_ ?_
    · exact fun middle hmiddle => taken hbody hthen hglobals (fun _ => rfl) hmiddle
    · exact fun middle hmiddle => .pure ⟨rfl, hmiddle⟩

theorem ifThenElse (he : SoundExpression top table functions invoke e)
    (hbody : SoundStatements top table functions invoke returns body)
    (hother : SoundStatements top table functions invoke returns other) :
    SoundStatement top table functions invoke returns (.ifThenElse info e body other) := by
  intro scopes symbols hchecks hglobals store hlexical
  cases hchecks with
  | ifThenElse hcondition hthen helse =>
    rw [Evaluation.statement]
    -- It always returns only if both branches do, so either of them may show that it does not.
    refine decided he hcondition hglobals hlexical ?_ ?_
    · exact fun middle hmiddle => taken hbody hthen hglobals
        (fun hmissing => by rw [Typing.returns, hmissing, Bool.false_and]) hmiddle
    · exact fun middle hmiddle => taken hother helse hglobals
        (fun hmissing => by rw [Typing.returns, hmissing, Bool.and_false]) hmiddle

theorem loop {name : String} (he : SoundExpression top table functions invoke e)
    (hbody : SoundStatements top table functions invoke returns body) :
    SoundStatement top table functions invoke returns (.loop info name e body) := by
  intro scopes symbols hchecks hglobals store hlexical
  cases hchecks with
  | @loop _ _ _ _ _ _ _ ty hmark hiterable _ hchecks =>
    rw [Evaluation.statement]
    refine .bind (beside (he hglobals hiterable hlexical)) ?_
    intro value middle ⟨hvalue, hmiddle⟩
    rcases Ty.admits_list hvalue with rfl | ⟨items, rfl, hitems⟩
    · exact .lift ⟨rfl, lexical_beside hmiddle⟩
    · dsimp only
      rw [hmark]
      have hinner := hchecks.grows.sub (List.cons_ne_nil _ _) hglobals
      have hloop := Soundness.loop returns name hitems
        (fun item hitem scope store hscope hlexical =>
          round hchecks hscope hitem hlexical fun store hlexical => hbody hchecks hinner hlexical)
        hmiddle
      refine hloop.mono (fun flow after hflow => ?_) fun _ _ hfail => hfail
      cases flow with
      | normal => exact ⟨rfl, hflow⟩
      | returned value => exact hflow

theorem print (he : SoundExpression top table functions invoke e) :
    SoundStatement top table functions invoke returns (.print info e) := by
  intro scopes symbols hchecks hglobals store hlexical
  cases hchecks with
  | print hvalue _ =>
    rw [Evaluation.statement]
    refine .bind (beside (he hglobals hvalue hlexical)) ?_
    intro value middle ⟨_, hmiddle⟩
    exact .bind (P := fun _ after => Lexical top scopes.nested after) (.lift hmiddle)
      fun _ after hafter => .pure ⟨rfl, hafter⟩

theorem call (he : SoundExpression top table functions invoke e) :
    SoundStatement top table functions invoke returns (.call info e) := by
  intro scopes symbols hchecks hglobals store hlexical
  cases hchecks with
  | call hvalue =>
    rw [Evaluation.statement]
    exact .bind (beside (he hglobals hvalue hlexical)) fun _ after hafter => .pure ⟨rfl, hafter.2⟩

theorem leave : SoundStatement top table functions invoke returns
    (.returning info none) := by
  intro scopes symbols hchecks hglobals store hlexical
  cases hchecks with
  | leave =>
    rw [Evaluation.statement]
    exact .pure ⟨⟨.void, .void, rfl, rfl, .inr rfl⟩, lexical_beside hlexical⟩

theorem returning (he : SoundExpression top table functions invoke e) :
    SoundStatement top table functions invoke returns (.returning info (some e)) := by
  intro scopes symbols hchecks hglobals store hlexical
  cases hchecks with
  | returning _ hvalue =>
    obtain ⟨source, hsource, -, haccepts⟩ := hvalue
    rw [Evaluation.statement]
    exact .bind (beside (he hglobals hsource hlexical)) fun value after hvalue =>
      .pure ⟨⟨_, source, rfl, haccepts, .inl hvalue.1⟩, lexical_beside hvalue.2⟩

end SoundStatement

theorem SoundStatements.nil : SoundStatements top table functions invoke returns [] := by
  intro scopes symbols hchecks hglobals store hlexical
  cases hchecks
  rw [Evaluation.statements]
  exact .pure ⟨rfl, hlexical⟩

theorem SoundStatements.cons {s : Stmt Info} {rest : List (Stmt Info)}
    (hs : SoundStatement top table functions invoke returns s)
    (hrest : SoundStatements top table functions invoke returns rest) :
    SoundStatements top table functions invoke returns (s :: rest) := by
  intro scopes symbols hchecks hglobals store hlexical
  cases hchecks with
  | @cons _ _ middle _ _ _ hfirst hothers =>
    rw [Evaluation.statements]
    obtain ⟨middle, functions⟩ := middle
    cases hfirst.grows.functions
    have hmiddle := hothers.grows.outermost.trans hglobals
    refine .bind (hs hfirst hmiddle hlexical) ?_
    intro flow after hflow
    cases flow with
    | normal =>
      have hbeside : LexicalBeside top _ = LexicalBeside top _ :=
        lexicalBeside_congr hfirst.grows.tail hfirst.grows.length
      refine (hrest hothers hglobals hflow.2).mono (fun flow scopes hrun => ?_)
        fun cause scopes hfail => ⟨hfail.1, hbeside ▸ hfail.2⟩
      cases flow with
      | normal => exact ⟨by rw [Typing.alwaysReturns, hflow.1, hrun.1, Bool.false_or], hrun.2⟩
      | returned value => exact ⟨hrun.1, hbeside ▸ hrun.2⟩
    | returned value => exact .pure hflow

mutual

theorem statement (hdefined : WellDefined top.types table functions)
    (hcalls : SoundCalls top table invoke) :
    (s : Stmt Info) → SoundStatement top table functions invoke returns s
  | .declaration _ _ _ e => .declaration (expression hdefined hcalls e)
  | .assignment _ _ e => .assignment (expression hdefined hcalls e)
  | .function .. => .function
  | .ifThen _ e body => .ifThen (expression hdefined hcalls e) (statements hdefined hcalls body)
  | .ifThenElse _ e body other =>
    .ifThenElse (expression hdefined hcalls e) (statements hdefined hcalls body)
      (statements hdefined hcalls other)
  | .loop _ _ e body => .loop (expression hdefined hcalls e) (statements hdefined hcalls body)
  | .print _ e => .print (expression hdefined hcalls e)
  | .call _ e => .call (expression hdefined hcalls e)
  | .returning _ none => .leave
  | .returning _ (some e) => .returning (expression hdefined hcalls e)
  | .broken .. | .bare _ => fun _ _ hchecks => by cases hchecks

theorem statements (hdefined : WellDefined top.types table functions)
    (hcalls : SoundCalls top table invoke) :
    (body : List (Stmt Info)) → SoundStatements top table functions invoke returns body
  | [] => .nil
  | s :: rest => .cons (statement hdefined hcalls s) (statements hdefined hcalls rest)

end
end Statements
end Trees

/-- However many calls may still nest, each of them gives a value of the return type. -/
theorem invokeWithin (hdefined : WellDefined top.types table functions) (room : Nat) :
    SoundCalls top table (Evaluation.invokeWithin .own functions room) := by
  induction room with
  | zero =>
    intro _ _ _ nested _ store _ hlexical
    exact .lift ⟨rfl, hlexical⟩
  | succ room ih =>
    intro definition signature hdefinition nested bound store hbound hlexical
    obtain ⟨outermost, after, hsub, hbody⟩ := hdefinition.body
    have hinner := hbody.grows.sub (List.cons_ne_nil _ _) hsub
    rw [hdefinition.returns]
    have hrun : Ensures _
        (store.onScopes fun scopes => { scopes with nested := [bound] }) _ _ :=
      statements hdefined ih definition.body hbody hinner (hlexical.enter hbound)
    have hcall : Ensures (Evaluator.inCall bound _) store
        (FlowPost
          (fun scopes => alwaysReturns definition.body = false ∧ Lexical top nested scopes)
          (fun value scopes => Returned (some definition.returns) value ∧
            Lexical top nested scopes))
        (Fails top nested) :=
      .inCall (hrun.mono
        (fun flow scopes hflow => by
          cases flow with
          | normal => exact ⟨hflow.1, hlexical.leave hflow.2⟩
          | returned value =>
            obtain ⟨hvalue, _, _, _, hscopes⟩ := hflow
            exact ⟨hvalue, hlexical.leave hscopes⟩)
        fun cause scopes ⟨hcause, _, _, _, hscopes⟩ => ⟨hcause, hlexical.leave hscopes⟩)
    rw [Evaluation.invokeWithin]
    refine .bind hcall ?_
    intro flow after hflow
    cases flow with
    | normal =>
      rcases hdefinition.callable.returns with hvoid | ⟨-, halways⟩
      · rw [hvoid]; exact .pure ⟨rfl, hflow.2⟩
      · rw [hflow.1] at halways; cases halways
    | returned value =>
      obtain ⟨⟨ty, source, hty, haccepts, hvalue⟩, hscopes⟩ := hflow
      cases hty
      exact stored haccepts hvalue hscopes

/-- A well-typed program observes values of the recorded types only, and fails as expected. -/
theorem program {p : Program Info} (hp : WellTyped p) :
    ∃ types, ∀ (complete : Prop) (store : Store), Lexical ⟨types, complete⟩ [] store.scopes →
      Ensures (Evaluation.program .own p) store
        (fun _ scopes => Lexical ⟨types, complete⟩ [] scopes)
        (FailsBeside ⟨types, complete⟩ []) := by
  cases hp with
  | @expression _ body ty hbody =>
    refine ⟨[], fun complete store hlexical => ?_⟩
    have hdefined : WellDefined [] [] [] := fun _ _ h => (nomatch h)
    rw [Evaluation.program]
    refine .bind (beside (expression hdefined (invokeWithin hdefined Evaluation.maxCallDepth)
      body (show Scope.Sub Scopes.empty.outermost [] from fun _ _ h => h) hbody hlexical)) ?_
    exact fun value after hvalue => .lift hvalue.2
  | @statements _ body after _ hbody =>
    refine ⟨after.scopes.outermost, fun complete store hlexical => ?_⟩
    have hdefined := hbody.wellDefined
    obtain ⟨symbols, hsymbols⟩ : ∃ symbols, initialSymbols body = symbols := ⟨_, rfl⟩
    obtain ⟨scopes, table⟩ := symbols
    have hscopes : scopes = .empty :=
      (congrArg Symbols.scopes hsymbols).symm.trans (register_scopes .empty body)
    rw [hsymbols] at hbody hdefined
    subst hscopes
    have hlast : after.scopes.nested = [] := List.length_eq_zero_iff.1 hbody.grows.length
    rw [Evaluation.program]
    refine .bind (statements hdefined
      (invokeWithin hdefined Evaluation.maxCallDepth) body hbody (.refl _) hlexical) ?_
    intro flow scopes hflow
    cases flow with
    | normal => exact .pure (hlast ▸ hflow.2)
    | returned value =>
      obtain ⟨⟨_, _, hreturns, _⟩, _⟩ := hflow
      cases hreturns

end Soundness
end CatScript
