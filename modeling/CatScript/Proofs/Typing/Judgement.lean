import CatScript.Proofs.Scope
import CatScript.Proofs.Typing.Subtyping

/-! # Well-typed trees

What a typed tree without errors is like: every node has the type that the rules of the language
give it (`Typing.HasType`), and every statement can stand where it does (`Typing.Checks`).  The
rules open a scope for the variable of a loop and another one for its body.

Statements only ever add to the innermost scope (`Typing.ChecksAll.grows`). -/
set_option autoImplicit false
namespace CatScript
namespace Typing

mutual

/-- The expression has a type under the given symbols, and its marks say so. -/
inductive HasType (symbols : Symbols) : Expr Info → Ty → Prop where
  | identifier {info : Info} {name : String} {ty : Ty} :
      info.ty = some ty → symbols.typeOf? name = some ty → ty.Storable →
      HasType symbols (.identifier info name) ty
  | integer {info : Info} {value : Int64} :
      info.ty = some .int → HasType symbols (.integer info value) .int
  | string {info : Info} {text : String} :
      info.ty = some .string → HasType symbols (.string info text) .string
  | boolean {info : Info} {value : Bool} :
      info.ty = some .boolean → HasType symbols (.boolean info value) .boolean
  | null {info : Info} :
      info.ty = some .null → HasType symbols (.null info) .null
  | list {info : Info} {items : List (Expr Info)} {component : Ty} :
      info.ty = some (.list component) → component.Storable → ItemsFit symbols items component →
      HasType symbols (.list info items) (.list component)
  | parenthesized {info : Info} {inner : Expr Info} {ty : Ty} :
      info.ty = some ty → HasType symbols inner ty →
      HasType symbols (.parenthesized info inner) ty
  | unary {info : Info} {op : UnaryOp} {operand : Expr Info} :
      info.ty = some (operandType op) → HasType symbols operand (operandType op) →
      HasType symbols (.unary info op operand) (operandType op)
  | concat {info : Info} {left right : Expr Info} {a b : Ty} :
      info.ty = some .string → HasType symbols left a → HasType symbols right b →
      a ≠ .void → b ≠ .void →
      HasType symbols (.binary info .add left right) .string
  | arithmetic {info : Info} {op : BinaryOp} {left right : Expr Info} :
      info.ty = some .int → HasType symbols left .int → HasType symbols right .int →
      HasType symbols (.binary info op left right) .int
  | comparison {info : Info} {op : ComparisonOp} {left right : Expr Info} :
      info.ty = some .boolean → HasType symbols left .int → HasType symbols right .int →
      HasType symbols (.comparison info op left right) .boolean
  | equality {info : Info} {op : EqualityOp} {left right : Expr Info} {a b : Ty} :
      info.ty = some .boolean → HasType symbols left a → HasType symbols right b →
      a ≠ .void → b ≠ .void →
      HasType symbols (.equality info op left right) .boolean
  | call {info : Info} {name : String} {args : List (Expr Info)} {signature : Signature} :
      info.ty = some signature.returns → symbols.function? name = some signature →
      ArgsFit symbols args signature.params →
      HasType symbols (.call info name args) signature.returns

/-- The expressions have types that `component` accepts. -/
inductive ItemsFit (symbols : Symbols) : List (Expr Info) → Ty → Prop where
  | nil {component : Ty} : ItemsFit symbols [] component
  | cons {item : Expr Info} {rest : List (Expr Info)} {ty component : Ty} :
      HasType symbols item ty → ty ≠ .void → component.accepts ty = true →
      ItemsFit symbols rest component → ItemsFit symbols (item :: rest) component

/-- There are as many expressions as parameters, with types that the parameters accept. -/
inductive ArgsFit (symbols : Symbols) : List (Expr Info) → List Ty → Prop where
  | nil : ArgsFit symbols [] []
  | cons {arg : Expr Info} {args : List (Expr Info)} {ty param : Ty} {params : List Ty} :
      HasType symbols arg ty → ty ≠ .void → param.accepts ty = true →
      ArgsFit symbols args params → ArgsFit symbols (arg :: args) (param :: params)

end

def Fits (symbols : Symbols) (e : Expr Info) (target : Ty) : Prop :=
  ∃ ty, HasType symbols e ty ∧ ty ≠ .void ∧ target.accepts ty = true

def parameterScope (params : List Parameter) : Scope Ty :=
  params.foldl (fun scope param => scope.bind param.name param.ty) []

structure Callable (params : List Parameter) (returns : Ty) (body : List (Stmt Info)) : Prop where
  distinct : (params.map Parameter.name).Nodup
  params : ∀ param ∈ params, param.ty.Storable
  returns : returns = .void ∨ returns.Storable ∧ alwaysReturns body = true

mutual

/-- The statement can stand in a function with the given return type, or outside of functions if
there is none; it leads from the first symbols to the second. -/
inductive Checks : Option Ty → Symbols → Stmt Info → Symbols → Prop where
  | declaration {returns : Option Ty} {symbols : Symbols} {info : Info} {name : String}
      {ty? : Option Ty} {value : Expr Info} {ty : Ty} :
      info.ty = some ty → symbols.declaredHere name = false → ty.Storable →
      Fits symbols value ty →
      Checks returns symbols (.declaration info name ty? value) (symbols.declare name ty)
  | assignment {returns : Option Ty} {symbols : Symbols} {info : Info} {name : String}
      {value : Expr Info} {ty : Ty} :
      info.ty = some ty → symbols.typeOf? name = some ty → ty.Storable → Fits symbols value ty →
      Checks returns symbols (.assignment info name value) symbols
  | function {symbols after : Symbols} {info : Info} {name : String} {params : List Parameter}
      {returns : Ty} {body : List (Stmt Info)} :
      symbols.scopes.nested = [] →
      symbols.function? name = some ⟨params.map Parameter.ty, returns⟩ →
      Callable params returns body →
      ChecksAll (some returns)
        ⟨⟨symbols.scopes.outermost, [parameterScope params]⟩, symbols.functions⟩ body after →
      Checks none symbols (.function info name params returns body) symbols
  | ifThen {returns : Option Ty} {symbols after : Symbols} {info : Info} {condition : Expr Info}
      {thenBody : List (Stmt Info)} :
      HasType symbols condition .boolean → ChecksAll returns symbols.enter thenBody after →
      Checks returns symbols (.ifThen info condition thenBody) symbols
  | ifThenElse {returns : Option Ty} {symbols afterThen afterElse : Symbols} {info : Info}
      {condition : Expr Info} {thenBody elseBody : List (Stmt Info)} :
      HasType symbols condition .boolean → ChecksAll returns symbols.enter thenBody afterThen →
      ChecksAll returns symbols.enter elseBody afterElse →
      Checks returns symbols (.ifThenElse info condition thenBody elseBody) symbols
  | loop {returns : Option Ty} {symbols after : Symbols} {info : Info} {name : String}
      {iterable : Expr Info} {body : List (Stmt Info)} {ty : Ty} :
      info.ty = some ty → HasType symbols iterable (.list ty) → symbols.typeOf? name = none →
      ChecksAll returns (symbols.enter.declare name ty).enter body after →
      Checks returns symbols (.loop info name iterable body) symbols
  | print {returns : Option Ty} {symbols : Symbols} {info : Info} {value : Expr Info} {ty : Ty} :
      HasType symbols value ty → ty ≠ .void →
      Checks returns symbols (.print info value) symbols
  | call {returns : Option Ty} {symbols : Symbols} {info : Info} {value : Expr Info} {ty : Ty} :
      HasType symbols value ty →
      Checks returns symbols (.call info value) symbols
  | leave {symbols : Symbols} {info : Info} :
      Checks (some .void) symbols (.returning info none) symbols
  | returning {symbols : Symbols} {info : Info} {value : Expr Info} {returns : Ty} :
      returns.Storable → Fits symbols value returns →
      Checks (some returns) symbols (.returning info (some value)) symbols

inductive ChecksAll : Option Ty → Symbols → List (Stmt Info) → Symbols → Prop where
  | nil {returns : Option Ty} {symbols : Symbols} : ChecksAll returns symbols [] symbols
  | cons {returns : Option Ty} {symbols middle after : Symbols} {s : Stmt Info}
      {rest : List (Stmt Info)} :
      Checks returns symbols s middle → ChecksAll returns middle rest after →
      ChecksAll returns symbols (s :: rest) after

end

def functionNames (body : List (Stmt Info)) : List String :=
  body.filterMap fun
    | .function _ name _ _ _ => some name
    | _ => none

/-- The symbols of a program before its first statement. -/
def initialSymbols (body : List (Stmt Info)) : Symbols :=
  (register .empty body).1

inductive WellTyped : Program Info → Prop where
  | expression {mark : Info} {body : Expr Info} {ty : Ty} :
      HasType .empty body ty → WellTyped (.expression mark body)
  | statements {mark : Info} {body : List (Stmt Info)} {after : Symbols} :
      (functionNames body).Nodup → ChecksAll none (initialSymbols body) body after →
      WellTyped (.statements mark body)

theorem HasType.mark {symbols : Symbols} {e : Expr Info} {ty : Ty} (h : HasType symbols e ty) :
    e.mark.ty = some ty := by
  cases h <;> assumption

theorem ArgsFit.length {symbols : Symbols} {args : List (Expr Info)} :
    {params : List Ty} → ArgsFit symbols args params → args.length = params.length := by
  induction args with
  | nil => intro _ h; cases h; rfl
  | cons arg args ih => intro _ h; cases h with | cons _ _ _ hrest => simp [ih hrest]

def StorableResults (functions : Scope Signature) : Prop :=
  ∀ name signature, functions.find? name = some signature →
    signature.returns = .void ∨ signature.returns.Storable

/-- The type of an expression is one that values have, or the result of a function. -/
theorem HasType.of_results {symbols : Symbols} {P : Ty → Prop} (hstorable : ∀ ty, ty.Storable → P ty)
    (hresults : ∀ name signature, symbols.functions.find? name = some signature →
      P signature.returns) :
    (e : Expr Info) → {ty : Ty} → HasType symbols e ty → P ty
  | .identifier .., _, .identifier _ _ hty => hstorable _ hty
  | .integer .., _, .integer _ | .string .., _, .string _ | .boolean .., _, .boolean _
  | .null _, _, .null _ | .comparison .., _, .comparison .. | .equality .., _, .equality ..
  | .binary .., _, .concat .. | .binary .., _, .arithmetic .. => hstorable _ trivial
  | .list .., _, .list _ hcomponent _ => hstorable _ hcomponent
  | .parenthesized _ inner, _, .parenthesized _ hinner =>
    HasType.of_results hstorable hresults inner hinner
  | .unary _ op _, _, .unary .. => hstorable _ (by cases op <;> trivial)
  | .call .., _, .call _ hfunction _ => hresults _ _ hfunction

/-- Only calls have the type `void`. -/
theorem HasType.storable {symbols : Symbols} (hresults : StorableResults symbols.functions)
    (e : Expr Info) {ty : Ty} (h : HasType symbols e ty) : ty = .void ∨ ty.Storable :=
  h.of_results (P := fun ty => ty = .void ∨ ty.Storable) (fun _ => .inr) hresults e

section Growth

/-- Statements leave the functions and the scopes around the innermost one as they are, and the
outermost one grows. -/
structure Grows (before after : Symbols) : Prop where
  functions : after.functions = before.functions
  outermost : Scope.Sub before.scopes.outermost after.scopes.outermost
  nested : before.scopes.nested ≠ [] → after.scopes.outermost = before.scopes.outermost
  tail : after.scopes.nested.tail = before.scopes.nested.tail
  length : after.scopes.nested.length = before.scopes.nested.length

theorem Grows.refl (symbols : Symbols) : Grows symbols symbols :=
  ⟨rfl, .refl _, fun _ => rfl, rfl, rfl⟩

theorem Grows.trans {a b c : Symbols} (hab : Grows a b) (hbc : Grows b c) : Grows a c := by
  refine ⟨hbc.functions.trans hab.functions, hab.outermost.trans hbc.outermost, fun hne => ?_,
    hbc.tail.trans hab.tail, hbc.length.trans hab.length⟩
  have hb : b.scopes.nested ≠ [] := by
    intro hnil
    have hlength := hab.length
    rw [hnil] at hlength
    exact hne (List.length_eq_zero_iff.1 hlength.symm)
  exact (hbc.nested hb).trans (hab.nested hne)

/-- Inside a block or a function nothing is added to the outermost scope. -/
theorem Grows.sub {a b : Symbols} (h : Grows a b) (hne : a.scopes.nested ≠ []) {globals : Scope Ty}
    (ha : Scope.Sub a.scopes.outermost globals) : Scope.Sub b.scopes.outermost globals := by
  rw [h.nested hne]
  exact ha

theorem grows_declare {symbols : Symbols} {name : String} (h : symbols.declaredHere name = false)
    (ty : Ty) : Grows symbols (symbols.declare name ty) := by
  obtain ⟨⟨outermost, nested⟩, functions⟩ := symbols
  cases nested with
  | nil =>
    have hnone : outermost.find? name = none := by
      simpa [Symbols.declaredHere, Scopes.innermost] using h
    exact ⟨rfl, Scope.sub_bind hnone ty, fun hne => absurd rfl hne, rfl, rfl⟩
  | cons scope rest => exact ⟨rfl, .refl _, fun _ => rfl, rfl, rfl⟩

theorem Checks.grows {returns : Option Ty} {before after : Symbols} {s : Stmt Info}
    (h : Checks returns before s after) : Grows before after := by
  cases h with
  | declaration _ hfresh _ _ => exact grows_declare hfresh _
  | _ => exact .refl _

theorem ChecksAll.grows {returns : Option Ty} {body : List (Stmt Info)} :
    {before after : Symbols} → ChecksAll returns before body after → Grows before after := by
  induction body with
  | nil => intro _ _ h; cases h; exact .refl _
  | cons s rest ih => intro _ _ h; cases h with | cons hs hrest => exact hs.grows.trans (ih hrest)

end Growth

end Typing
end CatScript
