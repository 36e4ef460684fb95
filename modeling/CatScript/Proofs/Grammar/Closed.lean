import CatScript.Grammar.Program

/-! # What readers give

`Reader.Yields` says what a reader gives, wherever it starts.  The readers build trees from pieces:
a property of reports, types, expressions and statements that every way to build one keeps
(`Property.Closed`) holds of whatever is read (`Property.Closed.program`,
`Property.Closed.expressionProgram`). -/
set_option autoImplicit false
namespace CatScript
namespace Reader

variable {α β : Type} {P : α → Prop} {Q : β → Prop}

/-- Wherever the reader starts, what it gives is as `P` wants it. -/
structure Yields (reader : Reader α) (P : α → Prop) : Prop where
  run : ∀ cursor, P (reader.run cursor).1

theorem yields_any (reader : Reader α) : Yields reader fun _ => True :=
  ⟨fun _ => trivial⟩

theorem Yields.pure {a : α} (h : P a) : Yields (Pure.pure a : Reader α) P :=
  ⟨fun _ => h⟩

theorem Yields.bind {reader : Reader α} {next : α → Reader β} (h : Yields reader P)
    (hnext : ∀ a, P a → Yields (next a) Q) : Yields (reader >>= next) Q := by
  refine ⟨fun cursor => ?_⟩
  exact (hnext _ (h.run cursor)).run _

theorem Yields.after {reader : Reader α} {next : α → Reader β} (h : ∀ a, Yields (next a) Q) :
    Yields (reader >>= next) Q := by
  refine .bind (yields_any reader) fun a _ => ?_
  exact h a

theorem Yields.map {reader : Reader α} {f : α → β} (h : Yields reader P)
    (hf : ∀ a, P a → Q (f a)) : Yields (f <$> reader) Q := by
  rw [← bind_pure_comp]
  exact .bind h fun a ha => .pure (hf a ha)

theorem Yields.separated {item : Reader α} (h : Yields item P) (bound : Nat) :
    Yields (Reader.separated item bound) fun items => ∀ a ∈ items, P a := by
  induction bound with
  | zero =>
    refine .bind h fun a ha => .pure ?_
    exact List.forall_mem_singleton.2 ha
  | succ bound ih =>
    refine .bind h fun a ha => .after fun more => ?_
    cases more with
    | false => exact .pure (List.forall_mem_singleton.2 ha)
    | true =>
      refine .bind ih fun items hitems => .pure ?_
      exact List.forall_mem_cons.2 ⟨ha, hitems⟩

theorem Yields.repeated {stop : TokenKind → Bool} {item : Reader α} (h : Yields item P)
    (bound : Nat) : Yields (Reader.repeated stop item bound) fun items => ∀ a ∈ items, P a := by
  induction bound with
  | zero => exact .pure (List.forall_mem_nil P)
  | succ bound ih =>
    refine .after fun kind => ?_
    cases stop kind with
    | true => exact .pure (List.forall_mem_nil P)
    | false =>
      refine .bind h fun a ha => .bind ih fun items hitems => .pure ?_
      exact List.forall_mem_cons.2 ⟨ha, hitems⟩

end Reader

namespace Grammar
open Reader

/-- A property of the things that readers give; a statement is read inside a function or not. -/
structure Property where
  reports : List Diagnostic → Prop
  type : Ty → Prop
  expr : Expr Mark → Prop
  stmt : (inFunction : Bool) → Stmt Mark → Prop

namespace Property

def program (P : Property) : Program Mark → Prop
  | .expression mark body => P.reports mark.errors ∧ P.expr body
  | .statements mark body => P.reports mark.errors ∧ ∀ s ∈ body, P.stmt false s

/-- Every way to build something out of what has the property gives something that has it.  The
`return`s are read inside functions alone. -/
structure Closed (P : Property) : Prop where
  clean : P.reports []
  append : ∀ {errors more}, P.reports errors → P.reports more → P.reports (errors ++ more)
  unexpected : ∀ token, P.reports [Reader.unexpected token]
  unterminatedArgs : ∀ span, P.reports [⟨.unterminatedArgList, span⟩]
  unterminatedList : ∀ span, P.reports [⟨.unterminatedList, span⟩]
  typeName : ∀ {name ty}, Ty.ofName? name = some ty → P.type ty
  listType : ∀ {ty}, P.type ty → P.type (.list ty)
  identifier : ∀ {mark name}, P.reports mark.errors → P.expr (.identifier mark name)
  integer : ∀ {mark value}, P.reports mark.errors → P.expr (.integer mark value)
  string : ∀ {mark text}, P.reports mark.errors → P.expr (.string mark text)
  boolean : ∀ {mark value}, P.reports mark.errors → P.expr (.boolean mark value)
  null : ∀ {mark}, P.reports mark.errors → P.expr (.null mark)
  list : ∀ {mark items}, P.reports mark.errors → (∀ e ∈ items, P.expr e) → P.expr (.list mark items)
  parenthesized : ∀ {mark inner}, P.reports mark.errors → P.expr inner →
    P.expr (.parenthesized mark inner)
  unary : ∀ {mark op operand}, P.reports mark.errors → P.expr operand →
    P.expr (.unary mark op operand)
  binary : ∀ {mark op left right}, P.reports mark.errors → P.expr left → P.expr right →
    P.expr (.binary mark op left right)
  comparison : ∀ {mark op left right}, P.reports mark.errors → P.expr left → P.expr right →
    P.expr (.comparison mark op left right)
  equality : ∀ {mark op left right}, P.reports mark.errors → P.expr left → P.expr right →
    P.expr (.equality mark op left right)
  call : ∀ {mark name args}, P.reports mark.errors → (∀ e ∈ args, P.expr e) →
    P.expr (.call mark name args)
  strayExpression : ∀ token : Token,
    P.expr (.broken ⟨token.span, [Reader.unexpected token]⟩ token.text)
  declaration : ∀ {inFunction mark name ty? value}, P.reports mark.errors →
    (∀ ty, ty? = some ty → P.type ty) → P.expr value →
    P.stmt inFunction (.declaration mark name ty? value)
  assignment : ∀ {inFunction mark name value}, P.reports mark.errors → P.expr value →
    P.stmt inFunction (.assignment mark name value)
  function : ∀ {inFunction mark name params returns body}, P.reports mark.errors →
    (∀ param ∈ params, P.type param.ty) → returns = .void ∨ P.type returns →
    (∀ s ∈ body, P.stmt true s) → P.stmt inFunction (.function mark name params returns body)
  ifThen : ∀ {inFunction mark condition thenBody}, P.reports mark.errors → P.expr condition →
    (∀ s ∈ thenBody, P.stmt inFunction s) → P.stmt inFunction (.ifThen mark condition thenBody)
  ifThenElse : ∀ {inFunction mark condition thenBody elseBody}, P.reports mark.errors →
    P.expr condition → (∀ s ∈ thenBody, P.stmt inFunction s) →
    (∀ s ∈ elseBody, P.stmt inFunction s) →
    P.stmt inFunction (.ifThenElse mark condition thenBody elseBody)
  loop : ∀ {inFunction mark name iterable body}, P.reports mark.errors → P.expr iterable →
    (∀ s ∈ body, P.stmt inFunction s) → P.stmt inFunction (.loop mark name iterable body)
  print : ∀ {inFunction mark value}, P.reports mark.errors → P.expr value →
    P.stmt inFunction (.print mark value)
  callStatement : ∀ {inFunction mark value}, P.reports mark.errors → P.expr value →
    P.stmt inFunction (.call mark value)
  returnNothing : ∀ {mark}, P.reports mark.errors → P.stmt true (.returning mark none)
  returnValue : ∀ {mark value}, P.reports mark.errors → P.expr value →
    P.stmt true (.returning mark (some value))
  strayStatement : ∀ {inFunction} (token : Token),
    P.stmt inFunction (.broken ⟨token.span, [Reader.unexpected token]⟩ token.text)

structure Parts (P : Property) (nested : Nested) : Prop where
  expression : Yields nested.expression P.expr
  operand : Yields nested.operand P.expr

structure Body (P : Property) (inFunction : Bool) (read : List (Stmt Mark) × List Diagnostic) :
    Prop where
  body : ∀ s ∈ read.1, P.stmt inFunction s
  reports : P.reports read.2

namespace Closed

variable {P : Property} (h : P.Closed)
include h

theorem object : P.type .object :=
  h.typeName (by decide : Ty.ofName? "object" = some .object)

theorem require (kind : TokenKind) : Yields (require kind) fun read => P.reports read.2 := by
  refine ⟨fun cursor => ?_⟩
  by_cases hkind : cursor.current.kind = kind
  · have hread : (Reader.require kind).run cursor = ((cursor.current, []), cursor.next) :=
      if_pos hkind
    rw [hread]
    exact h.clean
  · have hread : (Reader.require kind).run cursor =
        ((cursor.current, [Reader.unexpected cursor.current]), cursor) := if_neg hkind
    rw [hread]
    exact h.unexpected _

section Expressions

theorem stray : Yields Grammar.strayExpression P.expr := by
  refine .after fun token => ?_
  exact .pure (h.strayExpression token)

theorem chain {ω : Type} {op? : TokenKind → Option ω}
    {build : Mark → ω → Expr Mark → Expr Mark → Expr Mark} {operand : Reader (Expr Mark)}
    (hbuild : ∀ {mark op left right}, P.reports mark.errors → P.expr left → P.expr right →
      P.expr (build mark op left right))
    (hoperand : Yields operand P.expr) (bound : Nat) {left : Expr Mark} (hleft : P.expr left) :
    Yields (Grammar.chain op? build operand bound left) P.expr := by
  induction bound generalizing left with
  | zero => exact .pure hleft
  | succ bound ih =>
    refine .after fun kind => ?_
    cases op? kind with
    | none => exact .pure hleft
    | some op =>
      refine .after fun _ => .bind hoperand fun right hright => ?_
      exact ih (hbuild h.clean hleft hright)

theorem leftAssociative {ω : Type} {op? : TokenKind → Option ω}
    {build : Mark → ω → Expr Mark → Expr Mark → Expr Mark} {operand : Reader (Expr Mark)}
    (hbuild : ∀ {mark op left right}, P.reports mark.errors → P.expr left → P.expr right →
      P.expr (build mark op left right))
    (hoperand : Yields operand P.expr) :
    Yields (Grammar.leftAssociative op? build operand) P.expr := by
  refine .bind hoperand fun left hleft => .after fun bound => ?_
  exact h.chain hbuild hoperand bound hleft

variable {nested : Nested} (hparts : Parts P nested)
include hparts

theorem callOf (name : Token) : Yields (Grammar.call nested name) P.expr := by
  have hclose : ∀ {errors : List Diagnostic} {args : List (Expr Mark)}, P.reports errors →
      (∀ e ∈ args, P.expr e) →
      Yields (do return .call ⟨← spanFrom name.span, errors⟩ name.text args) P.expr := by
    intro errors args herrors hargs
    exact .after fun span => .pure (h.call herrors hargs)
  have hnone := List.forall_mem_nil P.expr
  refine .bind (h.require .leftParen) fun (opening, missing) hmissing => ?_
  dsimp only
  split
  · refine .after fun empty => ?_
    split
    · exact hclose (h.append hmissing h.clean) hnone
    · refine .after fun bound => .bind (.separated hparts.expression bound) fun args hargs => ?_
      refine .after fun closed => ?_
      split
      · exact hclose (h.append hmissing h.clean) hargs
      · refine .after fun token => ?_
        exact hclose (h.append hmissing (h.unterminatedArgs _)) hargs
  · exact hclose (h.append hmissing h.clean) hnone

theorem listOf (opening : Token) : Yields (Grammar.list nested opening) P.expr := by
  have hclose : ∀ {items : List (Expr Mark)}, (∀ e ∈ items, P.expr e) →
      Yields (do
        let errors ← if ← accept .rightBracket then pure []
          else pure [⟨.unterminatedList, (← current).span⟩]
        return .list ⟨← spanFrom opening.span, errors⟩ items) P.expr := by
    intro items hitems
    refine .after fun closed => ?_
    dsimp only
    split
    · refine .bind (P := P.reports) (.pure h.clean) fun errors herrors => .after fun span => ?_
      exact .pure (h.list herrors hitems)
    · refine .after fun token => ?_
      refine .bind (P := P.reports) (.pure (h.unterminatedList _)) fun errors herrors => ?_
      exact .after fun span => .pure (h.list herrors hitems)
  refine .after fun kind => ?_
  dsimp only
  split
  · exact hclose (List.forall_mem_nil P.expr)
  · refine .after fun bound => .bind (.separated hparts.expression bound) fun items hitems => ?_
    exact hclose hitems

theorem parenthesizedOf (opening : Token) :
    Yields (Grammar.parenthesized nested opening) P.expr := by
  refine .bind hparts.expression fun inner hinner => ?_
  refine .bind (h.require .rightParen) fun (_, errors) herrors => .after fun span => ?_
  exact .pure (h.parenthesized herrors hinner)

theorem primary : Yields (Grammar.primary nested) P.expr := by
  refine .after fun token => ?_
  dsimp only
  split
  · refine .after fun kind => ?_
    by_cases hkind : kind = .leftParen
    · rw [if_pos hkind]
      exact h.callOf hparts token
    · rw [if_neg hkind]
      exact .pure (h.identifier h.clean)
  · split
    · exact .pure (h.integer h.clean)
    · exact .pure (h.integer (h.unexpected token))
  · exact .pure (h.string h.clean)
  · exact .pure (h.boolean h.clean)
  · exact .pure (h.boolean h.clean)
  · exact .pure (h.null h.clean)
  · exact h.listOf hparts token
  · exact h.parenthesizedOf hparts token
  · exact .pure (h.strayExpression token)

theorem unaryOf : Yields (Grammar.unary nested) P.expr := by
  refine .after fun kind => ?_
  cases unaryOp? kind with
  | none => exact h.primary hparts
  | some op =>
    refine .after fun operator => .bind hparts.operand fun operand hoperand => ?_
    exact .pure (h.unary h.clean hoperand)

theorem comparisonOf : Yields (Grammar.comparison nested) P.expr := by
  have hfactor : Yields (factor nested) P.expr := h.leftAssociative h.binary (h.unaryOf hparts)
  have hadditive : Yields (additive nested) P.expr := h.leftAssociative h.binary hfactor
  exact h.leftAssociative h.comparison hadditive

theorem equalityOf : Yields (Grammar.equality nested) P.expr := by
  refine .bind (h.comparisonOf hparts) fun left hleft => .after fun kind => ?_
  cases equalityOp? kind with
  | none => exact .pure hleft
  | some op =>
    refine .after fun _ => .bind hparts.expression fun right hright => ?_
    exact .pure (h.equality h.clean hleft hright)

omit hparts in
theorem parts (room : Nat) : Parts P (Nested.ofRoom room) := by
  induction room with
  | zero => exact ⟨h.stray, h.stray⟩
  | succ room ih => exact ⟨h.equalityOf ih, h.unaryOf ih⟩

end Expressions

section Types

theorem typeExpression (bound : Nat) :
    Yields (Grammar.typeExpression bound) fun read => P.type read.1 ∧ P.reports read.2 := by
  induction bound with
  | zero => exact .pure ⟨h.object, h.clean⟩
  | succ bound ih =>
    refine .after fun token => ?_
    split
    · exact .pure ⟨h.object, h.unexpected token⟩
    · refine .after fun _ => ?_
      split
      · refine .after fun opened => ?_
        cases opened with
        | true =>
          refine .bind ih fun (component, errors) hcomponent => ?_
          refine .bind (h.require .greater) fun (_, missing) hmissing => .pure ?_
          exact ⟨h.listType hcomponent.1, h.append hcomponent.2 hmissing⟩
        | false => exact .pure ⟨h.listType h.object, h.clean⟩
      · cases hname : Ty.ofName? token.text with
        | some ty => exact .pure ⟨h.typeName hname, h.clean⟩
        | none => exact .pure ⟨h.object, h.unexpected token⟩

theorem typeAfterColon : Yields typeAfterColon?
    fun read => (∀ ty, read.1 = some ty → P.type ty) ∧ P.reports read.2 := by
  refine .after fun annotated => ?_
  cases annotated with
  | true =>
    refine .after fun bound => .bind (h.typeExpression _) fun (ty, errors) hty => .pure ?_
    refine ⟨?_, hty.2⟩
    rintro _ ⟨⟩
    exact hty.1
  | false => exact .pure ⟨nofun, h.clean⟩

theorem parameter : Yields Grammar.parameter fun read => P.type read.1.ty ∧ P.reports read.2 := by
  refine .bind (h.require .identifier) fun (name, noName) hname => ?_
  refine .bind h.typeAfterColon fun (ty?, badType) htype => .pure ?_
  refine ⟨?_, h.append hname htype.2⟩
  cases ty? with
  | none => exact h.object
  | some ty => exact htype.1 ty rfl

theorem flatMap {α : Type} {items : List α} {errors : α → List Diagnostic}
    (hitems : ∀ a ∈ items, P.reports (errors a)) : P.reports (items.flatMap errors) := by
  induction items with
  | nil => exact h.clean
  | cons a rest ih =>
    obtain ⟨ha, hrest⟩ := List.forall_mem_cons.1 hitems
    exact h.append ha (ih hrest)

theorem parameters : Yields Grammar.parameters
    fun read => (∀ param ∈ read.1, P.type param.ty) ∧ P.reports read.2 := by
  refine .after fun kind => ?_
  by_cases hkind : kind = .rightParen
  · rw [if_pos hkind]
    exact .pure ⟨nofun, h.clean⟩
  · rw [if_neg hkind]
    refine .after fun bound => .bind (.separated h.parameter bound) fun read hread => .pure ?_
    refine ⟨fun param hparam => ?_, h.flatMap fun one hone => (hread one hone).2⟩
    obtain ⟨one, hone, rfl⟩ := List.mem_map.1 hparam
    exact (hread one hone).1

end Types

section Statements

variable {inFunction : Bool}

theorem strayOf : Yields Grammar.strayStatement (P.stmt inFunction) := by
  refine .after fun token => ?_
  exact .pure (h.strayStatement token)

variable {nested : Nested} (hparts : Parts P nested)

section Simple
include hparts

theorem declarationOf : Yields (Grammar.declaration nested) (P.stmt inFunction) := by
  refine .after fun start => .bind (h.require .identifier) fun (name, noName) hname => ?_
  refine .bind h.typeAfterColon fun (ty?, badType) htype => ?_
  refine .bind (h.require .equal) fun (_, noEqual) hequal => ?_
  refine .bind hparts.expression fun value hvalue => .after fun span => .pure ?_
  exact h.declaration (h.append (h.append hname htype.2) hequal) htype.1 hvalue

theorem named : Yields (Grammar.named nested) (P.stmt inFunction) := by
  refine .after fun name => .after fun assigned => ?_
  cases assigned with
  | true =>
    refine .bind hparts.expression fun value hvalue => .after fun span => ?_
    exact .pure (h.assignment h.clean hvalue)
  | false =>
    refine .bind (h.callOf hparts name) fun value hvalue => ?_
    exact .pure (h.callStatement h.clean hvalue)

theorem printOf : Yields (Grammar.print nested) (P.stmt inFunction) := by
  refine .after fun start => .bind (h.require .leftParen) fun (_, noOpening) hopening => ?_
  refine .bind hparts.expression fun value hvalue => ?_
  refine .bind (h.require .rightParen) fun (_, noClosing) hclosing => .after fun span => ?_
  exact .pure (h.print (h.append hopening hclosing) hvalue)

theorem returning : Yields (Grammar.returning nested) (P.stmt true) := by
  refine .after fun start => .after fun kind => ?_
  dsimp only
  split
  · refine .bind (P := (· = none)) (.pure rfl) ?_
    rintro _ rfl
    exact .after fun span => .pure (h.returnNothing h.clean)
  · have hsome : Yields (some <$> nested.expression) fun value? =>
        ∃ value, value? = some value ∧ P.expr value :=
      .map hparts.expression fun value hvalue => ⟨value, rfl, hvalue⟩
    refine .bind hsome ?_
    rintro _ ⟨value, rfl, hvalue⟩
    exact .after fun span => .pure (h.returnValue h.clean hvalue)

end Simple

theorem functionOf {block : BlockReader} (hblock : Yields block (Body P true)) :
    Yields (Grammar.function block) (P.stmt inFunction) := by
  refine .after fun start => .bind (h.require .identifier) fun (name, noName) hname => ?_
  refine .bind (h.require .leftParen) fun (_, noOpening) hopening => ?_
  refine .bind h.parameters fun (params, badParams) hparams => ?_
  refine .bind (h.require .rightParen) fun (_, noClosing) hclosing => ?_
  refine .bind h.typeAfterColon fun (ty?, badType) htype => ?_
  refine .bind hblock fun (body, badBody) hbody => .after fun span => .pure ?_
  have hhead := h.append (h.append (h.append hname hopening) hparams.2) hclosing
  refine h.function (h.append (h.append hhead htype.2) hbody.reports) hparams.1 ?_ hbody.body
  cases ty? with
  | none => exact .inl rfl
  | some ty => exact .inr (htype.1 ty rfl)

variable {block : BlockReader} (hblock : Yields block (Body P inFunction))
include hparts hblock

theorem conditionalWith {elseIf : Reader (Stmt Mark)}
    (helse : Yields elseIf (P.stmt inFunction)) :
    Yields (Grammar.conditionalWith nested block elseIf) (P.stmt inFunction) := by
  refine .after fun start => .bind (h.require .leftParen) fun (_, noOpening) hopening => ?_
  refine .bind hparts.expression fun condition hcondition => ?_
  refine .bind (h.require .rightParen) fun (_, noClosing) hclosing => ?_
  refine .bind hblock fun (thenBody, badThen) hthen => .after fun alternative => ?_
  have herrors := h.append (h.append hopening hclosing) hthen.reports
  cases alternative with
  | true =>
    have hjoin : ∀ {elseBody badElse}, Body P inFunction (elseBody, badElse) →
        Yields (do
          return .ifThenElse ⟨← spanFrom start.span, (noOpening ++ noClosing ++ badThen) ++ badElse⟩
            condition thenBody elseBody) (P.stmt inFunction) := by
      intro elseBody badElse hbody
      refine .after fun span => .pure ?_
      exact h.ifThenElse (h.append herrors hbody.reports) hcondition hthen.body hbody.body
    refine .after fun kind => ?_
    dsimp only
    split
    · refine .bind helse fun other hother => ?_
      exact hjoin ⟨List.forall_mem_singleton.2 hother, h.clean⟩
    · exact .bind hblock fun (elseBody, badElse) hbody => hjoin hbody
  | false => exact .after fun span => .pure (h.ifThen herrors hcondition hthen.body)

theorem conditional (bound : Nat) :
    Yields (Grammar.conditional nested block bound) (P.stmt inFunction) := by
  induction bound with
  | zero => exact h.conditionalWith hparts hblock h.strayOf
  | succ bound ih => exact h.conditionalWith hparts hblock ih

theorem loopOf : Yields (Grammar.loop nested block) (P.stmt inFunction) := by
  refine .after fun start => .bind (h.require .leftParen) fun (_, noOpening) hopening => ?_
  refine .bind (h.require .identifier) fun (name, noName) hname => ?_
  refine .bind (h.require .inWord) fun (_, noIn) hin => ?_
  refine .bind hparts.expression fun iterable hiterable => ?_
  refine .bind (h.require .rightParen) fun (_, noClosing) hclosing => ?_
  refine .bind hblock fun (body, badBody) hbody => .after fun span => .pure ?_
  have hhead := h.append (h.append (h.append hopening hname) hin) hclosing
  exact h.loop (h.append hhead hbody.reports) hiterable hbody.body

omit hblock in
theorem statementWith {block : Bool → BlockReader}
    (hblock : ∀ inside, Yields (block inside) (Body P inside)) (inFunction : Bool) :
    Yields (Grammar.statementWith nested block inFunction) (P.stmt inFunction) := by
  refine .after fun kind => ?_
  split
  · exact h.declarationOf hparts
  · exact h.functionOf (hblock true)
  · exact .after fun bound => h.conditional hparts (hblock inFunction) bound
  · exact h.loopOf hparts (hblock inFunction)
  · exact h.printOf hparts
  · exact h.named hparts
  · cases inFunction with
    | true => exact h.returning hparts
    | false => exact h.strayOf
  · exact h.strayOf

omit hparts hblock in
theorem blockOf (room : Nat) (inFunction : Bool) :
    Yields (Grammar.block room inFunction) (Body P inFunction) := by
  induction room generalizing inFunction with
  | zero => exact .after fun token => .pure ⟨nofun, h.unexpected token⟩
  | succ room ih =>
    refine .bind (h.require .leftBrace) fun (_, noOpening) hopening => .after fun bound => ?_
    have hitem := h.statementWith (h.parts room) ih inFunction
    refine .bind (.repeated hitem bound) fun body hbody => ?_
    refine .bind (h.require .rightBrace) fun (_, noClosing) hclosing => .pure ?_
    exact ⟨hbody, h.append hopening hclosing⟩

end Statements

theorem programMark (start : Span) :
    Yields (Grammar.programMark start) fun mark => P.reports mark.errors := by
  refine .after fun _ => ?_
  exact .pure h.clean

theorem expressionProgram : Yields Grammar.expressionProgram P.program := by
  refine .after fun start => .bind (h.parts maxNesting).expression fun body hbody => ?_
  exact .bind (h.programMark _) fun mark hmark => .pure ⟨hmark, hbody⟩

theorem statementProgram : Yields Grammar.statementProgram P.program := by
  have hitem := h.statementWith (h.parts maxNesting) (h.blockOf maxNesting) false
  have hbody : Yields statements fun body => ∀ s ∈ body, P.stmt false s :=
    .after fun bound => .repeated hitem bound
  refine .after fun start => .bind hbody fun body hbody => ?_
  exact .bind (h.programMark _) fun mark hmark => .pure ⟨hmark, hbody⟩

/-- Whatever is read, from however broken a text, has the property. -/
theorem program : Yields Grammar.program P.program := by
  refine .after fun start => ?_
  split
  · refine .bind h.expressionProgram fun read hread => .after fun rest => ?_
    split
    · exact .after fun _ => h.statementProgram
    · exact .pure hread
  · exact h.statementProgram

end Closed
end Property
end Grammar
end CatScript
