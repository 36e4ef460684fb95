import CatScript.Typing.Check

/-! # Steps of typing

What a typing that is no fault has made of a node, with one rule for each way through
(`Typing.ExpressionStep`, `Typing.StatementStep`, `Typing.ProgramStep`).  Whatever holds of typed
trees is read off these rules. -/
set_option autoImplicit false
namespace CatScript

theorem Except.bind_ok {ε α β : Type} {x : Except ε α} {f : α → Except ε β} {b : β}
    (h : (x >>= f) = .ok b) : ∃ a, x = .ok a ∧ f a = .ok b := by
  cases x with
  | error fault => cases h
  | ok a => exact ⟨a, rfl, h⟩

theorem Info.settle_ok {ty : Ty} {info settled : Info} (h : info.settle ty = .ok settled) :
    settled = { info with ty := some ty } := by
  unfold Info.settle at h
  split at h
  · cases h
  · exact (Except.ok.inj h).symm

namespace Typing

theorem settled_ok {ty : Ty} {info : Info} {build : Info → Expr Info} {typed : Typed}
    (h : settled ty info build = .ok typed) :
    typed = ⟨some ty, build { info with ty := some ty }⟩ := by
  obtain ⟨mark, hmark, h⟩ := Except.bind_ok h
  cases h
  rw [Info.settle_ok hmark]

section Expressions
variable {symbols : Symbols}

/-- What typing makes of an expression. -/
inductive ExpressionStep (symbols : Symbols) : Expr Info → Typed → Prop where
  | broken {info : Info} {text : String} :
      ExpressionStep symbols (.broken info text) ⟨none, .broken info text⟩
  | known {info : Info} {name : String} {ty : Ty} (hty : symbols.typeOf? name = some ty) :
      ExpressionStep symbols (.identifier info name)
        ⟨some ty, .identifier { info with ty := some ty } name⟩
  | unknown {info : Info} {name : String} (hty : symbols.typeOf? name = none) :
      ExpressionStep symbols (.identifier info name)
        ⟨some .object, .identifier { info.flag .unknownName with ty := some .object } name⟩
  | integer {info : Info} {value : Int64} :
      ExpressionStep symbols (.integer info value)
        ⟨some .int, .integer { info with ty := some .int } value⟩
  | string {info : Info} {text : String} :
      ExpressionStep symbols (.string info text)
        ⟨some .string, .string { info with ty := some .string } text⟩
  | boolean {info : Info} {value : Bool} :
      ExpressionStep symbols (.boolean info value)
        ⟨some .boolean, .boolean { info with ty := some .boolean } value⟩
  | null {info : Info} :
      ExpressionStep symbols (.null info) ⟨some .null, .null { info with ty := some .null }⟩
  | list {info : Info} {items : List (Expr Info)} {values : List Typed} {ty : Ty}
      (hitems : expressions symbols items = .ok values)
      (hty : ty = .list (component (values.map Typed.asValue))) :
      ExpressionStep symbols (.list info items)
        ⟨some ty, .list { info with ty := some ty } ((values.map Typed.asValue).map Typed.expr)⟩
  | parenthesized {info : Info} {inner : Expr Info} {value : Typed} {ty : Ty}
      (hinner : expression symbols inner = .ok value) (hty : ty = value.ty.getD .object) :
      ExpressionStep symbols (.parenthesized info inner)
        ⟨some ty, .parenthesized { info with ty := some ty } value.expr⟩
  | unary {info : Info} {op : UnaryOp} {operand : Expr Info} {value : Typed}
      (hoperand : expression symbols operand = .ok value) :
      ExpressionStep symbols (.unary info op operand)
        ⟨some (operandType op), .unary { info with ty := some (operandType op) } op
          (value.expect (operandType op)).expr⟩
  | concat {info : Info} {op : BinaryOp} {left right : Expr Info} {a b : Typed}
      (hleft : expression symbols left = .ok a) (hright : expression symbols right = .ok b)
      (hjoins : op = .add ∧ (a.ty = some .string ∨ b.ty = some .string)) :
      ExpressionStep symbols (.binary info op left right)
        ⟨some .string, .binary { info with ty := some .string } op a.asValue.expr b.asValue.expr⟩
  | arithmetic {info : Info} {op : BinaryOp} {left right : Expr Info} {a b : Typed}
      (hleft : expression symbols left = .ok a) (hright : expression symbols right = .ok b)
      (hjoins : ¬(op = .add ∧ (a.ty = some .string ∨ b.ty = some .string))) :
      ExpressionStep symbols (.binary info op left right)
        ⟨some .int, .binary { info with ty := some .int } op (a.expect .int).expr
          (b.expect .int).expr⟩
  | comparison {info : Info} {op : ComparisonOp} {left right : Expr Info} {a b : Typed}
      (hleft : expression symbols left = .ok a) (hright : expression symbols right = .ok b) :
      ExpressionStep symbols (.comparison info op left right)
        ⟨some .boolean, .comparison { info with ty := some .boolean } op (a.expect .int).expr
          (b.expect .int).expr⟩
  | equality {info : Info} {op : EqualityOp} {left right : Expr Info} {a b : Typed}
      (hleft : expression symbols left = .ok a) (hright : expression symbols right = .ok b) :
      ExpressionStep symbols (.equality info op left right)
        ⟨some .boolean, .equality { info with ty := some .boolean } op a.asValue.expr
          b.asValue.expr⟩
  | stray {info : Info} {name : String} {args : List (Expr Info)} {values : List Typed}
      (hargs : expressions symbols args = .ok values) (hname : symbols.function? name = none) :
      ExpressionStep symbols (.call info name args)
        ⟨some .object, .call { info.flag .unknownName with ty := some .object } name
          (values.map Typed.expr)⟩
  | call {info : Info} {name : String} {args : List (Expr Info)} {values : List Typed}
      {signature : Signature} (hargs : expressions symbols args = .ok values)
      (hname : symbols.function? name = some signature) :
      ExpressionStep symbols (.call info name args)
        ⟨some signature.returns, .call
          { info.flagIf (signature.params.length != values.length) .argMismatch with
            ty := some signature.returns } name (fitAll values signature.params)⟩

theorem expression_step {e : Expr Info} {typed : Typed} (h : expression symbols e = .ok typed) :
    ExpressionStep symbols e typed := by
  cases e with
  | broken =>
    rw [expression] at h
    cases h
    exact .broken
  | identifier =>
    rw [expression] at h
    split at h
    · next ty hty =>
      rw [settled_ok h]
      exact .known hty
    · next hty =>
      rw [settled_ok h]
      exact .unknown hty
  | integer =>
    rw [expression] at h
    rw [settled_ok h]
    exact .integer
  | string =>
    rw [expression] at h
    rw [settled_ok h]
    exact .string
  | boolean =>
    rw [expression] at h
    rw [settled_ok h]
    exact .boolean
  | null =>
    rw [expression] at h
    rw [settled_ok h]
    exact .null
  | list =>
    rw [expression] at h
    obtain ⟨values, hvalues, h⟩ := Except.bind_ok h
    rw [settled_ok h]
    exact .list hvalues rfl
  | parenthesized =>
    rw [expression] at h
    obtain ⟨value, hvalue, h⟩ := Except.bind_ok h
    rw [settled_ok h]
    exact .parenthesized hvalue rfl
  | unary =>
    rw [expression] at h
    obtain ⟨value, hvalue, h⟩ := Except.bind_ok h
    rw [settled_ok h]
    exact .unary hvalue
  | binary =>
    rw [expression] at h
    obtain ⟨a, ha, h⟩ := Except.bind_ok h
    obtain ⟨b, hb, h⟩ := Except.bind_ok h
    split at h
    · next hjoins =>
      rw [settled_ok h]
      exact .concat ha hb hjoins
    · next hjoins =>
      rw [settled_ok h]
      exact .arithmetic ha hb hjoins
  | comparison =>
    rw [expression] at h
    obtain ⟨a, ha, h⟩ := Except.bind_ok h
    obtain ⟨b, hb, h⟩ := Except.bind_ok h
    rw [settled_ok h]
    exact .comparison ha hb
  | equality =>
    rw [expression] at h
    obtain ⟨a, ha, h⟩ := Except.bind_ok h
    obtain ⟨b, hb, h⟩ := Except.bind_ok h
    rw [settled_ok h]
    exact .equality ha hb
  | call =>
    rw [expression] at h
    obtain ⟨values, hvalues, h⟩ := Except.bind_ok h
    split at h
    · next hname =>
      rw [settled_ok h]
      exact .stray hvalues hname
    · next signature hname =>
      rw [settled_ok h]
      exact .call hvalues hname

theorem expressions_nil {values : List Typed} (h : expressions symbols [] = .ok values) :
    values = [] := by
  rw [expressions] at h
  cases h
  rfl

theorem expressions_cons {e : Expr Info} {rest : List (Expr Info)} {values : List Typed}
    (h : expressions symbols (e :: rest) = .ok values) :
    ∃ first others, expression symbols e = .ok first ∧ expressions symbols rest = .ok others ∧
      values = first :: others := by
  rw [expressions] at h
  obtain ⟨first, hfirst, h⟩ := Except.bind_ok h
  obtain ⟨others, hothers, h⟩ := Except.bind_ok h
  cases h
  exact ⟨first, others, hfirst, hothers, rfl⟩

end Expressions

section Statements
variable {around : Surroundings} {symbols : Symbols}

inductive StatementStep (around : Surroundings) (symbols : Symbols) :
    Stmt Info → Symbols → Stmt Info → Prop where
  | declaration {info : Info} {name : String} {ty? : Option Ty} {value : Expr Info}
      {first : Typed} {ty : Ty} (hvalue : expression symbols value = .ok first)
      (hty : ty = declaredType ty? first.ty) :
      StatementStep around symbols (.declaration info name ty? value)
        (if symbols.declaredHere name then symbols else symbols.declare name ty)
        (.declaration
          { (info.flagIf (ty?.any fun ty => first.ty.any fun given => !ty.accepts given)
              .incompatibleTypes).flagIf (symbols.declaredHere name) .duplicateName with
            ty := some ty } name ty? first.asValue.expr)
  | assignment {info : Info} {name : String} {value : Expr Info} {first : Typed} {ty : Ty}
      (hvalue : expression symbols value = .ok first) (hty : symbols.typeOf? name = some ty) :
      StatementStep around symbols (.assignment info name value) symbols
        (.assignment { info with ty := some ty } name (first.fit ty).expr)
  | stray {info : Info} {name : String} {value : Expr Info} {first : Typed}
      (hvalue : expression symbols value = .ok first) (hty : symbols.typeOf? name = none) :
      StatementStep around symbols (.assignment info name value) symbols
        (.assignment { info.flag .unknownName with ty := some .object } name first.expr)
  | function {info : Info} {name : String} {params : List Parameter} {returns : Ty}
      {body inner : List (Stmt Info)} {last : Symbols}
      (hbody : statements (.ofFunction returns) (bindParameters symbols.enter params).1 body =
        .ok (last, inner)) :
      StatementStep around symbols (.function info name params returns body) symbols
        (.function
          { (flagTimes .duplicateName (bindParameters symbols.enter params).2
              (info.flagIf (!around.topLevel) .nestedFunction)).flagIf
                (returns != .void && !alwaysReturns body) .missingReturnStatement with
            ty := some returns } name params returns inner)
  | ifThen {info : Info} {condition : Expr Info} {thenBody inner : List (Stmt Info)}
      {test : Typed} {last : Symbols} (hcondition : expression symbols condition = .ok test)
      (hthen : statements around.inside symbols.enter thenBody = .ok (last, inner)) :
      StatementStep around symbols (.ifThen info condition thenBody) symbols
        (.ifThen { info with ty := some .void } (test.expect .boolean).expr inner)
  | ifThenElse {info : Info} {condition : Expr Info} {thenBody elseBody : List (Stmt Info)}
      {first second : List (Stmt Info)} {test : Typed} {last last' : Symbols}
      (hcondition : expression symbols condition = .ok test)
      (hthen : statements around.inside symbols.enter thenBody = .ok (last, first))
      (helse : statements around.inside symbols.enter elseBody = .ok (last', second)) :
      StatementStep around symbols (.ifThenElse info condition thenBody elseBody) symbols
        (.ifThenElse { info with ty := some .void } (test.expect .boolean).expr first second)
  | loop {info : Info} {name : String} {iterable : Expr Info} {body inner : List (Stmt Info)}
      {items : Typed} {last : Symbols} {ty : Ty}
      (hiterable : expression symbols iterable = .ok items)
      (hty : ty = (items.ty.bind Ty.component?).getD .object)
      (hbody : statements around.inside (symbols.enter.declare name ty) body =
        .ok (last, inner)) :
      StatementStep around symbols (.loop info name iterable body) symbols
        (.loop
          { (let info := info.flagIf (symbols.typeOf? name).isSome .duplicateName
              if items.ty.isSome && (items.ty.bind Ty.component?).isNone then
                { info with errors := info.errors ++ [⟨.incompatibleTypes, info.span.startPoint⟩] }
              else info) with
            ty := some ty } name items.expr inner)
  | print {info : Info} {value : Expr Info} {first : Typed}
      (hvalue : expression symbols value = .ok first) :
      StatementStep around symbols (.print info value) symbols
        (.print { info with ty := some .void } first.asValue.expr)
  | call {info : Info} {value : Expr Info} {first : Typed}
      (hvalue : expression symbols value = .ok first) :
      StatementStep around symbols (.call info value) symbols
        (.call { info with ty := some .void } first.expr)
  | leave {info : Info} {expected : Option Ty} (hreturns : around.returnType = .ok expected) :
      StatementStep around symbols (.returning info none) symbols
        (.returning { (returning expected info none).1 with ty := some .void } none)
  | returning {info : Info} {value : Expr Info} {first : Typed} {expected : Option Ty}
      (hvalue : expression symbols value = .ok first)
      (hreturns : around.returnType = .ok expected) :
      StatementStep around symbols (.returning info (some value)) symbols
        (.returning { (returning expected info (some first)).1 with ty := some .void }
          ((returning expected info (some first)).2.map Typed.expr))
  | broken {info : Info} {text : String} :
      StatementStep around symbols (.broken info text) symbols
        (.broken { info with ty := some .void } text)
  | bare {value : Expr Info} : StatementStep around symbols (.bare value) symbols (.bare value)

theorem statement_step {s typed : Stmt Info} {after : Symbols}
    (h : statement around symbols s = .ok (after, typed)) :
    StatementStep around symbols s after typed := by
  cases s with
  | declaration =>
    rw [statement] at h
    obtain ⟨first, hfirst, h⟩ := Except.bind_ok h
    obtain ⟨mark, hmark, h⟩ := Except.bind_ok h
    cases h
    cases Info.settle_ok hmark
    exact .declaration hfirst rfl
  | assignment =>
    rw [statement] at h
    obtain ⟨first, hfirst, h⟩ := Except.bind_ok h
    split at h
    · next ty hty =>
      obtain ⟨mark, hmark, h⟩ := Except.bind_ok h
      cases h
      cases Info.settle_ok hmark
      exact .assignment hfirst hty
    · next hty =>
      obtain ⟨mark, hmark, h⟩ := Except.bind_ok h
      cases h
      cases Info.settle_ok hmark
      exact .stray hfirst hty
  | function =>
    rw [statement] at h
    obtain ⟨⟨last, inner⟩, hbody, h⟩ := Except.bind_ok h
    obtain ⟨mark, hmark, h⟩ := Except.bind_ok h
    cases h
    cases Info.settle_ok hmark
    exact .function hbody
  | ifThen =>
    rw [statement] at h
    obtain ⟨test, htest, h⟩ := Except.bind_ok h
    obtain ⟨⟨last, inner⟩, hthen, h⟩ := Except.bind_ok h
    obtain ⟨mark, hmark, h⟩ := Except.bind_ok h
    cases h
    cases Info.settle_ok hmark
    exact .ifThen htest hthen
  | ifThenElse =>
    rw [statement] at h
    obtain ⟨test, htest, h⟩ := Except.bind_ok h
    obtain ⟨⟨last, first⟩, hthen, h⟩ := Except.bind_ok h
    obtain ⟨⟨last', second⟩, helse, h⟩ := Except.bind_ok h
    obtain ⟨mark, hmark, h⟩ := Except.bind_ok h
    cases h
    cases Info.settle_ok hmark
    exact .ifThenElse htest hthen helse
  | loop =>
    rw [statement] at h
    obtain ⟨items, hitems, h⟩ := Except.bind_ok h
    obtain ⟨⟨last, inner⟩, hbody, h⟩ := Except.bind_ok h
    obtain ⟨mark, hmark, h⟩ := Except.bind_ok h
    cases h
    cases Info.settle_ok hmark
    exact .loop hitems rfl hbody
  | print =>
    rw [statement] at h
    obtain ⟨first, hfirst, h⟩ := Except.bind_ok h
    obtain ⟨mark, hmark, h⟩ := Except.bind_ok h
    cases h
    cases Info.settle_ok hmark
    exact .print hfirst
  | call =>
    rw [statement] at h
    obtain ⟨first, hfirst, h⟩ := Except.bind_ok h
    obtain ⟨mark, hmark, h⟩ := Except.bind_ok h
    cases h
    cases Info.settle_ok hmark
    exact .call hfirst
  | returning info value =>
    cases value with
    | none =>
      rw [statement] at h
      obtain ⟨expected, hreturns, h⟩ := Except.bind_ok h
      obtain ⟨mark, hmark, h⟩ := Except.bind_ok h
      cases h
      cases Info.settle_ok hmark
      exact .leave hreturns
    | some value =>
      rw [statement] at h
      obtain ⟨first, hfirst, h⟩ := Except.bind_ok h
      obtain ⟨expected, hreturns, h⟩ := Except.bind_ok h
      obtain ⟨mark, hmark, h⟩ := Except.bind_ok h
      cases h
      cases Info.settle_ok hmark
      exact .returning hfirst hreturns
  | broken =>
    rw [statement] at h
    obtain ⟨mark, hmark, h⟩ := Except.bind_ok h
    cases h
    cases Info.settle_ok hmark
    exact .broken
  | bare =>
    rw [statement] at h
    cases h
    exact .bare

theorem statements_nil {after : Symbols} {typed : List (Stmt Info)}
    (h : statements around symbols [] = .ok (after, typed)) : after = symbols ∧ typed = [] := by
  rw [statements] at h
  cases h
  exact ⟨rfl, rfl⟩

theorem statements_cons {s : Stmt Info} {rest typed : List (Stmt Info)} {after : Symbols}
    (h : statements around symbols (s :: rest) = .ok (after, typed)) :
    ∃ middle first others, statement around symbols s = .ok (middle, first) ∧
      statements around middle rest = .ok (after, others) ∧ typed = first :: others := by
  rw [statements] at h
  obtain ⟨⟨middle, first⟩, hfirst, h⟩ := Except.bind_ok h
  obtain ⟨⟨last, others⟩, hothers, h⟩ := Except.bind_ok h
  cases h
  exact ⟨middle, first, others, hfirst, hothers, rfl⟩

end Statements

inductive ProgramStep (returnType : Except Fault (Option Ty)) :
    Program Info → Program Info → Prop where
  | expression {info : Info} {body : Expr Info} {value : Typed}
      (hbody : Typing.expression .empty body = .ok value) :
      ProgramStep returnType (.expression info body)
        (.expression { info with ty := some .void } value.expr)
  | statements {info : Info} {body inner : List (Stmt Info)} {last : Symbols}
      (hbody : Typing.statements (.ofProgram returnType) (register .empty body).1
        (register .empty body).2 = .ok (last, inner)) :
      ProgramStep returnType (.statements info body)
        (.statements { info with ty := some .void } inner)

theorem program_step {returnType : Except Fault (Option Ty)} {p typed : Program Info}
    (h : program returnType p = .ok typed) : ProgramStep returnType p typed := by
  cases p with
  | expression =>
    rw [program] at h
    obtain ⟨value, hvalue, h⟩ := Except.bind_ok h
    obtain ⟨mark, hmark, h⟩ := Except.bind_ok h
    cases h
    cases Info.settle_ok hmark
    exact .expression hvalue
  | statements =>
    rw [program] at h
    obtain ⟨⟨last, inner⟩, hbody, h⟩ := Except.bind_ok h
    obtain ⟨mark, hmark, h⟩ := Except.bind_ok h
    cases h
    cases Info.settle_ok hmark
    exact .statements hbody

end Typing
end CatScript
