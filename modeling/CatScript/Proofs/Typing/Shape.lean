import CatScript.Proofs.Tree.Whole
import CatScript.Proofs.Typing.Steps

/-! # Typing keeps the tree

Typing changes the marks of a tree and nothing else, and of a mark only its errors and its type
(`Typing.program_shape`). -/
set_option autoImplicit false
namespace CatScript

theorem Info.bare_flag (problem : Problem) (info : Info) :
    (info.flag problem).bare = info.bare := rfl

theorem Info.bare_flagIf (wrong : Bool) (problem : Problem) (info : Info) :
    (info.flagIf wrong problem).bare = info.bare := by
  unfold Info.flagIf
  split <;> rfl

theorem Info.bare_typed (ty? : Option Ty) (info : Info) :
    Info.bare { info with ty := ty? } = info.bare := rfl

namespace Typing

theorem bare_flagTimes (problem : Problem) (times : Nat) (info : Info) :
    (flagTimes problem times info).bare = info.bare := by
  induction times generalizing info with
  | zero => rfl
  | succ times ih => exact ih _

namespace Typed

theorem map_flagIf (wrong : Bool) (problem : Problem) (typed : Typed) :
    (typed.flagIf wrong problem).expr.map Info.bare = typed.expr.map Info.bare :=
  Expr.map_adjust (fun mark => Info.bare_flagIf wrong problem mark) typed.expr

theorem map_expect (ty : Ty) (typed : Typed) :
    (typed.expect ty).expr.map Info.bare = typed.expr.map Info.bare :=
  map_flagIf _ _ typed

theorem map_fit (target : Ty) (typed : Typed) :
    (typed.fit target).expr.map Info.bare = typed.expr.map Info.bare :=
  map_flagIf _ _ typed

theorem map_asValue (typed : Typed) :
    typed.asValue.expr.map Info.bare = typed.expr.map Info.bare :=
  map_flagIf _ _ typed

theorem mapAll_asValue (items : List Typed) :
    Expr.mapAll Info.bare ((items.map asValue).map expr) =
      Expr.mapAll Info.bare (items.map expr) := by
  induction items with
  | nil => rfl
  | cons item rest ih =>
    simp only [List.map_cons, Expr.mapAll, map_asValue]
    rw [ih]

end Typed

theorem mapAll_fitAll : (args : List Typed) → (params : List Ty) →
    Expr.mapAll Info.bare (fitAll args params) = Expr.mapAll Info.bare (args.map Typed.expr)
  | [], _ => by simp only [fitAll, List.map_nil]
  | arg :: args, param :: params => by
    simp only [fitAll, List.map_cons, Expr.mapAll, Typed.map_fit]
    rw [mapAll_fitAll args params]
  | _ :: _, [] => by simp only [fitAll]

mutual

theorem expression_shape {symbols : Symbols} : (e : Expr Info) → {typed : Typed} →
    expression symbols e = .ok typed → typed.expr.map Info.bare = e.map Info.bare
  | .broken .., typed, h | .identifier .., typed, h | .integer .., typed, h | .string .., typed, h
  | .boolean .., typed, h | .null _, typed, h => by
    cases expression_step h <;> rfl
  | .list info items, typed, h => by
    cases expression_step h with
    | list hitems => simp only [Expr.map, Typed.mapAll_asValue, expressions_shape items hitems,
        Info.bare_typed]
  | .parenthesized info inner, typed, h => by
    cases expression_step h with
    | parenthesized hinner => simp only [Expr.map, expression_shape inner hinner, Info.bare_typed]
  | .unary info op operand, typed, h => by
    cases expression_step h with
    | unary hoperand => simp only [Expr.map, Typed.map_expect, expression_shape operand hoperand,
        Info.bare_typed]
  | .binary info op left right, typed, h => by
    cases expression_step h with
    | concat hleft hright => simp only [Expr.map, Typed.map_asValue, expression_shape left hleft,
        expression_shape right hright, Info.bare_typed]
    | arithmetic hleft hright => simp only [Expr.map, Typed.map_expect,
        expression_shape left hleft, expression_shape right hright, Info.bare_typed]
  | .comparison info op left right, typed, h => by
    cases expression_step h with
    | comparison hleft hright => simp only [Expr.map, Typed.map_expect,
        expression_shape left hleft, expression_shape right hright, Info.bare_typed]
  | .equality info op left right, typed, h => by
    cases expression_step h with
    | equality hleft hright => simp only [Expr.map, Typed.map_asValue,
        expression_shape left hleft, expression_shape right hright, Info.bare_typed]
  | .call info name args, typed, h => by
    cases expression_step h with
    | stray hargs => simp only [Expr.map, expressions_shape args hargs, Info.bare_typed,
        Info.bare_flag]
    | call hargs => simp only [Expr.map, mapAll_fitAll, expressions_shape args hargs,
        Info.bare_typed, Info.bare_flagIf]

theorem expressions_shape {symbols : Symbols} : (items : List (Expr Info)) →
    {values : List Typed} → expressions symbols items = .ok values →
    Expr.mapAll Info.bare (values.map Typed.expr) = Expr.mapAll Info.bare items
  | [], values, h => by
    rw [expressions_nil h]
    rfl
  | e :: rest, values, h => by
    obtain ⟨first, others, hfirst, hothers, rfl⟩ := expressions_cons h
    simp only [List.map_cons, Expr.mapAll, expression_shape e hfirst,
      expressions_shape rest hothers]

end

theorem returning_shape (expected : Option Ty) (info : Info) (value : Option Typed) :
    (returning expected info value).1.bare = info.bare ∧
      ((returning expected info value).2.map fun typed => typed.expr.map Info.bare) =
        value.map fun typed => typed.expr.map Info.bare := by
  unfold returning
  split
  · exact ⟨rfl, rfl⟩
  · exact ⟨rfl, rfl⟩
  · exact ⟨rfl, congrArg some (Typed.map_fit _ _)⟩
  · exact ⟨Info.bare_flagIf .., rfl⟩

mutual

theorem statement_shape : (s : Stmt Info) → {around : Surroundings} → {symbols after : Symbols} →
    {typed : Stmt Info} → statement around symbols s = .ok (after, typed) →
    typed.map Info.bare = s.map Info.bare
  | .declaration _ _ _ value, _, _, _, _, h => by
    cases statement_step h with
    | declaration hvalue => simp only [Stmt.map, Typed.map_asValue, expression_shape value hvalue,
        Info.bare_typed, Info.bare_flagIf]
  | .assignment _ _ value, _, _, _, _, h => by
    cases statement_step h with
    | assignment hvalue => simp only [Stmt.map, Typed.map_fit, expression_shape value hvalue,
        Info.bare_typed]
    | stray hvalue => simp only [Stmt.map, expression_shape value hvalue, Info.bare_typed,
        Info.bare_flag]
  | .function _ _ _ _ body, _, _, _, _, h => by
    cases statement_step h with
    | function hbody => simp only [Stmt.map, statements_shape body hbody, Info.bare_typed,
        Info.bare_flagIf, bare_flagTimes]
  | .ifThen _ condition thenBody, _, _, _, _, h => by
    cases statement_step h with
    | ifThen hcondition hthen => simp only [Stmt.map, Typed.map_expect,
        expression_shape condition hcondition, statements_shape thenBody hthen, Info.bare_typed]
  | .ifThenElse _ condition thenBody elseBody, _, _, _, _, h => by
    cases statement_step h with
    | ifThenElse hcondition hthen helse => simp only [Stmt.map, Typed.map_expect,
        expression_shape condition hcondition, statements_shape thenBody hthen,
        statements_shape elseBody helse, Info.bare_typed]
  | .loop info name iterable body, _, symbols, _, _, h => by
    cases statement_step h with
    | loop hiterable hty hbody =>
      simp only [Stmt.map, expression_shape iterable hiterable, statements_shape body hbody,
        Info.bare_typed]
      congr 1
      split
      · exact Info.bare_flagIf ..
      · exact Info.bare_flagIf ..
  | .print _ value, _, _, _, _, h => by
    cases statement_step h with
    | print hvalue => simp only [Stmt.map, Typed.map_asValue, expression_shape value hvalue,
        Info.bare_typed]
  | .call _ value, _, _, _, _, h => by
    cases statement_step h with
    | call hvalue => simp only [Stmt.map, expression_shape value hvalue, Info.bare_typed]
  | .returning info none, _, _, _, _, h => by
    cases statement_step h with
    | leave => simp only [Stmt.map, Info.bare_typed, (returning_shape _ info none).1]
  | .returning info (some value), _, _, _, _, h => by
    cases statement_step h with
    | @returning _ _ first expected hvalue _ =>
      obtain ⟨hinfo, hkept⟩ := returning_shape expected info (some first)
      generalize (returning expected info (some first)).2 = kept at hkept ⊢
      cases kept with
      | none => cases hkept
      | some kept =>
        have hkept : kept.expr.map Info.bare = first.expr.map Info.bare := Option.some.inj hkept
        simp only [Stmt.map, Option.map_some, hkept, expression_shape value hvalue,
          Info.bare_typed, hinfo]
  | .broken .., _, _, _, _, h | .bare _, _, _, _, _, h => by
    cases statement_step h
    rfl

theorem statements_shape : (body : List (Stmt Info)) → {around : Surroundings} →
    {symbols after : Symbols} → {typed : List (Stmt Info)} →
    statements around symbols body = .ok (after, typed) →
    Stmt.mapAll Info.bare typed = Stmt.mapAll Info.bare body
  | [], around, symbols, after, typed, h => by
    rw [(statements_nil h).2]
  | s :: rest, around, symbols, after, typed, h => by
    obtain ⟨middle, first, others, hfirst, hothers, rfl⟩ := statements_cons h
    simp only [Stmt.mapAll, statement_shape s hfirst, statements_shape rest hothers]

end

theorem register_shape (symbols : Symbols) (body : List (Stmt Info)) :
    Stmt.mapAll Info.bare (register symbols body).2 = Stmt.mapAll Info.bare body := by
  induction body generalizing symbols with
  | nil => rfl
  | cons s rest ih =>
    cases s with
    | function info name params returns inner =>
      simp only [register, Stmt.mapAll, Stmt.map, Info.bare_flagIf, ih]
    | _ => simp only [register, Stmt.mapAll, ih]

theorem register_whole {reported : Info → Prop} {inFunction : Bool} (symbols : Symbols)
    {body : List (Stmt Info)} (h : Stmt.WholeAll reported inFunction body) :
    Stmt.WholeAll reported inFunction (register symbols body).2 := by
  induction body generalizing symbols with
  | nil => exact h
  | cons s rest ih =>
    cases s with
    | function info name params returns body => exact ⟨h.1, ih _ h.2⟩
    | _ => exact ⟨h.1, ih symbols h.2⟩

/-- Typing changes of a program nothing but the errors and types of its marks. -/
theorem program_shape {returnType : Except Fault (Option Ty)} {p typed : Program Info}
    (h : program returnType p = .ok typed) : typed.map Info.bare = p.map Info.bare := by
  cases program_step h with
  | @expression _ body _ hbody =>
    simp only [Program.map, expression_shape body hbody, Info.bare_typed]
  | statements hbody =>
    simp only [Program.map, statements_shape _ hbody, register_shape, Info.bare_typed]

end Typing
end CatScript
