import CatScript.Proofs.Typing.Checking.Rules
import CatScript.Proofs.Typing.Shape

/-! # Expressions typed in place

What typing makes of an expression is what the checker writes into the arena
(`Checking.expression_ends`).  The parts of an expression are typed one after the other while the
marks of the others stay as they are, and so does its own until its type is known. -/
set_option autoImplicit false
namespace CatScript
open Typing (Typed expression_step)

namespace Checking
variable {arena : Arena} {place : List Info → List Info} {symbols : Symbols}

section Parts
variable {e left right : Expr Info} {first a b : Typed}

theorem id_eq (h : first.expr.map Info.bare = e.map Info.bare) : first.expr.mark.id = e.mark.id := by
  have hmark := congrArg (fun e : Expr Info => e.mark.id) h
  simp only [Expr.mark_map] at hmark
  exact hmark

theorem check_ends (hsame : first.expr.map Info.bare = e.map Info.bare)
    (h : Room arena place e.marks) (wrong : Bool) (problem : Problem) :
    Ends (fun _ => reportIf wrong e.mark.id problem)
      ⟨arena.recordAll (place first.expr.marks), symbols⟩ ()
      ⟨arena.recordAll (place (first.flagIf wrong problem).expr.marks), symbols⟩ := by
  have hroom := h.refill (.of_expr hsame)
  have hmarks : (first.flagIf wrong problem).expr.marks =
      first.expr.mark.flagIf wrong problem :: first.expr.marks.tail := Expr.marks_adjust _ _
  rw [first.expr.marks_eq_cons] at hroom ⊢
  rw [hmarks, ← id_eq hsame]
  exact reportIf_ends hroom (.refl _) (.refl _) wrong problem

theorem operands_ends {info : Info} (ha : a.expr.map Info.bare = left.map Info.bare)
    (hb : b.expr.map Info.bare = right.map Info.bare)
    (h : Room arena place (info :: (left.marks ++ right.marks))) (hty : info.ty = none) (ty : Ty)
    (wrong wrong' : Bool) (problem : Problem) :
    Ends (fun _ => do
        reportIf wrong left.mark.id problem
        reportIf wrong' right.mark.id problem
        typed info.id ty)
      ⟨arena.recordAll (place (info :: (a.expr.marks ++ b.expr.marks))), symbols⟩ (some ty)
      ⟨arena.recordAll (place ({ info with ty := some ty } ::
        ((a.flagIf wrong problem).expr.marks ++ (b.flagIf wrong' problem).expr.marks))),
        symbols⟩ := by
  have hchecked := (Typed.map_flagIf wrong problem a).trans ha
  have hchecked' := (Typed.map_flagIf wrong' problem b).trans hb
  have hleft := h.tail.left (.of_expr hb)
  have hright := h.tail.right (.of_expr hchecked)
  refine .bind (check_ends ha hleft wrong problem) ?_
  refine .bind (check_ends hb hright wrong' problem) ?_
  exact typed_ends h hty (.refl info) ((SameNodes.of_expr hchecked).append (.of_expr hchecked')) ty

end Parts

section Lists

def joinAll (component? : Option Ty) (values : List Typed) : Option Ty :=
  (values.filterMap Typed.ty).foldl (fun component? ty => some (joined component? ty)) component?

theorem joinAll_none (values : List Typed) :
    (joinAll none values).getD .object = Typing.component (values.map Typed.asValue) := by
  have hty : ((fun typed : Typed => typed.ty) ∘ Typed.asValue) = Typed.ty := rfl
  have hfold : ∀ (types : List Ty) (ty : Ty),
      types.foldl (fun component? ty => some (joined component? ty)) (some ty) =
        some (types.foldl Ty.join ty) := by
    intro types
    induction types with
    | nil => intro ty; rfl
    | cons first rest ih => intro ty; exact ih (ty.join first)
  unfold joinAll Typing.component
  rw [List.filterMap_map, hty]
  cases values.filterMap Typed.ty with
  | nil => rfl
  | cons first rest => exact congrArg (Option.getD · Ty.object) (hfold rest first)

theorem length_ids {args : List (Expr Info)} {values : List Typed}
    (hsame : Expr.mapAll Info.bare (values.map Typed.expr) = Expr.mapAll Info.bare args) :
    (Expr.ids args).length = values.length := by
  induction args generalizing values with
  | nil => cases values with
    | nil => rfl
    | cons first rest => cases hsame
  | cons arg args ih =>
    cases values with
    | nil => cases hsame
    | cons first rest => exact congrArg Nat.succ (ih (List.cons.inj hsame).2)

/-- Each argument is compared with its parameter after all have been typed. -/
theorem fitAll_ends : (args : List (Expr Info)) → (values : List Typed) →
    Expr.mapAll Info.bare (values.map Typed.expr) = Expr.mapAll Info.bare args →
    (params : List Ty) → {place : List Info → List Info} →
    Room arena place (Expr.marksAll args) →
    Ends (fun _ => fitAll (Expr.ids args) (values.map Typed.ty) params)
      ⟨arena.recordAll (place (Expr.marksAll (values.map Typed.expr))), symbols⟩ ()
      ⟨arena.recordAll (place (Expr.marksAll (Typing.fitAll values params))), symbols⟩
  | [], [], _, _, _, _ => .pure
  | _ :: _, _ :: _, _, [], _, _ => .pure
  | arg :: args, first :: values, hsame, param :: params, place, h => by
    obtain ⟨hfirst, hrest⟩ := List.cons.inj hsame
    have hchecked := (Typed.map_fit param first).trans hfirst
    refine .bind (check_ends hfirst (h.left (.of_exprs hrest)) _ _) ?_
    exact fitAll_ends args values hrest params (h.right (.of_expr hchecked))

end Lists

section Rules
variable {info : Info} {left right inner : Expr Info} {parts : List (Expr Info)}

/-- The expression is typed in place as the tree is. -/
def ExpressionEnds (arena : Arena) (symbols : Symbols) (e : Expr Info) : Prop :=
  ∀ (first : Typed) (place : List Info → List Info), arena.Shapes e.rows → Untyped e.marks →
    Typing.expression symbols e = .ok first → Room arena place e.marks →
    Ends (expression e.mark.id) ⟨arena.recordAll (place e.marks), symbols⟩ first.ty
      ⟨arena.recordAll (place first.expr.marks), symbols⟩

def ItemsEnd (arena : Arena) (symbols : Symbols) (list : List (Expr Info)) : Prop :=
  ∀ (values : List Typed) (place : List Info → List Info), arena.Shapes (Expr.rowsAll list) →
    Untyped (Expr.marksAll list) → Typing.expressions symbols list = .ok values →
    Room arena place (Expr.marksAll list) → ∀ component?,
    Ends (items component? (Expr.ids list))
      ⟨arena.recordAll (place (Expr.marksAll list)), symbols⟩ (joinAll component? values)
      ⟨arena.recordAll (place (Expr.marksAll ((values.map Typed.asValue).map Typed.expr))),
        symbols⟩

def ArgumentsEnd (arena : Arena) (symbols : Symbols) (list : List (Expr Info)) : Prop :=
  ∀ (values : List Typed) (place : List Info → List Info), arena.Shapes (Expr.rowsAll list) →
    Untyped (Expr.marksAll list) → Typing.expressions symbols list = .ok values →
    Room arena place (Expr.marksAll list) →
    Ends (arguments (Expr.ids list)) ⟨arena.recordAll (place (Expr.marksAll list)), symbols⟩
      (values.map Typed.ty)
      ⟨arena.recordAll (place (Expr.marksAll (values.map Typed.expr))), symbols⟩

/-- Two operands are typed before anything is said of them. -/
theorem ExpressionEnds.pair {a b : Typed} {rest : Nat → Option Ty → Option Ty → Checking (Option Ty)}
    {result : Option Ty} {last : Checker} (hl : ExpressionEnds arena symbols left)
    (hr : ExpressionEnds arena symbols right) (hshapes : arena.Shapes (left.rows ++ right.rows))
    (huntyped : Untyped (left.marks ++ right.marks))
    (hleft : Typing.expression symbols left = .ok a)
    (hright : Typing.expression symbols right = .ok b)
    (hroom : Room arena place (info :: (left.marks ++ right.marks)))
    (hrest : Ends (fun calls => rest calls a.ty b.ty)
      ⟨arena.recordAll (place (info :: (a.expr.marks ++ b.expr.marks))), symbols⟩ result last) :
    Ends (fun calls => do
        let left? ← expression left.mark.id calls
        let right? ← expression right.mark.id calls
        rest calls left? right?)
      ⟨arena.recordAll (place (info :: (left.marks ++ right.marks))), symbols⟩ result last := by
  have ha := SameNodes.of_expr (Typing.expression_shape left hleft)
  refine .bind (hl a _ hshapes.left huntyped.left hleft (hroom.tail.left (.refl _))) ?_
  refine .bind (hr b _ hshapes.right huntyped.right hright (hroom.tail.right ha)) ?_
  exact hrest

theorem ExpressionEnds.identifier (info : Info) (name : String) :
    ExpressionEnds arena symbols (.identifier info name) := by
  intro first place hshapes huntyped h hroom
  refine .call (fun _ => rfl) (.bind (kindAt_ends hshapes.head) ?_)
  refine .bind (.of_ok rfl) ?_
  cases expression_step h with
  | known hty =>
    simp only [hty]
    exact typed_ends hroom huntyped.head (.refl _) (.refl _) _
  | unknown hty =>
    simp only [hty]
    refine .bind (report_ends hroom (.refl _) (.refl _) _) ?_
    exact typed_ends hroom huntyped.head ((Info.Grows.refl info).flag _) (.refl _) _

theorem ExpressionEnds.list (info : Info) (h : ItemsEnd arena symbols parts) :
    ExpressionEnds arena symbols (.list info parts) := by
  intro first place hshapes huntyped hfirst hroom
  cases expression_step hfirst with
  | @list _ _ values _ hitems hty =>
    have hsame := (Typed.mapAll_asValue values).trans (Typing.expressions_shape parts hitems)
    refine .call (fun _ => rfl) (.bind (kindAt_ends hshapes.head) ?_)
    refine .bind (h values _ hshapes.tail huntyped.tail hitems hroom.tail none) ?_
    rw [joinAll_none, ← hty]
    exact typed_ends hroom huntyped.head (.refl _) (.of_exprs hsame) _

theorem ExpressionEnds.parenthesized (info : Info) (h : ExpressionEnds arena symbols inner) :
    ExpressionEnds arena symbols (.parenthesized info inner) := by
  intro first place hshapes huntyped hfirst hroom
  cases expression_step hfirst with
  | parenthesized hinner hty =>
    have hsame := Typing.expression_shape inner hinner
    refine .call (fun _ => rfl) (.bind (kindAt_ends hshapes.head) ?_)
    refine .bind (h _ _ hshapes.tail huntyped.tail hinner hroom.tail) ?_
    rw [← hty]
    exact typed_ends hroom huntyped.head (.refl _) (.of_expr hsame) _

theorem ExpressionEnds.unary (info : Info) (op : UnaryOp) (h : ExpressionEnds arena symbols inner) :
    ExpressionEnds arena symbols (.unary info op inner) := by
  intro first place hshapes huntyped hfirst hroom
  cases expression_step hfirst with
  | @unary _ _ _ value hinner =>
    have hsame := Typing.expression_shape inner hinner
    have hchecked := (Typed.map_expect (Typing.operandType op) value).trans hsame
    refine .call (fun _ => rfl) (.bind (kindAt_ends hshapes.head) ?_)
    refine .bind (h _ _ hshapes.tail huntyped.tail hinner hroom.tail) ?_
    refine .bind (check_ends hsame hroom.tail _ _) ?_
    exact typed_ends hroom huntyped.head (.refl _) (.of_expr hchecked) _

theorem ExpressionEnds.binary (info : Info) (op : BinaryOp) (hl : ExpressionEnds arena symbols left)
    (hr : ExpressionEnds arena symbols right) :
    ExpressionEnds arena symbols (.binary info op left right) := by
  intro first place hshapes huntyped hfirst hroom
  refine .call (fun _ => rfl) (.bind (kindAt_ends hshapes.head) ?_)
  cases expression_step hfirst with
  | concat hleft hright hjoins =>
    have ha := Typing.expression_shape left hleft
    have hb := Typing.expression_shape right hright
    refine hl.pair hr hshapes.tail huntyped.tail hleft hright hroom ?_
    simp only [if_pos hjoins]
    exact operands_ends ha hb hroom huntyped.head _ _ _ _
  | arithmetic hleft hright hjoins =>
    have ha := Typing.expression_shape left hleft
    have hb := Typing.expression_shape right hright
    refine hl.pair hr hshapes.tail huntyped.tail hleft hright hroom ?_
    simp only [if_neg hjoins]
    exact operands_ends ha hb hroom huntyped.head _ _ _ _

theorem ExpressionEnds.comparison (info : Info) (op : ComparisonOp)
    (hl : ExpressionEnds arena symbols left) (hr : ExpressionEnds arena symbols right) :
    ExpressionEnds arena symbols (.comparison info op left right) := by
  intro first place hshapes huntyped hfirst hroom
  cases expression_step hfirst with
  | comparison hleft hright =>
    have ha := Typing.expression_shape left hleft
    have hb := Typing.expression_shape right hright
    refine .call (fun _ => rfl) (.bind (kindAt_ends hshapes.head) ?_)
    refine hl.pair hr hshapes.tail huntyped.tail hleft hright hroom ?_
    exact operands_ends ha hb hroom huntyped.head _ _ _ _

theorem ExpressionEnds.equality (info : Info) (op : EqualityOp)
    (hl : ExpressionEnds arena symbols left) (hr : ExpressionEnds arena symbols right) :
    ExpressionEnds arena symbols (.equality info op left right) := by
  intro first place hshapes huntyped hfirst hroom
  cases expression_step hfirst with
  | equality hleft hright =>
    have ha := Typing.expression_shape left hleft
    have hb := Typing.expression_shape right hright
    refine .call (fun _ => rfl) (.bind (kindAt_ends hshapes.head) ?_)
    refine hl.pair hr hshapes.tail huntyped.tail hleft hright hroom ?_
    exact operands_ends ha hb hroom huntyped.head _ _ _ _

theorem ExpressionEnds.call (info : Info) (name : String) (h : ArgumentsEnd arena symbols parts) :
    ExpressionEnds arena symbols (.call info name parts) := by
  intro first place hshapes huntyped hfirst hroom
  refine .call (fun _ => rfl) (.bind (kindAt_ends hshapes.head) ?_)
  cases expression_step hfirst with
  | stray hargs hname =>
    have hsame := Typing.expressions_shape parts hargs
    refine .bind (h _ _ hshapes.tail huntyped.tail hargs hroom.tail) ?_
    refine .bind (.of_ok rfl) ?_
    simp only [hname]
    refine .bind (report_ends hroom (.refl _) (.of_exprs hsame) _) ?_
    exact typed_ends hroom huntyped.head ((Info.Grows.refl info).flag _) (.of_exprs hsame) _
  | @call _ _ _ values signature hargs hname =>
    have hsame := Typing.expressions_shape parts hargs
    have hfitted := (Typing.mapAll_fitAll values signature.params).trans hsame
    have hgrows := (Info.Grows.refl info).flagIf
      (signature.params.length != values.length) .argMismatch
    have hroom' := (hroom.refill (.cons hgrows.bare (.refl _))).tail
    refine .bind (h _ _ hshapes.tail huntyped.tail hargs hroom.tail) ?_
    refine .bind (.of_ok rfl) ?_
    simp only [hname, length_ids hsame]
    refine .bind (reportIf_ends hroom (.refl _) (.of_exprs hsame) _ _) ?_
    refine .bind (fitAll_ends parts values hsame signature.params hroom') ?_
    exact typed_ends hroom huntyped.head hgrows (.of_exprs hfitted) _

theorem ItemsEnd.cons (h : ExpressionEnds arena symbols inner) (hrest : ItemsEnd arena symbols parts) :
    ItemsEnd arena symbols (inner :: parts) := by
  intro values place hshapes huntyped hvalues hroom component?
  obtain ⟨first, others, hfirst, hothers, rfl⟩ := Typing.expressions_cons hvalues
  have hsame := Typing.expression_shape inner hfirst
  have hchecked := (Typed.map_asValue first).trans hsame
  refine .call (fun _ => rfl) ?_
  refine .bind (h _ _ hshapes.left huntyped.left hfirst (hroom.left (.refl _))) ?_
  have hafter := hrest others _ hshapes.right huntyped.right hothers
    (hroom.right (.of_expr hchecked))
  obtain ⟨ty?, expr⟩ := first
  cases ty? with
  | none =>
    have hkept : (Typed.asValue ⟨none, expr⟩).expr = expr := Expr.adjust_self rfl
    rw [hkept] at hafter
    rw [List.map_cons, List.map_cons, hkept]
    exact hafter component?
  | some ty => exact .bind (check_ends hsame (hroom.left (.refl _)) _ _) (hafter _)

theorem ArgumentsEnd.cons (h : ExpressionEnds arena symbols inner)
    (hrest : ArgumentsEnd arena symbols parts) : ArgumentsEnd arena symbols (inner :: parts) := by
  intro values place hshapes huntyped hvalues hroom
  obtain ⟨first, others, hfirst, hothers, rfl⟩ := Typing.expressions_cons hvalues
  have hsame := SameNodes.of_expr (Typing.expression_shape inner hfirst)
  refine .call (fun _ => rfl) ?_
  refine .bind (h _ _ hshapes.left huntyped.left hfirst (hroom.left (.refl _))) ?_
  exact .bind (hrest _ _ hshapes.right huntyped.right hothers (hroom.right hsame)) .pure

end Rules

mutual

theorem expression_ends : (e : Expr Info) → ExpressionEnds arena symbols e
  | .broken info text => fun _ _ hshapes _ h _ => by
    cases expression_step h
    exact .call (fun _ => rfl) (.bind (kindAt_ends hshapes.head) .pure)
  | .integer info _ | .string info _ | .boolean info _ | .null info =>
    fun _ _ hshapes huntyped h hroom => by
      cases expression_step h
      refine .call (fun _ => rfl) (.bind (kindAt_ends hshapes.head) ?_)
      exact typed_ends hroom huntyped.head (.refl _) (.refl _) _
  | .identifier info name => .identifier info name
  | .list info items => .list info (items_end items)
  | .parenthesized info inner => .parenthesized info (expression_ends inner)
  | .unary info op operand => .unary info op (expression_ends operand)
  | .binary info op left right =>
    .binary info op (expression_ends left) (expression_ends right)
  | .comparison info op left right =>
    .comparison info op (expression_ends left) (expression_ends right)
  | .equality info op left right =>
    .equality info op (expression_ends left) (expression_ends right)
  | .call info name args => .call info name (arguments_end args)

theorem items_end : (list : List (Expr Info)) → ItemsEnd arena symbols list
  | [] => fun _ _ _ _ h _ _ => by
    cases Typing.expressions_nil h
    exact .call (fun _ => rfl) .pure
  | e :: rest => .cons (expression_ends e) (items_end rest)

theorem arguments_end : (list : List (Expr Info)) → ArgumentsEnd arena symbols list
  | [] => fun _ _ _ _ h _ => by
    cases Typing.expressions_nil h
    exact .call (fun _ => rfl) .pure
  | e :: rest => .cons (expression_ends e) (arguments_end rest)

end

end Checking
end CatScript
