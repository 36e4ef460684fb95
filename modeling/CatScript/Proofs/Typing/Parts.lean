import CatScript.Proofs.Typing.Judgement
import CatScript.Proofs.Typing.Spots

/-! # Parts of well-typed trees

Every part of a well-typed expression has a type under the same symbols, and the whole is `void`
where a part is (`Typing.HasType.parts`).  So it is with statements: what a statement evaluates has a
type (`Typing.Checks.evaluates`), its blocks are made of statements that can stand
(`Typing.Checks.block`), and every statement of a well-typed program can stand where it does
(`Typing.WellTyped.checks`). -/
set_option autoImplicit false
namespace CatScript

theorem Expr.mark_of_head (e : Expr Info) {row : Row} (h : e.rows.head? = some row) :
    row.1 = e.mark := by
  cases e <;> (cases h; rfl)

namespace Typing
section Parts
variable {symbols : Symbols}

/-- The row is that of an expression with a type, which is `void` only if `ty` is. -/
def PartOf (symbols : Symbols) (ty : Ty) (row : Row) : Prop :=
  ∃ part own, part.rows.head? = some row ∧ HasType symbols part own ∧ (own = .void → ty = .void)

theorem PartOf.of_ne {ty outer : Ty} {row : Row} (h : PartOf symbols ty row) (hty : ty ≠ .void) :
    PartOf symbols outer row := by
  obtain ⟨part, own, hhead, hpart, hvoid⟩ := h
  exact ⟨part, own, hhead, hpart, fun hown => absurd (hvoid hown) hty⟩

theorem PartOf.below {e : Expr Info} {ty : Ty} (h : HasType symbols e ty) {row : Row}
    {rest : List Row} (hrows : e.rows = row :: rest) (hrest : ∀ row ∈ rest, PartOf symbols ty row) :
    ∀ row ∈ e.rows, PartOf symbols ty row := by
  have hhead : e.rows.head? = some row := by rw [hrows, List.head?_cons]
  rw [hrows]
  exact List.forall_mem_cons.2 ⟨⟨e, ty, hhead, h, id⟩, hrest⟩

theorem PartOf.operands {ty a b : Ty} {left right : List Row}
    (hleft : ∀ row ∈ left, PartOf symbols a row) (hright : ∀ row ∈ right, PartOf symbols b row)
    (ha : a ≠ .void) (hb : b ≠ .void) : ∀ row ∈ left ++ right, PartOf symbols ty row := by
  intro row hrow
  rcases List.mem_append.1 hrow with hrow | hrow
  · exact (hleft row hrow).of_ne ha
  · exact (hright row hrow).of_ne hb

mutual

/-- Every part of a well-typed expression has a type, and hands `void` on. -/
theorem HasType.parts : (e : Expr Info) → {ty : Ty} → HasType symbols e ty →
    ∀ row ∈ e.rows, PartOf symbols ty row
  | .identifier .., _, h | .integer .., _, h | .string .., _, h | .boolean .., _, h
  | .null _, _, h => .below h rfl (List.forall_mem_nil _)
  | .list _ items, _, h@(.list _ _ hitems) => .below h rfl (ItemsFit.parts items hitems)
  | .parenthesized _ inner, _, h@(.parenthesized _ hinner) =>
    .below h rfl (HasType.parts inner hinner)
  | .unary _ _ operand, _, h@(.unary _ hoperand) =>
    .below h rfl (HasType.parts operand hoperand)
  | .binary _ _ left right, _, h@(.concat _ hleft hright ha hb)
  | .equality _ _ left right, _, h@(.equality _ hleft hright ha hb) =>
    .below h rfl (.operands (HasType.parts left hleft) (HasType.parts right hright) ha hb)
  | .binary _ _ left right, _, h@(.arithmetic _ hleft hright)
  | .comparison _ _ left right, _, h@(.comparison _ hleft hright) =>
    .below h rfl (.operands (HasType.parts left hleft) (HasType.parts right hright)
      (Ty.Storable.ne_void trivial) (Ty.Storable.ne_void trivial))
  | .call _ _ args, _, h@(.call _ _ hargs) => .below h rfl (ArgsFit.parts args hargs)

theorem ItemsFit.parts : (items : List (Expr Info)) → {component outer : Ty} →
    ItemsFit symbols items component → ∀ row ∈ Expr.rowsAll items, PartOf symbols outer row
  | [], _, _, _ => List.forall_mem_nil _
  | item :: rest, _, _, .cons hitem hvoid _ hrest =>
    List.forall_mem_append.2
      ⟨fun row hrow => (HasType.parts item hitem row hrow).of_ne hvoid,
        ItemsFit.parts rest hrest⟩

theorem ArgsFit.parts : (args : List (Expr Info)) → {params : List Ty} → {outer : Ty} →
    ArgsFit symbols args params → ∀ row ∈ Expr.rowsAll args, PartOf symbols outer row
  | [], _, _, _ => List.forall_mem_nil _
  | arg :: rest, _, _, .cons harg hvoid _ hrest =>
    List.forall_mem_append.2
      ⟨fun row hrow => (HasType.parts arg harg row hrow).of_ne hvoid,
        ArgsFit.parts rest hrest⟩

end

end Parts

section Statements
variable {returns : Option Ty} {symbols after : Symbols} {s : Stmt Info}

/-- Of what a statement evaluates, only the expression of a call statement may have no value. -/
theorem Checks.evaluates (h : Checks returns symbols s after) : ∀ e ∈ s.values, ∃ ty,
    HasType symbols e ty ∧ (ty ≠ .void ∨ ∃ info, s = .call info e) := by
  cases h with
  | declaration _ _ _ hvalue | assignment _ _ _ hvalue | returning _ hvalue =>
    obtain ⟨ty, hty, hvoid, -⟩ := hvalue
    exact List.forall_mem_singleton.2 ⟨ty, hty, .inl hvoid⟩
  | ifThen hcondition _ | ifThenElse hcondition _ _ =>
    exact List.forall_mem_singleton.2 ⟨_, hcondition, .inl (Ty.Storable.ne_void trivial)⟩
  | loop _ hiterable _ _ =>
    exact List.forall_mem_singleton.2 ⟨_, hiterable, .inl (by simp)⟩
  | print hvalue hvoid => exact List.forall_mem_singleton.2 ⟨_, hvalue, .inl hvoid⟩
  | call hvalue => exact List.forall_mem_singleton.2 ⟨_, hvalue, .inr ⟨_, rfl⟩⟩
  | function | leave => exact List.forall_mem_nil _

theorem Checks.values (h : Checks returns symbols s after) :
    ∀ e ∈ s.values, ∃ ty, HasType symbols e ty := by
  intro e he
  obtain ⟨ty, hty, -⟩ := h.evaluates e he
  exact ⟨ty, hty⟩

theorem Checks.declares (h : Checks returns symbols s after) :
    (s.declares = [] ∧ after = symbols) ∨
      ∃ name ty, s.declares = [(name, some ty)] ∧ after = symbols.declare name ty := by
  cases h with
  | declaration hinfo _ _ _ =>
    refine .inr ⟨_, _, ?_, rfl⟩
    rw [Stmt.declares, hinfo]
  | _ => exact .inl ⟨rfl, rfl⟩

theorem ChecksAll.split {before later : List (Stmt Info)} :
    {symbols : Symbols} → ChecksAll returns symbols (before ++ s :: later) after →
    ∃ middle next, ChecksAll returns symbols before middle ∧ Checks returns middle s next ∧
      ChecksAll returns next later after := by
  induction before with
  | nil =>
    intro symbols h
    cases h with
    | cons hs hlater => exact ⟨symbols, _, .nil, hs, hlater⟩
  | cons first before ih =>
    intro symbols h
    cases h with
    | cons hfirst hrest =>
      obtain ⟨middle, next, hbefore, hs, hlater⟩ := ih hrest
      exact ⟨middle, next, .cons hfirst hbefore, hs, hlater⟩

theorem Checks.block (h : Checks returns symbols s after) {bound : List (String × Option Ty)}
    {body : List (Stmt Info)} (hblock : (bound, body) ∈ s.blocks) : ∃ inside start last,
      ChecksAll inside start body last ∧ start.functions = symbols.functions := by
  cases h with
  | function _ _ _ hbody | ifThen _ hbody =>
    cases List.mem_singleton.1 hblock
    exact ⟨_, _, _, hbody, rfl⟩
  | loop _ _ _ hbody =>
    cases List.mem_singleton.1 hblock
    exact ⟨_, _, _, hbody, rfl⟩
  | ifThenElse _ hthen helse =>
    obtain ⟨rfl, rfl | rfl⟩ := Stmt.blocks_ifThenElse hblock
    · exact ⟨_, _, _, hthen, rfl⟩
    · exact ⟨_, _, _, helse, rfl⟩
  | _ => cases hblock

/-- What stands in a well-typed program can stand there, and may call the functions of the
program. -/
theorem WellTyped.checks {p : Program Info} (hwell : WellTyped p) {spot : Spot}
    (hs : p.Stands spot s) : ∃ mark body returns symbols after, p = .statements mark body ∧
      Checks returns symbols s after ∧ symbols.functions = (initialSymbols body).functions := by
  induction hs with
  | top heq =>
    subst heq
    cases hwell with
    | statements _ hbody =>
      obtain ⟨middle, next, hbefore, hs, -⟩ := hbody.split
      exact ⟨_, _, _, _, _, rfl, hs, hbefore.grows.functions⟩
  | inside _ hblock ih =>
    obtain ⟨mark, body, returns, symbols, after, hp, houter, hfunctions⟩ := ih
    obtain ⟨inside, start, last, hbody, hstart⟩ := houter.block hblock
    obtain ⟨middle, next, hbefore, hs, -⟩ := hbody.split
    exact ⟨mark, body, _, _, _, hp, hs, hbefore.grows.functions.trans (hstart.trans hfunctions)⟩

end Statements

end Typing
end CatScript
