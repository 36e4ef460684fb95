import CatScript.Proofs.Grammar.Descent.Rules

/-! # Expressions in one pass

Where as many nesting levels are left as the readers are made for, the functions that read
expressions agree with them (`nested_agrees`): they store what the readers give, and the cursor
moves on unless it stands on the end of the input. -/
set_option autoImplicit false
namespace CatScript
open Grammar

theorem Expr.shows_store (e : Expr Mark) (before : Arena) :
    (e.store.run before).2.Shows (e.store.run before).1 e.span := by
  cases e <;> exact ⟨_, getElem?_place .., rfl⟩

namespace Descent
variable {tokens : List Token} {depth : Nat}

section Results

def ExprStored (arena : Arena) (e : Expr Mark) (id : NodeId) (after : Arena) (_ : Cursor) : Prop :=
  id = (e.store.run arena).1 ∧ after = (e.store.run arena).2

def ItemsStored (arena : Arena) (items : List (Expr Mark)) (ids : List NodeId) (after : Arena)
    (_ : Cursor) : Prop :=
  ids = ((Expr.storeAll items).run arena).1 ∧ after = ((Expr.storeAll items).run arena).2

/-- The cursor has moved on unless it stood on the end of the input. -/
def Moved (cursor later : Cursor) : Prop :=
  cursor.current.kind ≠ .endOfInput → later.remaining < cursor.remaining

/-- The step stores the expression that the reader gives, and moves the cursor on. -/
def ReadsExpr (tokens : List Token) (depth : Nat) (step : Nat → Descent NodeId)
    (reader : Reader (Expr Mark)) : Prop :=
  ∀ arena cursor, Agrees tokens depth arena cursor step reader fun e id after later =>
    ExprStored arena e id after later ∧ Moved cursor later

structure ReadsNested (tokens : List Token) (depth : Nat) (nested : Nested) : Prop where
  expression : ReadsExpr tokens depth expression nested.expression
  operand : ReadsExpr tokens depth operand nested.operand

theorem ReadsExpr.bind {γ β : Type} {arena : Arena} {cursor : Cursor}
    {step : Nat → Descent NodeId} {reader : Reader (Expr Mark)} {f : Nat → NodeId → Descent γ}
    {g : Expr Mark → Reader β} {P : β → γ → Arena → Cursor → Prop}
    (h : ReadsExpr tokens depth step reader)
    (hnext : ∀ e later, Moved cursor later → later.remaining ≤ cursor.remaining →
      Agrees tokens depth (e.store.run arena).2 later
        (fun calls => f calls (e.store.run arena).1) (g e) P) :
    Agrees tokens depth arena cursor (fun calls => step calls >>= f calls) (reader >>= g) P := by
  refine (h arena cursor).bind fun e id after later hstored hle => ?_
  obtain ⟨⟨rfl, rfl⟩, hmoved⟩ := hstored
  exact hnext e later hmoved hle

theorem Moved.later {cursor later last : Cursor} (h : Moved cursor later)
    (hle : last.remaining ≤ later.remaining) : Moved cursor last := by
  intro hmore
  exact Nat.lt_of_le_of_lt hle (h hmore)

end Results

section Operators

/-- The operators of a level are those of the reader, and the nodes that it makes are those of the
expressions that the reader builds. -/
structure Joins {ω : Type} (level : Level) (op? : TokenKind → Option ω)
    (join : ω → NodeId → NodeId → NodeKind)
    (build : Mark → ω → Expr Mark → Expr Mark → Expr Mark) : Prop where
  level_eq : ∀ kind, level kind = (op? kind).map join
  ends : op? .endOfInput = none
  children : ∀ op left right, (join op left right).children = [left, right]
  store : ∀ mark op left right, (build mark op left right).store =
    (do Arena.append (join op (← left.store) (← right.store)) mark)

theorem joins_factors : Joins factors factorOp? .binary .binary :=
  ⟨fun _ => rfl, rfl, fun _ _ _ => rfl, fun _ _ _ _ => by rw [Expr.store]⟩

theorem joins_additives : Joins additives additiveOp? .binary .binary :=
  ⟨fun _ => rfl, rfl, fun _ _ _ => rfl, fun _ _ _ _ => by rw [Expr.store]⟩

theorem joins_comparisons : Joins comparisons comparisonOp? .comparison .comparison :=
  ⟨fun _ => rfl, rfl, fun _ _ _ => rfl, fun _ _ _ _ => by rw [Expr.store]⟩

variable {ω : Type} {level : Level} {op? : TokenKind → Option ω}
  {join : ω → NodeId → NodeId → NodeKind}
  {build : Mark → ω → Expr Mark → Expr Mark → Expr Mark} {tighter : List Level}
  {reader : Reader (Expr Mark)}

/-- Each round takes an operator, so the reader's bound is never met. -/
theorem chain_agrees (hjoins : Joins level op? join build)
    (h : ReadsExpr tokens depth (operators tighter) reader) (bound : Nat) (before : Arena)
    (left : Expr Mark) (cursor : Cursor) (hbound : cursor.remaining ≤ bound) :
    Agrees tokens depth (left.store.run before).2 cursor
      (chain level tighter (left.store.run before).1) (Grammar.chain op? build reader bound left)
      (ExprStored before) := by
  induction bound generalizing left cursor with
  | zero =>
    -- Nothing is ahead, and the end of the input is no operator.
    refine .of_over fun hover => ?_
    have hend : cursor.current.kind = .endOfInput := hover.kind_eq (Nat.le_zero.1 hbound)
    have hlevel : level cursor.current.kind = none := by
      rw [hend, hjoins.level_eq, hjoins.ends]
      rfl
    rw [Grammar.chain]
    refine .call (chain.eq_2 level tighter _) (.aside peek_ok ?_)
    rw [hlevel]
    exact .pure ⟨rfl, rfl⟩
  | succ bound ih =>
    rw [Grammar.chain]
    refine .call (chain.eq_2 level tighter _) (.peek ?_)
    rw [hjoins.level_eq]
    cases hop : op? cursor.current.kind with
    | none => exact .pure ⟨rfl, rfl⟩
    | some op =>
      have hmore : cursor.current.kind ≠ .endOfInput := by
        intro hend
        rw [hend, hjoins.ends] at hop
        cases hop
      refine .take fun hlt => ?_
      have hlt := hlt hmore
      refine h.bind fun right later _ hle => ?_
      have hlaid := (left.store_laid before).append (right.store_laid _)
      rw [List.singleton_append, ← hjoins.children op] at hlaid
      refine .span ((left.shows_store before).later (right.store_laid _)) ?_
      refine .span (right.shows_store _) ?_
      refine .aside (push_ok hlaid _) ?_
      have hnext := ih (build (joined left right) op left right) later (by omega)
      rw [hjoins.store] at hnext
      exact hnext

theorem operators_agree (hjoins : Joins level op? join build)
    (h : ReadsExpr tokens depth (operators tighter) reader) :
    ReadsExpr tokens depth (operators (level :: tighter)) (leftAssociative op? build reader) := by
  intro arena cursor
  refine .call (operators.eq_3 level tighter) ?_
  refine h.bind fun left later hmoved _ => .remaining ?_
  refine (chain_agrees hjoins h _ arena left later (Nat.le_refl _)).mono ?_
  exact fun _ _ _ _ hstored hle => ⟨hstored, hmoved.later hle⟩

end Operators

section Parts

theorem stray_agrees : ReadsExpr tokens depth (fun _ => strayExpression) Grammar.strayExpression := by
  intro arena _
  refine .take fun hmoved => ?_
  exact .push (Laid.refl arena) ⟨⟨rfl, rfl⟩, hmoved⟩

/-- Each round takes a comma, so the reader's bound is never met. -/
theorem items_agree {reader : Reader (Expr Mark)}
    (h : ReadsExpr tokens depth expression reader) (bound : Nat) (arena : Arena) (cursor : Cursor)
    (hbound : cursor.remaining ≤ bound) :
    Agrees tokens depth arena cursor items (Reader.separated reader bound) (ItemsStored arena) := by
  induction bound generalizing arena cursor with
  | zero =>
    rw [Reader.separated]
    refine .call items.eq_2 ?_
    refine h.bind fun e later _ hle => ?_
    exact .ended (by omega) nofun (.pure ⟨rfl, rfl⟩)
  | succ bound ih =>
    rw [Reader.separated]
    refine .call items.eq_2 ?_
    refine h.bind fun e later _ hle => ?_
    refine .accept nofun (fun hlt => ?_) (.pure ⟨rfl, rfl⟩)
    refine (ih _ _ (by omega)).bind fun rest ids after last hrest _ => ?_
    obtain ⟨rfl, rfl⟩ := hrest
    exact .pure ⟨rfl, rfl⟩

variable {nested : Nested} (h : ReadsNested tokens depth nested)
include h

theorem list_agrees (opening : Token) (arena : Arena) (cursor : Cursor) :
    Agrees tokens depth arena cursor (list opening) (Grammar.list nested opening)
      (ExprStored arena) := by
  -- With or without items, and with or without a closing bracket, the end is the same.
  have hend : ∀ found errors later, Agrees tokens depth
      ((Expr.storeAll found).run arena).2 later
      (fun _ => do
        push (.list ((Expr.storeAll found).run arena).1)
          ⟨← read (Reader.spanFrom opening.span), errors⟩)
      (do return .list ⟨← Reader.spanFrom opening.span, errors⟩ found) (ExprStored arena) :=
    fun found errors later => .close (Expr.storeAll_laid found arena) fun _ => ⟨rfl, rfl⟩
  have hclose : ∀ found later, Agrees tokens depth ((Expr.storeAll found).run arena).2 later
      (fun _ => do
        let errors ← if ← read (Reader.accept .rightBracket) then pure []
          else pure [⟨.unterminatedList, (← read Reader.current).span⟩]
        push (.list ((Expr.storeAll found).run arena).1)
          ⟨← read (Reader.spanFrom opening.span), errors⟩)
      (do
        let errors ← if ← Reader.accept .rightBracket then pure []
          else pure [⟨.unterminatedList, (← Reader.current).span⟩]
        return .list ⟨← Reader.spanFrom opening.span, errors⟩ found) (ExprStored arena) :=
    fun found later => .accept nofun (fun _ => hend found _ _) (.current (hend found _ _))
  rw [Grammar.list]
  refine .call (list.eq_2 opening) (.peek ?_)
  refine .ite (fun _ => hclose [] cursor) fun _ => .remaining ?_
  refine (items_agree h.expression _ _ _ (Nat.le_refl _)).bind fun found ids _ later hfound _ => ?_
  obtain ⟨rfl, rfl⟩ := hfound
  exact hclose found later

theorem call_agrees (name : Token) (arena : Arena) (cursor : Cursor) :
    Agrees tokens depth arena cursor (call name) (Grammar.call nested name)
      (ExprStored arena) := by
  have hclose : ∀ found errors later, Agrees tokens depth
      ((Expr.storeAll found).run arena).2 later
      (fun _ => do
        push (.call name.text ((Expr.storeAll found).run arena).1)
          ⟨← read (Reader.spanFrom name.span), errors⟩)
      (do return .call ⟨← Reader.spanFrom name.span, errors⟩ name.text found)
      (ExprStored arena) :=
    fun found errors later => .close (Expr.storeAll_laid found arena) fun _ => ⟨rfl, rfl⟩
  rw [Grammar.call]
  refine .call (call.eq_2 name) (.require fun opening missing later _ => ?_)
  refine .ite (fun _ => ?_) fun _ => ?_
  · refine .accept nofun (fun _ => hclose [] _ _) (.remaining ?_)
    refine (items_agree h.expression _ _ _ (Nat.le_refl _)).bind fun found ids _ last hfound _ => ?_
    obtain ⟨rfl, rfl⟩ := hfound
    exact .accept nofun (fun _ => hclose found _ _) (.current (hclose found _ _))
  · exact hclose [] _ _

theorem parenthesized_agrees (opening : Token) (arena : Arena) (cursor : Cursor) :
    Agrees tokens depth arena cursor (parenthesized opening)
      (Grammar.parenthesized nested opening) (ExprStored arena) := by
  refine .call (parenthesized.eq_2 opening) ?_
  refine h.expression.bind fun inner later _ _ => ?_
  exact .require fun _ errors last _ => .close (inner.store_laid arena) fun _ => ⟨rfl, rfl⟩

theorem primary_agrees : ReadsExpr tokens depth primary (Grammar.primary nested) := by
  intro arena cursor
  refine .call primary.eq_2 (.take fun hmoved => ?_)
  have hlater {step : Nat → Descent NodeId} {reader : Reader (Expr Mark)}
      (h : Agrees tokens depth arena cursor.next step reader (ExprStored arena)) :
      Agrees tokens depth arena cursor.next step reader fun e id after later =>
        ExprStored arena e id after later ∧ Moved cursor later :=
    h.mono fun _ _ _ _ hstored hle => ⟨hstored, Moved.later hmoved hle⟩
  apply hlater
  cases cursor.current.kind with
  | identifier =>
    refine .peek ?_
    exact .ite (fun _ => call_agrees h _ _ _) fun _ => .push (Laid.refl arena) ⟨rfl, rfl⟩
  | integer =>
    dsimp only
    cases integer? cursor.current.text with
    | some value => exact .push (Laid.refl arena) ⟨rfl, rfl⟩
    | none => exact .push (Laid.refl arena) ⟨rfl, rfl⟩
  | leftBracket => exact list_agrees h _ _ _
  | leftParen => exact parenthesized_agrees h _ _ _
  | _ => exact .push (Laid.refl arena) ⟨rfl, rfl⟩

theorem unary_agrees : ReadsExpr tokens depth unary (Grammar.unary nested) := by
  intro arena cursor
  refine .call unary.eq_2 (.peek ?_)
  cases unaryOp? cursor.current.kind with
  | none => exact primary_agrees h _ _
  | some op =>
    refine .take fun hmoved => h.operand.bind fun inner later _ hle => ?_
    refine .span (inner.shows_store arena) ?_
    exact .push (inner.store_laid arena) ⟨⟨rfl, rfl⟩, Moved.later hmoved hle⟩

theorem factor_agrees : ReadsExpr tokens depth (operators [factors]) (factor nested) := by
  refine operators_agree joins_factors fun _ _ => ?_
  exact .call operators.eq_2 (unary_agrees h _ _)

theorem additive_agrees :
    ReadsExpr tokens depth (operators [additives, factors]) (additive nested) :=
  operators_agree joins_additives (factor_agrees h)

theorem comparison_agrees :
    ReadsExpr tokens depth (operators [comparisons, additives, factors]) (comparison nested) :=
  operators_agree joins_comparisons (additive_agrees h)

theorem equality_agrees : ReadsExpr tokens depth equality (Grammar.equality nested) := by
  intro arena cursor
  refine .call equality.eq_2 ?_
  refine (comparison_agrees h).bind fun left later hmoved _ => .peek ?_
  cases equalityOp? later.current.kind with
  | none => exact .pure ⟨⟨rfl, rfl⟩, hmoved⟩
  | some op =>
    refine .take fun _ => h.expression.bind fun right last _ hle => ?_
    have hlaid := (left.store_laid arena).append (right.store_laid _)
    refine .span ((left.shows_store arena).later (right.store_laid _)) ?_
    refine .span (right.shows_store _) ?_
    refine .push hlaid ⟨⟨rfl, rfl⟩, hmoved.later ?_⟩
    rw [Cursor.remaining_next] at hle
    omega

end Parts

/-- What a function reads one level deeper, at a depth that leaves as many levels as the readers are
made for. -/
theorem nested_agrees (room : Nat) : ∀ depth, maxNesting - depth = room →
    ReadsNested tokens depth (Nested.ofRoom room) := by
  induction room with
  | zero =>
    intro depth hdepth
    have hfull : maxNesting ≤ depth := by omega
    refine ⟨fun arena cursor => ?_, fun arena cursor => ?_⟩
    · exact .call expression.eq_2 (.full hfull (stray_agrees _ _))
    · exact .call operand.eq_2 (.full hfull (stray_agrees _ _))
  | succ room ih =>
    intro depth hdepth
    have hroom : depth < maxNesting := by omega
    have hnested := ih (depth + 1) (by omega)
    refine ⟨fun arena cursor => ?_, fun arena cursor => ?_⟩
    · rw [← bind_pure (Nested.ofRoom (room + 1)).expression]
      refine .call expression.eq_2 (.room hroom (.deeper hroom (equality_agrees hnested _ _) ?_))
      exact fun _ _ _ _ hread _ => .pure hread
    · rw [← bind_pure (Nested.ofRoom (room + 1)).operand]
      refine .call operand.eq_2 (.room hroom (.deeper hroom (unary_agrees hnested _ _) ?_))
      exact fun _ _ _ _ hread _ => .pure hread

end Descent
end CatScript
