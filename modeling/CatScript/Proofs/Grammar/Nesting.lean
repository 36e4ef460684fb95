import CatScript.Proofs.Grammar.Offsets
import CatScript.Proofs.Grammar.Written.Program
import CatScript.Proofs.Tree.Families

/-! # Spans nest

The span of a node holds the spans of its parts, which stand in order and apart from each other, in
every tree that the parser gives (`Grammar.parse_nests`).  There is one exception: a part may reach
to the end of the input, past the last token, while the node around it ends with that token.  This
is so where the part was made up at the end of the input, since the cursor does not move there. -/
set_option autoImplicit false
namespace CatScript

variable {β γ : Type} {limit finish low high start : Nat}

namespace Grammar
open Reader

section Parts

/-- A span that starts at `start` and does not go past `high`.  It ends with the token that was
passed last or before that, or it reaches to the end of the input. -/
structure Extent (limit start : Nat) (span : Span) (low high : Nat) : Prop where
  starts : span.start = start
  wide : start ≤ span.stop
  before : span.stop ≤ high
  ends : span.stop ≤ low ∨ span.stop = limit

/-- The parts of a node stand apart from each other and in order, and the node holds them: if a part
reaches further than the node, then to the end of the input, and the node ends with the last token.
-/
structure Nests (limit finish : Nat) (family : Mark × List Mark) : Prop where
  wide : family.1.span.start ≤ family.1.span.stop
  apart : family.2.Pairwise fun a b => a.span.stop ≤ b.span.start
  holds : ∀ part ∈ family.2, family.1.span.start ≤ part.span.start ∧
    (part.span.stop ≤ family.1.span.stop ∨
      part.span.stop = limit ∧ family.1.span.stop = finish)

/-- The marks stand apart from each other and in order from `start` on, and do not go past `high`. -/
structure Rows (limit start : Nat) (marks : List Mark) (low high : Nat) : Prop where
  apart : marks.Pairwise fun a b => a.span.stop ≤ b.span.start
  each : ∀ mark ∈ marks, start ≤ mark.span.start ∧ mark.span.start ≤ mark.span.stop ∧
    mark.span.stop ≤ high ∧ (mark.span.stop ≤ low ∨ mark.span.stop = limit)

variable {low' high' start' : Nat} {mark : Mark} {marks others : List Mark}
  {families : List (Mark × List Mark)}

namespace Rows

theorem nil : Rows limit start [] low high :=
  ⟨.nil, nofun⟩

theorem single (h : Extent limit start mark.span low high) : Rows limit start [mark] low high := by
  refine ⟨List.pairwise_singleton .., List.forall_mem_singleton.2 ⟨?_, ?_, h.before, h.ends⟩⟩
  · exact Nat.le_of_eq h.starts.symm
  · rw [h.starts]
    exact h.wide

theorem weaken (h : Rows limit start marks low high) (hstart : start' ≤ start) (hlow : low ≤ low')
    (hhigh : high ≤ high') : Rows limit start' marks low' high' := by
  refine ⟨h.apart, fun mark hmark => ?_⟩
  obtain ⟨hfirst, hwide, hbefore, hends⟩ := h.each mark hmark
  exact ⟨Nat.le_trans hstart hfirst, hwide, Nat.le_trans hbefore hhigh,
    hends.imp_left fun hle => Nat.le_trans hle hlow⟩

theorem append (h : Rows limit start marks low high) (h' : Rows limit start' others low' high')
    (hmiddle : high ≤ start') (hstart : start ≤ start') (hlow : low ≤ low') (hhigh : high ≤ high') :
    Rows limit start (marks ++ others) low' high' := by
  refine ⟨List.pairwise_append.2 ⟨h.apart, h'.apart, fun a ha b hb => ?_⟩,
    List.forall_mem_append.2 ⟨(h.weaken (Nat.le_refl _) hlow hhigh).each,
      (h'.weaken hstart (Nat.le_refl _) (Nat.le_refl _)).each⟩⟩
  have hbefore := (h.each a ha).2.2.1
  have hbehind := (h'.each b hb).1
  omega

end Rows

/-- A node that stands where it should, with everything in it. -/
structure Sits (limit finish start : Nat) (mark : Mark) (families : List (Mark × List Mark))
    (low high : Nat) : Prop where
  extent : Extent limit start mark.span low high
  nests : ∀ family ∈ families, Nests limit finish family

theorem Sits.leaf (h : Extent limit start mark.span low high) :
    Sits limit finish start mark [(mark, [])] low high := by
  refine ⟨h, List.forall_mem_singleton.2 ⟨?_, .nil, nofun⟩⟩
  dsimp only
  rw [h.starts]
  exact h.wide

theorem Sits.node (hfits : Offsets limit finish low high) (hstarts : mark.span.start = start)
    (hstart : start < low) (hstops : mark.span.stop = low) (hrows : Rows limit start' marks low high)
    (hbehind : start ≤ start') (hnests : ∀ family ∈ families, Nests limit finish family) :
    Sits limit finish start mark ((mark, marks) :: families) low high := by
  have horder := hfits.order
  refine ⟨⟨hstarts, by omega, by omega, .inl (Nat.le_of_eq hstops)⟩,
    List.forall_mem_cons.2 ⟨?_, hnests⟩⟩
  refine ⟨by dsimp only; omega, hrows.apart, fun part hpart => ?_⟩
  obtain ⟨hfirst, -, hbefore, hends⟩ := hrows.each part hpart
  refine ⟨by dsimp only; omega, ?_⟩
  dsimp only
  rw [hstops]
  have hbound := hfits.bound
  exact hends.imp_right fun hend => ⟨hend, hfits.ends (by omega)⟩

theorem Sits.through {first : Span} {last : Mark}
    (hrows : Rows limit start' (marks ++ [last]) low high) (hstarts : first.start = start)
    (hbehind : start ≤ start') (hnests : ∀ family ∈ families, Nests limit finish family) :
    Sits limit finish start ⟨first.through last.span, []⟩
      ((⟨first.through last.span, []⟩, marks ++ [last]) :: families) low high := by
  obtain ⟨hfirst, hwide, hbefore, hends⟩ := hrows.each last (by simp)
  have hstops : (first.through last.span).stop = last.span.stop := by
    unfold Span.through
    dsimp only
    omega
  refine ⟨⟨hstarts, by dsimp only; omega, by dsimp only; omega, by dsimp only; omega⟩,
    List.forall_mem_cons.2 ⟨⟨?_, hrows.apart, fun part hpart => ?_⟩, hnests⟩⟩
  · exact Span.start_le_stop_through ..
  · have hpartFirst := (hrows.each part hpart).1
    refine ⟨by dsimp only; rw [show (first.through last.span).start = first.start from rfl]; omega,
      .inl ?_⟩
    dsimp only
    rw [hstops]
    rcases List.mem_append.1 hpart with hpart | hpart
    · have hapart := (List.pairwise_append.1 hrows.apart).2.2 part hpart last List.mem_cons_self
      omega
    · rw [List.mem_singleton.1 hpart]

end Parts

section Items

structure SitAll (limit finish start : Nat) (mark : β → Mark)
    (families : β → List (Mark × List Mark)) (items : List β) (low high : Nat) : Prop where
  rows : Rows limit start (items.map mark) low high
  nests : ∀ b ∈ items, ∀ family ∈ families b, Nests limit finish family

variable {item : Reader β} {mark : β → Mark} {families : β → List (Mark × List Mark)}

theorem Sits.cons {b : β} {items : List β} {low' high' start' : Nat}
    (h : Sits limit finish start (mark b) (families b) low high)
    (h' : SitAll limit finish start' mark families items low' high') (hmiddle : high ≤ start')
    (hstart : start ≤ start') (hlow : low ≤ low') (hhigh : high ≤ high') :
    SitAll limit finish start mark families (b :: items) low' high' := by
  have hrows := (Rows.single h.extent).append h'.rows hmiddle hstart hlow hhigh
  exact ⟨hrows, List.forall_mem_cons.2 ⟨h.nests, h'.nests⟩⟩

variable (h : ∀ low high, Across limit finish low high item fun b =>
  Sits limit finish high (mark b) (families b))
include h

theorem separated_sits (bound low high : Nat) :
    Across limit finish low high (separated item bound) fun items =>
      SitAll limit finish high mark families items := by
  induction bound generalizing low high with
  | zero =>
    refine .bind (h low high) fun b low' high' hb _ _ => .pure ?_
    exact ⟨.single hb.extent, List.forall_mem_singleton.2 hb.nests⟩
  | succ bound ih =>
    refine .bind (h low high) fun b low₁ high₁ hb _ hhigh₁ => ?_
    refine .bind (.accept _) fun more low₂ high₂ _ hlow₂ hhigh₂ => ?_
    cases more with
    | false =>
      refine .pure ⟨?_, List.forall_mem_singleton.2 hb.nests⟩
      exact (Rows.single hb.extent).weaken (Nat.le_refl _) hlow₂ hhigh₂
    | true =>
      refine .bind (ih low₂ high₂) fun items low₃ high₃ hitems _ _ => .pure ?_
      exact hb.cons hitems hhigh₂ (by omega) (by omega) (by omega)

theorem repeated_sits (stop : TokenKind → Bool) (bound low high : Nat) :
    Across limit finish low high (repeated stop item bound) fun items =>
      SitAll limit finish high mark families items := by
  induction bound generalizing low high with
  | zero => exact .pure ⟨.nil, nofun⟩
  | succ bound ih =>
    refine .bind .peek fun kind low₁ high₁ hkind _ _ => ?_
    obtain ⟨rfl, rfl, -⟩ := hkind
    split
    · exact .pure ⟨.nil, nofun⟩
    · refine .bind (h _ _) fun b low₂ high₂ hb _ hhigh₂ => ?_
      refine .bind (ih low₂ high₂) fun items low₃ high₃ hitems _ _ => .pure ?_
      exact hb.cons hitems (Nat.le_refl _) hhigh₂ (by omega) (by omega)

end Items

section Closing
variable {first : Span} {build : Span → β} {mark : β → Mark} {marks : List Mark}
  {families : β → List (Mark × List Mark)} {inner : List (Mark × List Mark)}

/-- A node is closed: it runs from its first token to the one that was passed last. -/
theorem closed_sits (hfirst : first.start < low) (hrows : Rows limit start marks low high)
    (hstart : first.start ≤ start) (hnests : ∀ family ∈ inner, Nests limit finish family)
    (hmark : ∀ span, (mark (build span)).span = span)
    (hfamilies : ∀ span, families (build span) = (mark (build span), marks) :: inner) :
    Across limit finish low high (do return build (← spanFrom first)) fun b =>
      Sits limit finish first.start (mark b) (families b) := by
  refine .fits fun hfits => .bind (.spanFrom hfirst) fun span low' high' hspan _ _ => .pure ?_
  obtain ⟨rfl, rfl, hstarts, hstops⟩ := hspan
  rw [hfamilies]
  exact .node hfits (by rw [hmark, hstarts]) hfirst (by rw [hmark, hstops]) hrows hstart hnests

end Closing

section Expressions

def ExprSits (limit finish start : Nat) (e : Expr Mark) (low high : Nat) : Prop :=
  Sits limit finish start e.mark e.families low high

structure Nested.Nests (nested : Nested) (limit finish : Nat) : Prop where
  expression : ∀ low high, Across limit finish low high nested.expression
    (ExprSits limit finish high)
  operand : ∀ low high, Across limit finish low high nested.operand (ExprSits limit finish high)

theorem Extent.token {token : Token} {low' high' : Nat} (hfits : Offsets limit finish low' high')
    (hstart : token.span.start = high) (htaken : (high < low' ∧ low' = token.span.stop) ∨
      (high = limit ∧ token.span.stop = limit ∧ high' = limit)) :
    Extent limit high token.span low' high' := by
  have horder := hfits.order
  refine ⟨hstart, ?_, ?_, ?_⟩ <;> omega

theorem strayExpression_sits (low high : Nat) :
    Across limit finish low high strayExpression (ExprSits limit finish high) := by
  refine .bind .take fun token low' high' htoken _ _ => .fits fun hfits => .pure ?_
  exact .leaf (.token hfits htoken.1 htoken.2.2)

/-- Reading operators after `left`, which has been read from `start` on. -/
theorem chain_sits {ω : Type} {op? : TokenKind → Option ω}
    {build : Mark → ω → Expr Mark → Expr Mark → Expr Mark} {operand : Reader (Expr Mark)}
    (hmark : ∀ mark op left right, (build mark op left right).mark = mark)
    (hfamilies : ∀ mark op left right, (build mark op left right).families =
      (mark, [left.mark, right.mark]) :: (left.families ++ right.families))
    (hoperand : ∀ low high, Across limit finish low high operand (ExprSits limit finish high))
    (bound low high : Nat) {left : Expr Mark} (hle : start ≤ high)
    (hleft : ExprSits limit finish start left low high) :
    Across limit finish low high (chain op? build operand bound left)
      (ExprSits limit finish start) := by
  induction bound generalizing left low high with
  | zero => exact .pure hleft
  | succ bound ih =>
    refine .bind .peek fun kind low₁ high₁ hkind _ _ => ?_
    obtain ⟨rfl, rfl, -⟩ := hkind
    cases op? kind with
    | none => exact .pure hleft
    | some op =>
      refine .bind .take fun _ low₂ high₂ _ hlow₂ hhigh₂ => ?_
      refine .bind (hoperand low₂ high₂) fun right low₃ high₃ hright hlow₃ hhigh₃ => ?_
      refine ih low₃ high₃ (by omega) ?_
      have hrows := (Rows.single hleft.extent).append (Rows.single hright.extent) hhigh₂
        (by omega) (by omega) (by omega)
      unfold ExprSits
      rw [hmark, hfamilies]
      exact .through hrows hleft.extent.starts (Nat.le_refl _)
        (List.forall_mem_append.2 ⟨hleft.nests, hright.nests⟩)

theorem leftAssociative_sits {ω : Type} {op? : TokenKind → Option ω}
    {build : Mark → ω → Expr Mark → Expr Mark → Expr Mark} {operand : Reader (Expr Mark)}
    (hmark : ∀ mark op left right, (build mark op left right).mark = mark)
    (hfamilies : ∀ mark op left right, (build mark op left right).families =
      (mark, [left.mark, right.mark]) :: (left.families ++ right.families))
    (hoperand : ∀ low high, Across limit finish low high operand (ExprSits limit finish high))
    (low high : Nat) : Across limit finish low high (leftAssociative op? build operand)
      (ExprSits limit finish high) := by
  refine .bind (hoperand low high) fun left low₁ high₁ hleft _ hhigh₁ => ?_
  refine .bind .remaining fun bound low₂ high₂ hbound _ _ => ?_
  obtain ⟨rfl, rfl⟩ := hbound
  exact chain_sits hmark hfamilies hoperand bound _ _ hhigh₁ hleft

variable {nested : Nested} (h : nested.Nests limit finish)
include h

theorem call_sits {name : Token} (hname : name.span.start < low) (hle : name.span.start ≤ high) :
    Across limit finish low high (call nested name) (ExprSits limit finish name.span.start) := by
  have hclose : ∀ (errors : List Diagnostic) (args : List (Expr Mark)) {low' high' from' : Nat},
      SitAll limit finish from' Expr.mark Expr.families args low' high' → low ≤ low' →
      high ≤ from' → Across limit finish low' high'
        (do return .call ⟨← spanFrom name.span, errors⟩ name.text args)
        (ExprSits limit finish name.span.start) := by
    intro errors args low' high' from' hargs hlow hfrom
    exact closed_sits (by omega) hargs.rows (by omega) (Expr.forall_familiesAll hargs.nests)
      (fun _ => rfl) fun span => by rw [Expr.families]; rfl
  have hnone : ∀ {low' high' : Nat}, SitAll limit finish high Expr.mark Expr.families [] low' high' :=
    ⟨.nil, nofun⟩
  refine .bind (.require _) fun (opening, missing) low₁ high₁ _ hlow₁ hhigh₁ => ?_
  dsimp only
  split
  · refine .bind (.accept _) fun empty low₂ high₂ _ hlow₂ hhigh₂ => ?_
    cases empty with
    | true => exact hclose _ [] hnone (by omega) (Nat.le_refl _)
    | false =>
      refine .bind .remaining fun bound low₃ high₃ hbound _ _ => ?_
      obtain ⟨rfl, rfl⟩ := hbound
      refine .bind (separated_sits h.expression bound _ _) fun args low₄ high₄ hargs hlow₄ _ => ?_
      refine .bind (.accept _) fun closed low₅ high₅ _ hlow₅ hhigh₅ => ?_
      have hlater : SitAll limit finish high₃ Expr.mark Expr.families args low₅ high₅ :=
        ⟨hargs.rows.weaken (Nat.le_refl _) hlow₅ hhigh₅, hargs.nests⟩
      cases closed with
      | true => exact hclose _ args hlater (by omega) (by omega)
      | false =>
        refine .bind .current fun token low₆ high₆ htoken _ _ => ?_
        obtain ⟨rfl, rfl, -⟩ := htoken
        exact hclose _ args hlater (by omega) (by omega)
  · exact hclose _ [] hnone (by omega) (Nat.le_refl _)

theorem list_sits {opening : Token} (hopening : opening.span.start < low)
    (hle : opening.span.start ≤ high) : Across limit finish low high (list nested opening)
      (ExprSits limit finish opening.span.start) := by
  have hclose : ∀ (items : List (Expr Mark)) {low' high' : Nat},
      SitAll limit finish high Expr.mark Expr.families items low' high' → low ≤ low' →
      Across limit finish low' high' (do
        let errors ← if ← accept .rightBracket then pure []
          else pure [⟨.unterminatedList, (← current).span⟩]
        return .list ⟨← spanFrom opening.span, errors⟩ items)
        (ExprSits limit finish opening.span.start) := by
    intro items low' high' hitems hlow
    refine .bind (.accept _) fun closed low₁ high₁ _ hlow₁ hhigh₁ => ?_
    have hrows := hitems.rows.weaken (Nat.le_refl _) hlow₁ hhigh₁
    have hend (errors : List Diagnostic) : Across limit finish low₁ high₁
        (do return .list ⟨← spanFrom opening.span, errors⟩ items)
        (ExprSits limit finish opening.span.start) :=
      closed_sits (by omega) hrows hle (Expr.forall_familiesAll hitems.nests) (fun _ => rfl)
        fun span => by rw [Expr.families]; rfl
    cases closed with
    | true =>
      refine .bind (.pure (P := fun _ low high => low = low₁ ∧ high = high₁) ⟨rfl, rfl⟩)
        fun errors low₂ high₂ heq _ _ => ?_
      obtain ⟨rfl, rfl⟩ := heq
      exact hend errors
    | false =>
      refine .bind .current fun token low₂ high₂ htoken _ _ => ?_
      obtain ⟨rfl, rfl, -⟩ := htoken
      refine .bind (.pure (P := fun _ low high => low = low₂ ∧ high = high₂) ⟨rfl, rfl⟩)
        fun errors low₃ high₃ heq _ _ => ?_
      obtain ⟨rfl, rfl⟩ := heq
      exact hend errors
  refine .bind .peek fun kind low₁ high₁ hkind _ _ => ?_
  obtain ⟨rfl, rfl, -⟩ := hkind
  dsimp only
  split
  · refine .bind (.pure (P := fun items low high => items = [] ∧ low = low₁ ∧ high = high₁)
      ⟨rfl, rfl, rfl⟩) fun items low₂ high₂ heq _ _ => ?_
    obtain ⟨rfl, rfl, rfl⟩ := heq
    exact hclose [] ⟨.nil, nofun⟩ (Nat.le_refl _)
  · refine .bind .remaining fun bound low₂ high₂ hbound _ _ => ?_
    obtain ⟨rfl, rfl⟩ := hbound
    refine .bind (separated_sits h.expression bound _ _) fun items low₃ high₃ hitems hlow₃ _ => ?_
    exact hclose items hitems hlow₃

theorem parenthesized_sits {opening : Token} (hopening : opening.span.start < low)
    (hle : opening.span.start ≤ high) : Across limit finish low high (parenthesized nested opening)
      (ExprSits limit finish opening.span.start) := by
  refine .bind (h.expression _ _) fun inner low₁ high₁ hinner hlow₁ _ => ?_
  refine .bind (.require _) fun (_, errors) low₂ high₂ _ hlow₂ hhigh₂ => ?_
  have hrows := (Rows.single hinner.extent).weaken (Nat.le_refl _) hlow₂ hhigh₂
  exact closed_sits (by omega) hrows hle hinner.nests (fun _ => rfl)
    fun span => by rw [Expr.families]; rfl

theorem primary_sits (low high : Nat) :
    Across limit finish low high (primary nested) (ExprSits limit finish high) := by
  refine .bind .take fun token low' high' htoken _ hhigh => .fits fun hfits => ?_
  obtain ⟨rfl, hkind, htaken⟩ := htoken
  have hleaf : Extent limit token.span.start token.span low' high' := .token hfits rfl htaken
  have hpassed : token.kind ≠ .endOfInput → token.span.start < low' := by
    intro hne
    have hlt := hkind hne
    omega
  dsimp only
  split
  · next hname =>
    refine .bind .peek fun next low₁ high₁ hnext _ _ => ?_
    obtain ⟨rfl, rfl, -⟩ := hnext
    split
    · exact call_sits h (hpassed (by rw [hname]; decide)) hhigh
    · exact .pure (.leaf hleaf)
  · split
    · exact .pure (.leaf hleaf)
    · exact .pure (.leaf hleaf)
  · exact .pure (.leaf hleaf)
  · exact .pure (.leaf hleaf)
  · exact .pure (.leaf hleaf)
  · exact .pure (.leaf hleaf)
  · next hopening => exact list_sits h (hpassed (by rw [hopening]; decide)) hhigh
  · next hopening => exact parenthesized_sits h (hpassed (by rw [hopening]; decide)) hhigh
  · exact .pure (.leaf hleaf)

theorem unary_sits (low high : Nat) :
    Across limit finish low high (unary nested) (ExprSits limit finish high) := by
  refine .bind .peek fun kind low₁ high₁ hkind _ _ => ?_
  obtain ⟨rfl, rfl, -⟩ := hkind
  cases unaryOp? kind with
  | none => exact primary_sits h _ _
  | some op =>
    refine .bind .take fun operator low₂ high₂ htoken _ hhigh₂ => ?_
    refine .bind (h.operand _ _) fun operand low₃ high₃ hoperand _ _ => .pure ?_
    have hrows : Rows limit high₂ ([] ++ [operand.mark]) low₃ high₃ := .single hoperand.extent
    exact .through hrows htoken.1 hhigh₂ hoperand.nests

theorem comparison_sits (low high : Nat) :
    Across limit finish low high (comparison nested) (ExprSits limit finish high) := by
  have hfamilies : ∀ (mark : Mark) op left right, (Expr.binary mark op left right).families =
      (mark, [left.mark, right.mark]) :: (left.families ++ right.families) := by
    intro mark op left right
    rw [Expr.families]
  have hfactor : ∀ low high, Across limit finish low high (factor nested)
      (ExprSits limit finish high) :=
    leftAssociative_sits (fun _ _ _ _ => rfl) hfamilies (unary_sits h)
  have hadditive : ∀ low high, Across limit finish low high (additive nested)
      (ExprSits limit finish high) :=
    leftAssociative_sits (fun _ _ _ _ => rfl) hfamilies hfactor
  refine leftAssociative_sits (fun _ _ _ _ => rfl) (fun mark op left right => ?_) hadditive low high
  rw [Expr.families]

theorem equality_sits (low high : Nat) :
    Across limit finish low high (equality nested) (ExprSits limit finish high) := by
  refine .bind (comparison_sits h low high) fun left low₁ high₁ hleft _ hhigh₁ => ?_
  refine .bind .peek fun kind low₂ high₂ hkind _ _ => ?_
  obtain ⟨rfl, rfl, -⟩ := hkind
  cases equalityOp? kind with
  | none => exact .pure hleft
  | some op =>
    refine .bind .take fun _ low₃ high₃ _ hlow₃ hhigh₃ => ?_
    refine .bind (h.expression _ _) fun right low₄ high₄ hright hlow₄ hhigh₄ => .pure ?_
    have hrows := (Rows.single hleft.extent).append (Rows.single hright.extent) hhigh₃
      (by omega) (by omega) (by omega)
    exact .through hrows hleft.extent.starts (Nat.le_refl _)
      (List.forall_mem_append.2 ⟨hleft.nests, hright.nests⟩)

omit h in
theorem Nested.nests (limit finish room : Nat) : (Nested.ofRoom room).Nests limit finish := by
  induction room with
  | zero => exact ⟨strayExpression_sits, strayExpression_sits⟩
  | succ room ih => exact ⟨equality_sits ih, unary_sits ih⟩

end Expressions

section Types

theorem typeExpression_across (bound low high : Nat) :
    Across limit finish low high (typeExpression bound) fun _ _ _ => True := by
  induction bound generalizing low high with
  | zero => exact .pure trivial
  | succ bound ih =>
    refine .bind .current fun token _ _ _ _ _ => ?_
    split
    · exact .pure trivial
    · refine .bind .take fun _ _ _ _ _ _ => ?_
      split
      · refine .bind (.accept _) fun opened _ _ _ _ _ => ?_
        cases opened with
        | true =>
          exact .bind (ih _ _) fun (_, _) _ _ _ _ _ => .bind (.require _) fun (_, _) _ _ _ _ _ =>
            .pure trivial
        | false => exact .pure trivial
      · cases Ty.ofName? token.text with
        | some ty => exact .pure trivial
        | none => exact .pure trivial

theorem typeAfterColon_across (low high : Nat) :
    Across limit finish low high typeAfterColon? fun _ _ _ => True := by
  refine .bind (.accept _) fun annotated _ _ _ _ _ => ?_
  cases annotated with
  | true =>
    exact .bind .remaining fun bound _ _ _ _ _ => .bind (typeExpression_across _ _ _)
      fun (_, _) _ _ _ _ _ => .pure trivial
  | false => exact .pure trivial

theorem parameter_across (low high : Nat) :
    Across limit finish low high parameter fun _ _ _ => True := by
  refine .bind (.require _) fun (_, _) _ _ _ _ _ => ?_
  refine .bind (typeAfterColon_across _ _) fun (_, _) _ _ _ _ _ => ?_
  exact .pure trivial

theorem parameters_across (low high : Nat) :
    Across limit finish low high parameters fun _ _ _ => True := by
  have hseparated : ∀ bound low high, Across limit finish low high (separated parameter bound)
      fun _ _ _ => True := by
    intro bound
    induction bound with
    | zero => exact fun low high => .bind (parameter_across low high) fun _ _ _ _ _ _ => .pure trivial
    | succ bound ih =>
      refine fun low high => .bind (parameter_across low high) fun _ _ _ _ _ _ =>
        .bind (.accept _) fun more _ _ _ _ _ => ?_
      cases more with
      | true => exact .bind (ih _ _) fun _ _ _ _ _ _ => .pure trivial
      | false => exact .pure trivial
  refine .bind .peek fun kind _ _ _ _ _ => ?_
  by_cases hkind : kind = .rightParen
  · rw [if_pos hkind]
    exact .pure trivial
  · rw [if_neg hkind]
    exact .bind .remaining fun bound _ _ _ _ _ => .bind (hseparated bound _ _)
      fun _ _ _ _ _ _ => .pure trivial

end Types

section Statements

def StmtSits (limit finish start : Nat) (s : Stmt Mark) (low high : Nat) : Prop :=
  Sits limit finish start s.mark s.families low high

def BodySits (limit finish start : Nat) (body : List (Stmt Mark)) (low high : Nat) : Prop :=
  SitAll limit finish start Stmt.mark Stmt.families body low high

def BlockReader.Nests (block : BlockReader) (limit finish : Nat) : Prop :=
  ∀ low high, Across limit finish low high block fun read => BodySits limit finish high read.1

theorem strayStatement_sits (low high : Nat) :
    Across limit finish low high strayStatement (StmtSits limit finish high) := by
  refine .bind .take fun token low' high' htoken _ _ => .fits fun hfits => .pure ?_
  exact .leaf (.token hfits htoken.1 htoken.2.2)

variable {nested : Nested} (h : nested.Nests limit finish) (hhigh : high < limit)
include h hhigh

theorem declaration_sits :
    Across limit finish low high (declaration nested) (StmtSits limit finish high) := by
  refine .bind (.take_of_lt hhigh) fun start low₁ high₁ hstart _ hhigh₁ => ?_
  obtain ⟨rfl, hpassed⟩ := hstart
  refine .bind (.require _) fun (name, noName) low₂ high₂ _ hlow₂ hhigh₂ => ?_
  refine .bind (typeAfterColon_across _ _) fun (ty?, badType) low₃ high₃ _ hlow₃ hhigh₃ => ?_
  refine .bind (.require _) fun (_, noEqual) low₄ high₄ _ hlow₄ hhigh₄ => ?_
  refine .bind (h.expression _ _) fun value low₅ high₅ hvalue hlow₅ _ => ?_
  exact closed_sits (by omega) (.single hvalue.extent) (by omega) hvalue.nests (fun _ => rfl)
    fun span => by rw [Stmt.families]; rfl

theorem named_sits :
    Across limit finish low high (named nested) (StmtSits limit finish high) := by
  refine .bind (.take_of_lt hhigh) fun name low₁ high₁ hstart _ hhigh₁ => ?_
  obtain ⟨rfl, hpassed⟩ := hstart
  refine .bind (.accept _) fun assigned low₂ high₂ _ hlow₂ hhigh₂ => ?_
  cases assigned with
  | true =>
    refine .bind (h.expression _ _) fun value low₃ high₃ hvalue hlow₃ _ => ?_
    exact closed_sits (by omega) (.single hvalue.extent) (by omega) hvalue.nests (fun _ => rfl)
      fun span => by rw [Stmt.families]; rfl
  | false =>
    refine .bind (call_sits h (by omega) (by omega)) fun value low₃ high₃ hvalue _ _ => .pure ?_
    have hextent := hvalue.extent
    refine ⟨hextent, ?_⟩
    rw [Stmt.families]
    refine List.forall_mem_cons.2 ⟨⟨?_, List.pairwise_singleton .., ?_⟩, hvalue.nests⟩
    · show value.mark.span.start ≤ value.mark.span.stop
      rw [hextent.starts]
      exact hextent.wide
    · exact List.forall_mem_singleton.2 ⟨Nat.le_refl _, .inl (Nat.le_refl _)⟩

theorem print_sits :
    Across limit finish low high (print nested) (StmtSits limit finish high) := by
  refine .bind (.take_of_lt hhigh) fun start low₁ high₁ hstart _ hhigh₁ => ?_
  obtain ⟨rfl, hpassed⟩ := hstart
  refine .bind (.require _) fun (_, noOpening) low₂ high₂ _ hlow₂ hhigh₂ => ?_
  refine .bind (h.expression _ _) fun value low₃ high₃ hvalue hlow₃ _ => ?_
  refine .bind (.require _) fun (_, noClosing) low₄ high₄ _ hlow₄ hhigh₄ => ?_
  have hrows := (Rows.single hvalue.extent).weaken (Nat.le_refl _) hlow₄ hhigh₄
  exact closed_sits (by omega) hrows (by omega) hvalue.nests (fun _ => rfl)
    fun span => by rw [Stmt.families]; rfl

theorem returning_sits :
    Across limit finish low high (returning nested) (StmtSits limit finish high) := by
  refine .bind (.take_of_lt hhigh) fun start low₁ high₁ hstart _ hhigh₁ => ?_
  obtain ⟨rfl, hpassed⟩ := hstart
  refine .bind .peek fun kind low₂ high₂ hkind _ _ => ?_
  obtain ⟨rfl, rfl, -⟩ := hkind
  dsimp only
  split
  · refine .bind (.pure (P := fun value? low high => value? = none ∧ low = low₂ ∧ high = high₂)
      ⟨rfl, rfl, rfl⟩) fun value? low₃ high₃ heq _ _ => ?_
    obtain ⟨rfl, rfl, rfl⟩ := heq
    exact closed_sits hpassed .nil hhigh₁ (List.forall_mem_nil _) (fun _ => rfl)
      fun span => by rw [Stmt.families]; rfl
  · refine .bind (.bind (h.expression _ _) fun value low₃ high₃ hvalue _ _ =>
      .pure (P := fun value? low high => ∃ value, value? = some value ∧
        ExprSits limit finish high₂ value low high) ⟨value, rfl, hvalue⟩)
      fun value? low₃ high₃ hvalue hlow₃ _ => ?_
    obtain ⟨value, rfl, hvalue⟩ := hvalue
    exact closed_sits (by omega) (.single hvalue.extent) hhigh₁ hvalue.nests (fun _ => rfl)
      fun span => by rw [Stmt.families]; rfl

omit h in
theorem function_sits {block : BlockReader} (hblock : block.Nests limit finish) :
    Across limit finish low high (function block) (StmtSits limit finish high) := by
  refine .bind (.take_of_lt hhigh) fun start low₁ high₁ hstart _ hhigh₁ => ?_
  obtain ⟨rfl, hpassed⟩ := hstart
  refine .bind (.require _) fun (name, noName) low₂ high₂ _ hlow₂ hhigh₂ => ?_
  refine .bind (.require _) fun (_, noOpening) low₃ high₃ _ hlow₃ hhigh₃ => ?_
  refine .bind (parameters_across _ _) fun (params, badParams) low₄ high₄ _ hlow₄ hhigh₄ => ?_
  refine .bind (.require _) fun (_, noClosing) low₅ high₅ _ hlow₅ hhigh₅ => ?_
  refine .bind (typeAfterColon_across _ _) fun (ty?, badType) low₆ high₆ _ hlow₆ hhigh₆ => ?_
  refine .bind (hblock _ _) fun (body, badBody) low₇ high₇ hbody hlow₇ _ => ?_
  exact closed_sits (by omega) hbody.rows (by omega) (Stmt.forall_familiesAll hbody.nests)
    (fun _ => rfl) fun span => by rw [Stmt.families]; rfl

variable {block : BlockReader} (hblock : block.Nests limit finish)
include hblock

theorem loop_sits :
    Across limit finish low high (loop nested block) (StmtSits limit finish high) := by
  refine .bind (.take_of_lt hhigh) fun start low₁ high₁ hstart _ hhigh₁ => ?_
  obtain ⟨rfl, hpassed⟩ := hstart
  refine .bind (.require _) fun (_, noOpening) low₂ high₂ _ hlow₂ hhigh₂ => ?_
  refine .bind (.require _) fun (name, noName) low₃ high₃ _ hlow₃ hhigh₃ => ?_
  refine .bind (.require _) fun (_, noIn) low₄ high₄ _ hlow₄ hhigh₄ => ?_
  refine .bind (h.expression _ _) fun iterable low₅ high₅ hiterable hlow₅ hhigh₅ => ?_
  refine .bind (.require _) fun (_, noClosing) low₆ high₆ _ hlow₆ hhigh₆ => ?_
  refine .bind (hblock _ _) fun (body, badBody) low₇ high₇ hbody hlow₇ hhigh₇ => ?_
  have hrows := (Rows.single hiterable.extent).append hbody.rows hhigh₆ (by omega) (by omega)
    (by omega)
  exact closed_sits (by omega) hrows (by omega)
    (List.forall_mem_append.2 ⟨hiterable.nests, Stmt.forall_familiesAll hbody.nests⟩)
    (fun _ => rfl) fun span => by rw [Stmt.families]; rfl

theorem conditionalWith_sits {elseIf : Reader (Stmt Mark)}
    (helse : ∀ low high, high < limit → Across limit finish low high elseIf
      (StmtSits limit finish high)) :
    Across limit finish low high (conditionalWith nested block elseIf)
      (StmtSits limit finish high) := by
  refine .bind (.take_of_lt hhigh) fun start low₁ high₁ hstart _ hhigh₁ => ?_
  obtain ⟨rfl, hpassed⟩ := hstart
  refine .bind (.require _) fun (_, noOpening) low₂ high₂ _ hlow₂ hhigh₂ => ?_
  refine .bind (h.expression _ _) fun condition low₃ high₃ hcondition hlow₃ hhigh₃ => ?_
  refine .bind (.require _) fun (_, noClosing) low₄ high₄ _ hlow₄ hhigh₄ => ?_
  refine .bind (hblock _ _) fun (thenBody, badThen) low₅ high₅ hthen hlow₅ hhigh₅ => ?_
  refine .bind (.accept _) fun alternative low₆ high₆ _ hlow₆ hhigh₆ => ?_
  have hrows := (Rows.single hcondition.extent).append hthen.rows hhigh₄ (by omega) (by omega)
    (by omega)
  have hnests := List.forall_mem_append.2
    ⟨hcondition.nests, Stmt.forall_familiesAll hthen.nests⟩
  cases alternative with
  | false =>
    exact closed_sits (by omega) (hrows.weaken (Nat.le_refl _) hlow₆ hhigh₆) (by omega) hnests
      (fun _ => rfl) fun span => by rw [Stmt.families]; rfl
  | true =>
    have hclose : ∀ (elseBody : List (Stmt Mark)) (errors : List Diagnostic) {low' high' : Nat},
        BodySits limit finish high₆ elseBody low' high' → low₆ ≤ low' → high₆ ≤ high' →
        Across limit finish low' high' (do
          return .ifThenElse ⟨← spanFrom start.span, errors⟩ condition thenBody elseBody)
          (StmtSits limit finish start.span.start) := by
      intro elseBody errors low' high' helse hlow hhigh
      have hall := hrows.append helse.rows hhigh₆ (by omega) (by omega) (by omega)
      exact closed_sits (by omega) hall (by omega)
        (List.forall_mem_append.2 ⟨hnests, Stmt.forall_familiesAll helse.nests⟩)
        (fun _ => rfl) fun span => by rw [Stmt.families]; rfl
    refine .bind .peek fun kind low₇ high₇ hkind _ _ => ?_
    obtain ⟨rfl, rfl, hnext⟩ := hkind
    dsimp only
    split
    · next hif =>
      refine .bind (helse _ _ (hnext (by rw [hif]; decide))) fun other low₈ high₈ hother hlow₈
        hhigh₈ => ?_
      refine .bind (.pure (P := fun read low high => read = ([other], []) ∧ low = low₈ ∧
        high = high₈) ⟨rfl, rfl, rfl⟩) fun read low₉ high₉ heq _ _ => ?_
      obtain ⟨rfl, rfl, rfl⟩ := heq
      exact hclose [other] _ ⟨.single hother.extent, List.forall_mem_singleton.2 hother.nests⟩
        hlow₈ hhigh₈
    · refine .bind (hblock _ _) fun (elseBody, badElse) low₈ high₈ helse hlow₈ hhigh₈ => ?_
      exact hclose elseBody _ helse hlow₈ hhigh₈

omit hhigh in
theorem conditional_sits (bound low high : Nat) (hhigh : high < limit) :
    Across limit finish low high (conditional nested block bound) (StmtSits limit finish high) := by
  induction bound generalizing low high with
  | zero => exact conditionalWith_sits h hhigh hblock fun _ _ _ => strayStatement_sits _ _
  | succ bound ih => exact conditionalWith_sits h hhigh hblock ih

omit hhigh hblock in
theorem statementWith_sits {block : Bool → BlockReader}
    (hblock : ∀ inFunction, (block inFunction).Nests limit finish) (inFunction : Bool)
    (low high : Nat) : Across limit finish low high (statementWith nested block inFunction)
      (StmtSits limit finish high) := by
  refine .bind .peek fun kind low₁ high₁ hkind _ _ => ?_
  obtain ⟨rfl, rfl, hstart⟩ := hkind
  split
  · exact declaration_sits h (hstart nofun)
  · exact function_sits (hstart nofun) (hblock true)
  · refine .bind .remaining fun bound low₂ high₂ hbound _ _ => ?_
    obtain ⟨rfl, rfl⟩ := hbound
    exact conditional_sits h (hblock inFunction) bound _ _ (hstart nofun)
  · exact loop_sits h (hstart nofun) (hblock inFunction)
  · exact print_sits h (hstart nofun)
  · exact named_sits h (hstart nofun)
  · cases inFunction with
    | true => exact returning_sits h (hstart nofun)
    | false => exact strayStatement_sits _ _
  · exact strayStatement_sits _ _

omit h hhigh hblock in
theorem block_nests (room : Nat) (inFunction : Bool) :
    BlockReader.Nests (Grammar.block room inFunction) limit finish := by
  induction room generalizing inFunction with
  | zero =>
    refine fun low high => .bind .current fun token low₁ high₁ htoken _ _ => .pure ?_
    exact ⟨.nil, nofun⟩
  | succ room ih =>
    refine fun low high => .bind (.require _) fun (_, noOpening) low₁ high₁ _ _ hhigh₁ => ?_
    refine .bind .remaining fun bound low₂ high₂ hbound _ _ => ?_
    obtain ⟨rfl, rfl⟩ := hbound
    refine .bind (repeated_sits (statementWith_sits (Nested.nests limit finish room) ih inFunction)
      _ bound _ _) fun body low₃ high₃ hbody _ _ => ?_
    refine .bind (.require _) fun (_, noClosing) low₄ high₄ _ hlow₄ hhigh₄ => .pure ?_
    exact ⟨hbody.rows.weaken hhigh₁ hlow₄ hhigh₄, hbody.nests⟩

end Statements

section Programs

/-- A program runs to the token in focus, so it holds whatever has been read. -/
theorem programMark_holds {first : Span} {marks : List Mark}
    (hrows : Rows limit first.start marks low high) :
    Across limit finish low high (programMark first) fun mark _ _ =>
      Nests limit finish (mark, marks) := by
  refine .bind .current fun token low' high' htoken _ _ => .pure ?_
  obtain ⟨rfl, rfl, hstart, hwide⟩ := htoken
  refine ⟨Span.start_le_stop_through .., hrows.apart, fun part hpart => ?_⟩
  obtain ⟨hfirst, -, hbefore, -⟩ := hrows.each part hpart
  refine ⟨hfirst, .inl ?_⟩
  show part.span.stop ≤ max token.span.stop first.start
  omega

/-- All families of the program nest. -/
def ProgramNests (limit finish : Nat) (p : Program Mark) : Prop :=
  ∀ family ∈ p.families, Nests limit finish family

theorem expressionProgram_nests (low high : Nat) :
    Across limit finish low high expressionProgram fun p _ _ => ProgramNests limit finish p := by
  refine .bind .current fun start low₁ high₁ hstart _ _ => ?_
  obtain ⟨rfl, rfl, rfl, -⟩ := hstart
  refine .bind ((Nested.nests limit finish maxNesting).expression _ _) fun body low₂ high₂ hbody
    _ _ => ?_
  refine .bind (programMark_holds (.single hbody.extent)) fun mark _ _ hmark _ _ => .pure ?_
  exact List.forall_mem_cons.2 ⟨hmark, hbody.nests⟩

theorem statements_sits (low high : Nat) :
    Across limit finish low high statements (BodySits limit finish high) := by
  refine .bind .remaining fun bound low₁ high₁ hbound _ _ => ?_
  obtain ⟨rfl, rfl⟩ := hbound
  exact repeated_sits (statementWith_sits (Nested.nests limit finish maxNesting)
    (block_nests maxNesting) false) _ bound _ _

theorem statementProgram_nests (low high : Nat) :
    Across limit finish low high statementProgram fun p _ _ => ProgramNests limit finish p := by
  refine .bind .current fun start low₁ high₁ hstart _ _ => ?_
  obtain ⟨rfl, rfl, rfl, -⟩ := hstart
  refine .bind (statements_sits _ _) fun body low₂ high₂ hbody _ _ => ?_
  refine .bind (programMark_holds hbody.rows) fun mark _ _ hmark _ _ => .pure ?_
  exact List.forall_mem_cons.2 ⟨hmark, Stmt.forall_familiesAll hbody.nests⟩

theorem program_nests {cursor : Cursor} (hlined : cursor.Lined limit finish) :
    ProgramNests limit finish (program.run cursor).1 := by
  have hexpression := (expressionProgram_nests _ _ cursor hlined rfl rfl).2.2.2
  have hstatements := (statementProgram_nests _ _ cursor hlined rfl rfl).2.2.2
  rw [program_run]
  split
  · split
    · exact hstatements
    · exact hexpression
  · exact hstatements

end Programs

end Grammar

theorem lined_of_apart {front : List Token} {last : Token}
    (hkinds : ∀ token ∈ front, token.kind ≠ .endOfInput ∧ token.span.start < token.span.stop)
    (hkind : last.kind = .endOfInput) (hstart : last.span.start = limit)
    (hstop : last.span.stop = limit)
    (hapart : (front ++ [last]).Pairwise fun token later => token.span.stop ≤ later.span.start)
    (hlow : ∀ first ∈ (front ++ [last]).head?, low ≤ first.span.start) :
    Lined limit ((front.getLast?.map fun token => token.span.stop).getD low) low
      (front ++ [last]) := by
  induction front generalizing low with
  | nil => exact .stop hkind hstart hstop (hstart ▸ hlow last rfl)
  | cons token rest ih =>
    obtain ⟨htoken, hwide⟩ := hkinds token List.mem_cons_self
    obtain ⟨hfirst, hrest⟩ := List.pairwise_cons.1 hapart
    have hlined := ih (fun token ht => hkinds token (List.mem_cons_of_mem _ ht)) hrest
      fun next hnext => hfirst next (List.mem_of_mem_head? hnext)
    have hfinish : ((token :: rest).getLast?.map fun token => token.span.stop).getD low =
        (rest.getLast?.map fun token => token.span.stop).getD token.span.stop := by
      cases rest with
      | nil => rfl
      | cons next later => rw [List.getLast?_cons_cons, List.getLast?_cons]; rfl
    rw [hfinish]
    exact .token htoken (hlow token rfl) hwide hlined

/-- Where the last token of a text before the end of the input ends. -/
def Token.lastStop (source : String) : Nat :=
  ((Token.scan source).dropLast.getLast?.map fun token => token.span.stop).getD 0

/-- In the tree of a text the spans of the parts of a node are apart, in order, and inside the span
of the node, except for parts that reach to the end of the input. -/
theorem Grammar.parse_nests (source : String) :
    ∀ family ∈ (parse source).families,
      Nests source.utf8ByteSize (Token.lastStop source) family := by
  refine program_nests ?_
  obtain ⟨-, htiles⟩ := Token.scan_tiles source
  obtain ⟨front, last, hscan, hkind, hstart, hstop, hkinds⟩ := htiles.ends
  have hupcoming := (Cursor.proper_scan source).2
  have hbehind : (Cursor.ofTokens (Token.scan source)).behind = 0 := by
    unfold Cursor.ofTokens
    split <;> rfl
  unfold Cursor.Lined Token.lastStop
  rw [hbehind, hupcoming, hscan, List.dropLast_concat]
  exact lined_of_apart hkinds hkind hstart hstop (hscan ▸ htiles.apart) fun _ _ => Nat.zero_le _

end CatScript
