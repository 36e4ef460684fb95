import CatScript.Proofs.Grammar.Passing
import CatScript.Tree.Marks

/-! # Expressions are read as they are written

Where nothing is reported, the tokens that a reader of expressions passes write the expression that
it gives, and they write it as tightly as its operators bind. -/
set_option autoImplicit false
namespace CatScript

variable {fits : Mark → List Token → Prop}

namespace Mark.Covers
variable {a b : Mark} {tokens others : List Token}

theorem ne_nil (h : a.Covers tokens) : tokens ≠ [] := by
  obtain ⟨first, last, hfirst, -, -⟩ := h
  rintro rfl
  cases hfirst

theorem through (ha : a.Covers tokens) (hb : b.Covers others) (between : List Token)
    (horder : InOrder (tokens ++ (between ++ others))) (errors : List Diagnostic) :
    Mark.Covers ⟨a.span.through b.span, errors⟩ (tokens ++ (between ++ others)) := by
  obtain ⟨first, middle, hfirst, -, ha⟩ := ha
  obtain ⟨after, last, -, hlast, hb⟩ := hb
  have hhead : (tokens ++ (between ++ others)).head? = some first := by
    rw [List.head?_append, hfirst]
    rfl
  have htail : (tokens ++ (between ++ others)).getLast? = some last := by
    rw [List.getLast?_append, List.getLast?_append, hlast]
    rfl
  refine ⟨first, last, hhead, htail, ?_⟩
  have hle := horder.start_le_stop hhead htail
  simp only [Span.through, ha, hb, Nat.max_eq_left hle]

end Mark.Covers

theorem Expr.Spelled.mark_fits {e : Expr Mark} {room : Nat} {tokens : List Token}
    (h : e.Spelled fits room tokens) : fits e.mark tokens := by
  cases h <;> assumption

namespace Grammar
open Reader

def Clean (marks : List Mark) : Prop :=
  ∀ mark ∈ marks, mark.errors = []

theorem clean_cons {mark : Mark} {marks : List Mark} :
    Clean (mark :: marks) ↔ mark.errors = [] ∧ Clean marks :=
  List.forall_mem_cons

theorem clean_append {marks others : List Mark} :
    Clean (marks ++ others) ↔ Clean marks ∧ Clean others :=
  List.forall_mem_append

/-- Unless something is reported, the tokens write the expression, which binds at least as tightly
as `level` says. -/
def Written (room level : Nat) (e : Expr Mark) (tokens : List Token) : Prop :=
  Clean e.marks → e.Spelled Mark.Covers room tokens ∧ e.grouped = true ∧ level ≤ e.level

structure Nested.Faithful (nested : Nested) (room : Nat) : Prop where
  expression : Spec nested.expression fun e tokens => Clean e.marks →
    ∃ left, room = left + 1 ∧ e.Spelled Mark.Covers left tokens ∧ e.grouped = true
  operand : Spec nested.operand fun e tokens => Clean e.marks →
    ∃ left, room = left + 1 ∧ e.Spelled Mark.Covers left tokens ∧ e.grouped = true ∧ 4 ≤ e.level

section Expressions
variable {room level : Nat} {cursor : Cursor} {tokens : List Token}

theorem stray_faithful {P : Expr Mark → List Token → Prop} :
    Spec strayExpression fun e tokens => Clean e.marks → P e tokens := by
  intro cursor hproper
  refine .bind (.take hproper) fun token passed _ => .pure fun hclean => ?_
  cases (clean_cons.1 hclean).1

section Chains
variable {ω : Type} {op? : TokenKind → Option ω}
  {build : Mark → ω → Expr Mark → Expr Mark → Expr Mark} {operand : Reader (Expr Mark)}

/-- How the operators of one level are written. -/
structure Layer (op? : TokenKind → Option ω)
    (build : Mark → ω → Expr Mark → Expr Mark → Expr Mark) (level : Nat) : Prop where
  stops : op? .endOfInput = none
  marks : ∀ mark op left right,
    (build mark op left right).marks = mark :: (left.marks ++ right.marks)
  spelled : ∀ {room : Nat} {mark : Mark} {op : ω} {left right : Expr Mark} {operator : Token}
    {tokens others : List Token}, op? operator.kind = some op →
    left.Spelled Mark.Covers room tokens → right.Spelled Mark.Covers room others →
    mark.Covers (tokens ++ operator :: others) →
    (build mark op left right).Spelled Mark.Covers room (tokens ++ operator :: others)
  grouped : ∀ {mark : Mark} {op : ω} {left right : Expr Mark} {kind : TokenKind},
    op? kind = some op → left.grouped = true → level ≤ left.level → right.grouped = true →
    level < right.level →
    (build mark op left right).grouped = true ∧ level ≤ (build mark op left right).level

theorem chain_written (hlayer : Layer op? build level)
    (hoperand : Spec operand (Written room (level + 1))) (hproper : cursor.Proper) (bound : Nat)
    {left : Expr Mark} (hleft : Written room level left tokens) :
    After cursor tokens (chain op? build operand bound left) (Written room level) := by
  induction bound generalizing left tokens with
  | zero => exact .pure hleft
  | succ bound ih =>
    refine .bind .peek fun kind passed hkind => ?_
    obtain ⟨rfl, rfl⟩ := hkind
    cases hop : op? (cursor.tokenAfter passed).kind with
    | none => exact .pure hleft
    | some op =>
      have hnot : (cursor.tokenAfter passed).kind ≠ .endOfInput := by
        intro hend
        rw [hend, hlayer.stops] at hop
        cases hop
      refine .bind (.take_of_ne hproper hnot) fun operator behind htaken => ?_
      obtain ⟨rfl, rfl⟩ := htaken
      refine .bind (After.inOrder hproper (.of_spec hoperand hproper)) fun right all hright => ?_
      obtain ⟨⟨others, rfl, hright⟩, horder⟩ := hright
      refine ih fun hclean => ?_
      rw [hlayer.marks, clean_cons, clean_append] at hclean
      obtain ⟨hspelled, hgrouped, hlevel⟩ := hleft hclean.2.1
      obtain ⟨hspelled', hgrouped', hlevel'⟩ := hright hclean.2.2
      rw [List.append_assoc] at horder ⊢
      have hcovers := hspelled.mark_fits.through hspelled'.mark_fits
        [cursor.tokenAfter passed] horder []
      exact ⟨hlayer.spelled hop hspelled hspelled' hcovers,
        hlayer.grouped hop hgrouped hlevel hgrouped' hlevel'⟩

theorem leftAssociative_written (hlayer : Layer op? build level)
    (hoperand : Spec operand (Written room (level + 1))) :
    Spec (leftAssociative op? build operand) (Written room level) := by
  intro cursor hproper
  refine .bind (hoperand cursor hproper) fun left passed hleft => ?_
  refine .bind .remaining fun bound behind hbound => ?_
  obtain ⟨-, rfl⟩ := hbound
  refine chain_written hlayer hoperand hproper bound fun hclean => ?_
  obtain ⟨hspelled, hgrouped, hlevel⟩ := hleft hclean
  exact ⟨hspelled, hgrouped, Nat.le_of_succ_le hlevel⟩

theorem factor_layer : Layer factorOp? (Expr.binary (α := Mark)) 3 := by
  refine ⟨rfl, fun mark op left right => by rw [Expr.marks], ?_, ?_⟩
  · intro room mark op left right operator tokens others hop hleft hright hcovers
    exact .binary (binaryOp?_eq_some.1 (.inr hop)) hleft hright hcovers
  · intro mark op left right kind hop hleft hlevel hright hlevel'
    have hop : op.level = 3 := by
      cases kind <;> cases hop <;> rfl
    rw [Expr.grouped_binary, Expr.level_binary, hop]
    exact ⟨⟨⟨hlevel, hleft⟩, hlevel', hright⟩, Nat.le_refl 3⟩

theorem additive_layer : Layer additiveOp? (Expr.binary (α := Mark)) 2 := by
  refine ⟨rfl, fun mark op left right => by rw [Expr.marks], ?_, ?_⟩
  · intro room mark op left right operator tokens others hop hleft hright hcovers
    exact .binary (binaryOp?_eq_some.1 (.inl hop)) hleft hright hcovers
  · intro mark op left right kind hop hleft hlevel hright hlevel'
    have hop : op.level = 2 := by
      cases kind <;> cases hop <;> rfl
    rw [Expr.grouped_binary, Expr.level_binary, hop]
    exact ⟨⟨⟨hlevel, hleft⟩, hlevel', hright⟩, Nat.le_refl 2⟩

theorem comparison_layer : Layer comparisonOp? (Expr.comparison (α := Mark)) 1 := by
  refine ⟨rfl, fun mark op left right => by rw [Expr.marks], ?_, ?_⟩
  · intro room mark op left right operator tokens others hop hleft hright hcovers
    exact .comparison (comparisonOp?_eq_some.1 hop) hleft hright hcovers
  · intro mark op left right kind hop hleft hlevel hright hlevel'
    exact ⟨Expr.grouped_comparison.2 ⟨⟨hlevel, hleft⟩, hlevel', hright⟩, Nat.le_refl 1⟩

end Chains

section Parts
variable {nested : Nested} (hnested : nested.Faithful room)
include hnested

omit hnested in
theorem spelledAll_of_separated {items : List (Expr Mark)}
    (h : Separated (fun e tokens => Clean e.marks → ∃ left, room = left + 1 ∧
      e.Spelled Mark.Covers left tokens ∧ e.grouped = true) items tokens)
    (hclean : Clean (Expr.marksAll items)) :
    Expr.SpelledAll Mark.Covers room items tokens ∧ Expr.groupedAll items = true := by
  induction h with
  | nil => exact ⟨.nil, rfl⟩
  | single he =>
    rw [Expr.marksAll, clean_append] at hclean
    obtain ⟨left, rfl, hspelled, hgrouped⟩ := he hclean.1
    exact ⟨.single hspelled, by simp [Expr.groupedAll, hgrouped]⟩
  | cons he hcomma _ ih =>
    rw [Expr.marksAll, clean_append] at hclean
    obtain ⟨left, rfl, hspelled, hgrouped⟩ := he hclean.1
    obtain ⟨hspelled', hgrouped'⟩ := ih hclean.2
    exact ⟨.cons hspelled hcomma hspelled', by rw [Expr.groupedAll, hgrouped, hgrouped']; rfl⟩

theorem call_written (hproper : cursor.Proper) {name : Token} (hname : name.kind = .identifier) :
    After cursor [name] (call nested name) fun e tokens =>
      (∃ mark args, e = .call mark name.text args) ∧ Written room 5 e tokens := by
  have hclose : ∀ (errors : List Diagnostic) (args : List (Expr Mark)) (passed : List Token),
      passed.head? = some name → (errors = [] → Clean (Expr.marksAll args) → ∃ opening closing inside,
        passed = name :: opening :: (inside ++ [closing]) ∧ opening.kind = .leftParen ∧
        closing.kind = .rightParen ∧ Expr.SpelledAll Mark.Covers room args inside ∧
        Expr.groupedAll args = true) →
      After cursor passed (do return .call ⟨← spanFrom name.span, errors⟩ name.text args)
        fun e tokens => (∃ mark args, e = .call mark name.text args) ∧ Written room 5 e tokens := by
    intro errors args passed hhead h
    refine .bind (.spanFrom hproper hhead) fun span behind hspan => .pure ?_
    obtain ⟨rfl, hcovers⟩ := hspan
    refine ⟨⟨_, _, rfl⟩, fun hclean => ?_⟩
    rw [Expr.marks, clean_cons] at hclean
    obtain ⟨opening, closing, inside, rfl, hopening, hclosing, hargs, hgrouped⟩ :=
      h hclean.1 hclean.2
    exact ⟨.call hname hopening hargs hclosing (hcovers _), hgrouped, Nat.le_refl 5⟩
  refine .bind (.require hproper (by decide)) fun required passed hopening => ?_
  obtain ⟨opening, missing⟩ := required
  obtain ⟨new, rfl, hopening⟩ := hopening
  dsimp only
  split
  · refine .bind (.accept hproper (by decide)) fun empty behind hempty => ?_
    rcases hempty with ⟨rfl, closing, hclosing, rfl⟩ | ⟨rfl, -, rfl⟩
    · refine hclose _ [] _ rfl fun herrors _ => ?_
      obtain ⟨hkind, rfl⟩ := hopening (List.append_eq_nil_iff.1 herrors).1
      exact ⟨opening, closing, [], rfl, hkind, hclosing, .nil, rfl⟩
    · refine .bind .remaining fun bound behind hbound => ?_
      obtain ⟨-, rfl⟩ := hbound
      refine .bind (.of_spec (hnested.expression.separated bound) hproper) fun args all hargs => ?_
      obtain ⟨inside, rfl, -, hargs⟩ := hargs
      refine .bind (.accept hproper (by decide)) fun closed last hclosed => ?_
      rcases hclosed with ⟨rfl, closing, hclosing, rfl⟩ | ⟨rfl, -, rfl⟩
      · refine hclose _ args _ rfl fun herrors hclean => ?_
        obtain ⟨hkind, rfl⟩ := hopening (List.append_eq_nil_iff.1 herrors).1
        obtain ⟨hspelled, hgrouped⟩ := spelledAll_of_separated hargs hclean
        exact ⟨opening, closing, inside, by simp, hkind, hclosing, hspelled, hgrouped⟩
      · refine .bind .current fun token behind htoken => ?_
        obtain ⟨-, rfl⟩ := htoken
        refine hclose _ args _ rfl fun herrors _ => ?_
        cases (List.append_eq_nil_iff.1 herrors).2
  · next hkind =>
    refine hclose _ [] _ rfl fun herrors _ => ?_
    exact absurd (hopening (List.append_eq_nil_iff.1 herrors).1).1 hkind

theorem list_written (hproper : cursor.Proper) {opening : Token}
    (hopening : opening.kind = .leftBracket) :
    After cursor [opening] (list nested opening) (Written room 5) := by
  have hclose : ∀ (items : List (Expr Mark)) (inside : List Token),
      (Clean (Expr.marksAll items) →
        Expr.SpelledAll Mark.Covers room items inside ∧ Expr.groupedAll items = true) →
      After cursor (opening :: inside) (do
        let errors ← if ← accept .rightBracket then pure []
          else pure [⟨.unterminatedList, (← current).span⟩]
        return .list ⟨← spanFrom opening.span, errors⟩ items) (Written room 5) := by
    intro items inside h
    refine .bind (.accept hproper (by decide)) fun closed last hclosed => ?_
    rcases hclosed with ⟨rfl, closing, hclosing, rfl⟩ | ⟨rfl, -, rfl⟩
    · refine .bind (P := fun errors passed => passed = opening :: (inside ++ [closing]))
        (.pure rfl) fun errors passed hpassed => ?_
      subst hpassed
      refine .bind (.spanFrom hproper rfl) fun span behind hspan => .pure fun hclean => ?_
      obtain ⟨rfl, hcovers⟩ := hspan
      rw [Expr.marks, clean_cons] at hclean
      obtain ⟨hspelled, hgrouped⟩ := h hclean.2
      exact ⟨.list hopening hspelled hclosing (hcovers _), hgrouped, Nat.le_refl 5⟩
    · refine .bind .current fun token behind htoken => ?_
      obtain ⟨-, rfl⟩ := htoken
      refine .bind (P := fun errors passed => errors ≠ [] ∧ passed = opening :: inside)
        (.pure ⟨List.cons_ne_nil _ _, rfl⟩) fun errors passed hpassed => ?_
      obtain ⟨hne, rfl⟩ := hpassed
      refine .bind (.spanFrom hproper rfl) fun span behind _ => .pure fun hclean => ?_
      exact absurd (clean_cons.1 hclean).1 hne
  refine .bind .peek fun kind passed hkind => ?_
  obtain ⟨-, rfl⟩ := hkind
  split
  · refine .bind (P := fun items passed => items = [] ∧ passed = [opening]) (.pure ⟨rfl, rfl⟩)
      fun items passed hitems => ?_
    obtain ⟨rfl, rfl⟩ := hitems
    exact hclose [] [] fun _ => ⟨.nil, rfl⟩
  · refine .bind .remaining fun bound behind hbound => ?_
    obtain ⟨-, rfl⟩ := hbound
    refine .bind (.of_spec (hnested.expression.separated bound) hproper) fun items all hitems => ?_
    obtain ⟨inside, rfl, -, hitems⟩ := hitems
    exact hclose items inside (spelledAll_of_separated hitems)

theorem parenthesized_written (hproper : cursor.Proper) {opening : Token}
    (hopening : opening.kind = .leftParen) :
    After cursor [opening] (parenthesized nested opening) (Written room 5) := by
  refine .bind (.of_spec hnested.expression hproper) fun inner all hinner => ?_
  obtain ⟨inside, rfl, hinner⟩ := hinner
  refine .bind (.require hproper (by decide)) fun (closing, errors) passed hclosing => ?_
  obtain ⟨new, rfl, hclosing⟩ := hclosing
  refine .bind (.spanFrom hproper rfl) fun span behind hspan => .pure fun hclean => ?_
  obtain ⟨rfl, hcovers⟩ := hspan
  rw [Expr.marks, clean_cons] at hclean
  obtain ⟨hkind, rfl⟩ := hclosing hclean.1
  obtain ⟨left, rfl, hspelled, hgrouped⟩ := hinner hclean.2
  exact ⟨.parenthesized hopening hspelled hkind (hcovers _), hgrouped, Nat.le_refl 5⟩

theorem primary_written : Spec (primary nested) (Written room 5) := by
  intro cursor hproper
  refine .bind (.take hproper) fun token passed htoken => ?_
  obtain ⟨-, hpassed, -⟩ := htoken
  have hpassed : token.kind ≠ .endOfInput → passed = [token] := hpassed
  dsimp only
  split
  · next hkind =>
    obtain rfl := hpassed (by rw [hkind]; decide)
    refine .bind .peek fun next behind hnext => ?_
    obtain ⟨-, rfl⟩ := hnext
    split
    · exact (call_written hnested hproper hkind).mono fun _ _ h => h.2
    · exact .pure fun _ => ⟨.identifier hkind (Mark.covers_single token []), rfl, Nat.le_refl 5⟩
  · next hkind =>
    obtain rfl := hpassed (by rw [hkind]; decide)
    split
    · next value hvalue =>
      exact .pure fun _ =>
        ⟨.integer hkind (integer?_eq_some.1 hvalue) (Mark.covers_single token []), rfl, Nat.le_refl 5⟩
    · refine .pure fun hclean => ?_
      cases (clean_cons.1 hclean).1
  · next hkind =>
    obtain rfl := hpassed (by rw [hkind]; decide)
    exact .pure fun _ => ⟨.string hkind (Mark.covers_single token []), rfl, Nat.le_refl 5⟩
  · next hkind =>
    obtain rfl := hpassed (by rw [hkind]; decide)
    exact .pure fun _ => ⟨.trueWord hkind (Mark.covers_single token []), rfl, Nat.le_refl 5⟩
  · next hkind =>
    obtain rfl := hpassed (by rw [hkind]; decide)
    exact .pure fun _ => ⟨.falseWord hkind (Mark.covers_single token []), rfl, Nat.le_refl 5⟩
  · next hkind =>
    obtain rfl := hpassed (by rw [hkind]; decide)
    exact .pure fun _ => ⟨.nullWord hkind (Mark.covers_single token []), rfl, Nat.le_refl 5⟩
  · next hkind =>
    obtain rfl := hpassed (by rw [hkind]; decide)
    exact list_written hnested hproper hkind
  · next hkind =>
    obtain rfl := hpassed (by rw [hkind]; decide)
    exact parenthesized_written hnested hproper hkind
  · refine .pure fun hclean => ?_
    cases (clean_cons.1 hclean).1

theorem unary_written : Spec (unary nested) (Written room 4) := by
  intro cursor hproper
  refine .bind .peek fun kind passed hkind => ?_
  obtain ⟨rfl, rfl⟩ := hkind
  cases hop : unaryOp? (cursor.tokenAfter []).kind with
  | none =>
    refine (primary_written hnested cursor hproper).mono fun e tokens he hclean => ?_
    obtain ⟨hspelled, hgrouped, hlevel⟩ := he hclean
    exact ⟨hspelled, hgrouped, Nat.le_of_succ_le hlevel⟩
  | some op =>
    have hnot : (cursor.tokenAfter []).kind ≠ .endOfInput := by
      intro hend
      rw [hend] at hop
      cases hop
    refine .bind (.take_of_ne hproper hnot) fun operator behind htaken => ?_
    obtain ⟨rfl, rfl⟩ := htaken
    refine .bind (After.inOrder hproper (.of_spec hnested.operand hproper))
      fun operand all hoperand => .pure fun hclean => ?_
    obtain ⟨⟨others, rfl, hoperand⟩, horder⟩ := hoperand
    rw [Expr.marks, clean_cons] at hclean
    obtain ⟨left, rfl, hspelled, hgrouped, hlevel⟩ := hoperand hclean.2
    have hcovers := (Mark.covers_single (cursor.tokenAfter []) []).through hspelled.mark_fits []
      horder []
    exact ⟨.unary (unaryOp?_eq_some.1 hop) hspelled hcovers, Expr.grouped_unary.2 ⟨hlevel, hgrouped⟩, Nat.le_refl 4⟩

theorem comparison_written : Spec (comparison nested) (Written room 1) := by
  have hfactor := leftAssociative_written factor_layer (unary_written hnested)
  have hadditive := leftAssociative_written additive_layer hfactor
  exact leftAssociative_written comparison_layer hadditive

theorem equality_written : Spec (equality nested) (Written room 0) := by
  intro cursor hproper
  refine .bind (comparison_written hnested cursor hproper) fun left passed hleft => ?_
  refine .bind .peek fun kind behind hkind => ?_
  obtain ⟨rfl, rfl⟩ := hkind
  cases hop : equalityOp? (cursor.tokenAfter behind).kind with
  | none =>
    refine .pure fun hclean => ?_
    obtain ⟨hspelled, hgrouped, hlevel⟩ := hleft hclean
    exact ⟨hspelled, hgrouped, Nat.zero_le _⟩
  | some op =>
    have hnot : (cursor.tokenAfter behind).kind ≠ .endOfInput := by
      intro hend
      rw [hend] at hop
      cases hop
    refine .bind (.take_of_ne hproper hnot) fun operator last htaken => ?_
    obtain ⟨rfl, rfl⟩ := htaken
    refine .bind (After.inOrder hproper (.of_spec hnested.expression hproper))
      fun right all hright => .pure fun hclean => ?_
    obtain ⟨⟨others, rfl, hright⟩, horder⟩ := hright
    rw [Expr.marks, clean_cons, clean_append] at hclean
    obtain ⟨hspelled, hgrouped, hlevel⟩ := hleft hclean.2.1
    obtain ⟨room, rfl, hspelled', hgrouped'⟩ := hright hclean.2.2
    rw [List.append_assoc] at horder ⊢
    have hcovers := hspelled.mark_fits.through hspelled'.mark_fits
      [cursor.tokenAfter behind] horder []
    exact ⟨.equality (equalityOp?_eq_some.1 hop) hspelled hspelled' hcovers,
      Expr.grouped_equality.2 ⟨⟨hlevel, hgrouped⟩, hgrouped'⟩, Nat.le_refl 0⟩

omit hnested in
/-- Whatever room there is, what is read is written in that room. -/
theorem Nested.faithful (room : Nat) : (Nested.ofRoom room).Faithful room := by
  induction room with
  | zero => exact ⟨stray_faithful, stray_faithful⟩
  | succ room ih =>
    refine ⟨fun cursor hproper => ?_, fun cursor hproper => ?_⟩
    · refine (equality_written ih cursor hproper).mono fun e tokens he hclean => ?_
      obtain ⟨hspelled, hgrouped, -⟩ := he hclean
      exact ⟨room, rfl, hspelled, hgrouped⟩
    · refine (unary_written ih cursor hproper).mono fun e tokens he hclean => ?_
      exact ⟨room, rfl, he hclean⟩

end Parts
end Expressions

end Grammar
end CatScript
