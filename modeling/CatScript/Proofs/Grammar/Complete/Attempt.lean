import Mathlib.Data.List.Chain
import CatScript.Proofs.Grammar.Passing
import CatScript.Grammar.Program

/-! # What an expression cannot take up

Whatever a reader of expressions is given, it passes no two neighbours that are not linked: after an
operand it only goes on with an operator, a comma or something that closes.  So it gets stuck in
every list of statements but a single call. -/
set_option autoImplicit false
namespace CatScript
open Grammar Reader

/-- Whether an operand may come after a token of this kind. -/
def TokenKind.expects : TokenKind → Bool
  | .notWord | .plus | .minus | .star | .slash | .equalEqual | .bangEqual | .less | .lessEqual
  | .greater | .greaterEqual | .comma | .leftParen | .leftBracket => true
  | _ => false

/-- Whether a token of this kind may come after an operand. -/
def TokenKind.joins : TokenKind → Bool
  | .plus | .minus | .star | .slash | .equalEqual | .bangEqual | .less | .lessEqual | .greater
  | .greaterEqual | .comma | .rightParen | .rightBracket => true
  | _ => false

/-- Whether the second token may come right after the first one in an expression. -/
def Token.Links (a b : Token) : Prop :=
  a.kind.expects = true ∨ b.kind.joins = true ∨ a.kind = .identifier ∧ b.kind = .leftParen

def Linked (tokens : List Token) : Prop :=
  tokens.IsChain Token.Links

/-- Each of the tokens links the next one, and anything may come after the last one. -/
def LinkedOpen (tokens : List Token) : Prop :=
  Linked tokens ∧ ∀ last ∈ tokens.getLast?, last.kind.expects = true

section Tokens
variable {tokens others : List Token} {token : Token}

theorem linked_singleton : Linked [token] :=
  .singleton token

theorem LinkedOpen.append (h : LinkedOpen tokens) (h' : Linked others) :
    Linked (tokens ++ others) := by
  refine List.isChain_append.2 ⟨h.1, h', fun a ha b hb => ?_⟩
  exact .inl (h.2 a ha)

theorem Linked.snoc (h : Linked tokens) (hjoins : token.kind.joins = true) :
    Linked (tokens ++ [token]) := by
  refine List.isChain_append.2 ⟨h, .singleton token, fun _ _ b hb => ?_⟩
  cases hb
  exact .inr (.inl hjoins)

theorem Linked.opened (h : Linked (tokens ++ [token])) (hexpects : token.kind.expects = true) :
    LinkedOpen (tokens ++ [token]) := by
  refine ⟨h, fun last hlast => ?_⟩
  rw [List.getLast?_concat] at hlast
  cases hlast
  exact hexpects

theorem linkedOpen_singleton (hexpects : token.kind.expects = true) : LinkedOpen [token] := by
  have hlinked : Linked ([] ++ [token]) := linked_singleton
  exact hlinked.opened hexpects

theorem linked_of_separated {β : Type} {items : List β}
    (h : Separated (fun _ tokens => Linked tokens) items tokens) : Linked tokens := by
  induction h with
  | nil => exact .nil
  | single hitem => exact hitem
  | @cons _ _ _ tokens others comma hitem hcomma _ ih =>
    have hsnoc : Linked (tokens ++ [comma]) := hitem.snoc (by rw [hcomma]; rfl)
    have hall := (hsnoc.opened (by rw [hcomma]; rfl)).append ih
    rwa [List.append_assoc] at hall

end Tokens

namespace Grammar
variable {cursor : Cursor} {tokens : List Token} {nested : Nested}

def PassesLinked {β : Type} (reader : Reader β) : Prop :=
  Spec reader fun _ passed => Linked passed

theorem require_linked (hproper : cursor.Proper) {kind : TokenKind} (hkind : kind ≠ .endOfInput)
    (h : Linked tokens) (hjoins : kind.joins = true) :
    After cursor tokens (require kind) fun _ passed => Linked passed := by
  refine (After.require_cases hproper hkind).mono fun read passed hread => ?_
  rcases hread with ⟨-, hsame, rfl⟩ | ⟨-, -, rfl⟩
  · exact h.snoc (by rw [hsame, hjoins])
  · exact h

theorem accept_linked (hproper : cursor.Proper) {kind : TokenKind} (hkind : kind ≠ .endOfInput)
    (h : Linked tokens) (hjoins : kind.joins = true) :
    After cursor tokens (accept kind) fun _ passed => Linked passed := by
  refine (After.accept hproper hkind).mono fun accepted passed haccepted => ?_
  rcases haccepted with ⟨-, token, hsame, rfl⟩ | ⟨-, -, rfl⟩
  · exact h.snoc (by rw [hsame, hjoins])
  · exact h

theorem spanFrom_linked {β : Type} {start : Span} {next : Span → Reader β}
    (hnext : ∀ span, After cursor tokens (next span) fun _ passed => Linked passed) :
    After cursor tokens (spanFrom start >>= next) fun _ passed => Linked passed := by
  refine .bind (P := fun _ passed => passed = tokens) (fun now hnow => ⟨tokens, hnow, rfl⟩) ?_
  rintro span _ rfl
  exact hnext span

theorem PassesLinked.after {β : Type} {reader : Reader β} (h : PassesLinked reader)
    (hproper : cursor.Proper) (hopen : LinkedOpen tokens) :
    After cursor tokens reader fun _ passed => Linked passed := by
  refine (After.of_spec h hproper).mono fun _ passed hpassed => ?_
  obtain ⟨new, rfl, hnew⟩ := hpassed
  exact hopen.append hnew

theorem stray_linked : PassesLinked strayExpression := by
  intro cursor hproper
  refine .bind (.take hproper) fun token passed htoken => .pure ?_
  obtain ⟨-, hnot, hend⟩ := htoken
  by_cases hkind : token.kind = .endOfInput
  · rw [hend hkind]
    exact .nil
  · rw [hnot hkind]
    exact linked_singleton

theorem chain_linked {ω : Type} {op? : TokenKind → Option ω}
    {build : Mark → ω → Expr Mark → Expr Mark → Expr Mark} {operand : Reader (Expr Mark)}
    (hop : ∀ {kind op}, op? kind = some op → kind.expects = true ∧ kind.joins = true)
    (hoperand : PassesLinked operand) (hproper : cursor.Proper) (bound : Nat)
    {left : Expr Mark} (h : Linked tokens) :
    After cursor tokens (chain op? build operand bound left) fun _ passed => Linked passed := by
  induction bound generalizing left tokens with
  | zero => exact .pure h
  | succ bound ih =>
    refine .bind .peek fun kind passed hkind => ?_
    obtain ⟨rfl, rfl⟩ := hkind
    cases hknown : op? (cursor.tokenAfter passed).kind with
    | none => exact .pure h
    | some op =>
      obtain ⟨hexpects, hjoins⟩ := hop hknown
      have hnot : (cursor.tokenAfter passed).kind ≠ .endOfInput := by
        intro hend
        rw [hend] at hexpects
        cases hexpects
      refine .bind (.take_of_ne hproper hnot) fun operator behind htaken => ?_
      obtain ⟨rfl, rfl⟩ := htaken
      refine .bind (hoperand.after hproper ((h.snoc hjoins).opened hexpects)) fun right all hall => ?_
      exact ih hall

theorem leftAssociative_linked {ω : Type} {op? : TokenKind → Option ω}
    {build : Mark → ω → Expr Mark → Expr Mark → Expr Mark} {operand : Reader (Expr Mark)}
    (hop : ∀ {kind op}, op? kind = some op → kind.expects = true ∧ kind.joins = true)
    (hoperand : PassesLinked operand) : PassesLinked (leftAssociative op? build operand) := by
  intro cursor hproper
  refine .bind (hoperand cursor hproper) fun left passed hleft => ?_
  refine .bind .remaining fun bound behind hbound => ?_
  obtain ⟨-, rfl⟩ := hbound
  exact chain_linked hop hoperand hproper bound hleft

section Parts
variable (hnested : PassesLinked nested.expression) (hproper : cursor.Proper)
include hnested hproper

theorem parts_linked (bound : Nat) (hopen : LinkedOpen tokens) :
    After cursor tokens (separated nested.expression bound) fun _ passed => Linked passed := by
  refine (After.of_spec (Spec.separated hnested bound) hproper).mono fun items passed hitems => ?_
  obtain ⟨new, rfl, -, hnew⟩ := hitems
  exact hopen.append (linked_of_separated hnew)

theorem list_linked {opening : Token} (hopen : LinkedOpen tokens) :
    After cursor tokens (list nested opening) fun _ passed => Linked passed := by
  have hclose : ∀ (items : List (Expr Mark)) (passed : List Token), Linked passed →
      After cursor passed (do
        let errors ← if ← accept .rightBracket then pure []
          else pure [⟨.unterminatedList, (← current).span⟩]
        return .list ⟨← spanFrom opening.span, errors⟩ items : Reader (Expr Mark))
        fun _ passed => Linked passed := by
    intro items passed h
    have hend : ∀ errors passed, Linked passed → After cursor passed (do
        return .list ⟨← spanFrom opening.span, errors⟩ items : Reader (Expr Mark))
        fun _ passed => Linked passed := fun errors passed h =>
      spanFrom_linked fun span => .pure h
    refine .bind (accept_linked hproper (by decide) h rfl) fun closed behind hbehind => ?_
    cases closed with
    | true => exact .bind (.pure hbehind) fun errors _ h => hend errors _ h
    | false =>
      refine .bind .current fun token _ htoken => ?_
      obtain ⟨-, rfl⟩ := htoken
      exact .bind (.pure hbehind) fun errors _ h => hend errors _ h
  refine .bind .peek fun kind passed hkind => ?_
  obtain ⟨-, rfl⟩ := hkind
  split
  · exact .bind (.pure hopen.1) fun items _ h => hclose items _ h
  · refine .bind .remaining fun bound _ hbound => ?_
    obtain ⟨-, rfl⟩ := hbound
    exact .bind (parts_linked hnested hproper bound hopen) fun items _ h => hclose items _ h

theorem call_linked {name : Token} (hname : name.kind = .identifier) :
    After cursor [name] (call nested name) fun _ passed => Linked passed := by
  have hend : ∀ errors args passed, Linked passed → After cursor passed (do
      return .call ⟨← spanFrom name.span, errors⟩ name.text args : Reader (Expr Mark))
      fun _ passed => Linked passed := fun errors args passed h =>
    spanFrom_linked fun span => .pure h
  refine .bind (.require_cases hproper (by decide)) fun (opening, missing) passed hopening => ?_
  dsimp only
  rcases hopening with ⟨-, hsame, rfl⟩ | ⟨-, hnot, rfl⟩
  · have hopen : LinkedOpen ([name] ++ [opening]) := by
      refine Linked.opened (List.isChain_pair.2 (.inr (.inr ⟨hname, hsame⟩))) ?_
      rw [hsame]
      rfl
    rw [if_pos hsame]
    refine .bind (.accept hproper (by decide)) fun closed behind hclosed => ?_
    rcases hclosed with ⟨rfl, closing, hclosing, rfl⟩ | ⟨rfl, -, rfl⟩
    · exact hend _ [] _ (hopen.1.snoc (by rw [hclosing]; rfl))
    · refine .bind .remaining fun bound _ hbound => ?_
      obtain ⟨-, rfl⟩ := hbound
      refine .bind (parts_linked hnested hproper bound hopen) fun args _ hargs => ?_
      refine .bind (accept_linked hproper (by decide) hargs rfl) fun closed _ hclosed => ?_
      cases closed with
      | true => exact hend _ args _ hclosed
      | false =>
        refine .bind .current fun token _ htoken => ?_
        obtain ⟨-, rfl⟩ := htoken
        exact hend _ args _ hclosed
  · rw [if_neg hnot]
    exact hend _ [] _ linked_singleton

theorem parenthesized_linked {opening : Token} (hopen : LinkedOpen tokens) :
    After cursor tokens (parenthesized nested opening) fun _ passed => Linked passed := by
  refine .bind (hnested.after hproper hopen) fun inner _ hinner => ?_
  refine .bind (require_linked hproper (by decide) hinner rfl) fun (_, errors) _ hclosed => ?_
  exact spanFrom_linked fun span => .pure hclosed

end Parts

theorem primary_linked (hnested : PassesLinked nested.expression) :
    PassesLinked (primary nested) := by
  intro cursor hproper
  refine .bind (.take hproper) fun token passed htoken => ?_
  obtain ⟨-, hnot, hend⟩ := htoken
  have hnot : token.kind ≠ .endOfInput → passed = [token] := hnot
  have hone : Linked passed := by
    by_cases hkind : token.kind = .endOfInput
    · rw [hend hkind]
      exact .nil
    · rw [hnot hkind]
      exact linked_singleton
  have hopen : token.kind.expects = true → LinkedOpen passed := by
    intro hexpects
    obtain rfl := hnot (by intro hkind; rw [hkind] at hexpects; cases hexpects)
    exact linkedOpen_singleton hexpects
  dsimp only
  split
  · next hkind =>
    obtain rfl := hnot (by rw [hkind]; decide)
    refine .bind .peek fun next _ hnext => ?_
    obtain ⟨-, rfl⟩ := hnext
    split
    · exact call_linked hnested hproper hkind
    · exact .pure hone
  · split <;> exact .pure hone
  · exact .pure hone
  · exact .pure hone
  · exact .pure hone
  · exact .pure hone
  · next hkind => exact list_linked hnested hproper (hopen (by rw [hkind]; rfl))
  · next hkind => exact parenthesized_linked hnested hproper (hopen (by rw [hkind]; rfl))
  · exact .pure hone

theorem unary_linked (hnested : PassesLinked nested.expression)
    (hoperand : PassesLinked nested.operand) : PassesLinked (unary nested) := by
  intro cursor hproper
  refine .bind .peek fun kind passed hkind => ?_
  obtain ⟨rfl, rfl⟩ := hkind
  cases hop : unaryOp? (cursor.tokenAfter []).kind with
  | none => exact primary_linked hnested cursor hproper
  | some op =>
    have hexpects : (cursor.tokenAfter []).kind.expects = true := by
      generalize (cursor.tokenAfter []).kind = kind at hop
      cases kind <;> cases hop <;> rfl
    have hnot : (cursor.tokenAfter []).kind ≠ .endOfInput := by
      intro hend
      rw [hend] at hexpects
      cases hexpects
    refine .bind (.take_of_ne hproper hnot) fun operator behind htaken => ?_
    obtain ⟨rfl, rfl⟩ := htaken
    exact .bind (hoperand.after hproper (linkedOpen_singleton hexpects))
      fun operand _ hlinked => .pure hlinked

theorem comparison_linked (hunary : PassesLinked (unary nested)) :
    PassesLinked (comparison nested) := by
  have hfactor : PassesLinked (factor nested) := by
    refine leftAssociative_linked (fun {kind op} hop => ?_) hunary
    cases kind <;> cases hop <;> exact ⟨rfl, rfl⟩
  have hadditive : PassesLinked (additive nested) := by
    refine leftAssociative_linked (fun {kind op} hop => ?_) hfactor
    cases kind <;> cases hop <;> exact ⟨rfl, rfl⟩
  refine leftAssociative_linked (fun {kind op} hop => ?_) hadditive
  cases kind <;> cases hop <;> exact ⟨rfl, rfl⟩

theorem equality_linked (hnested : PassesLinked nested.expression)
    (hunary : PassesLinked (unary nested)) : PassesLinked (equality nested) := by
  intro cursor hproper
  refine .bind (comparison_linked hunary cursor hproper) fun left passed hleft => ?_
  refine .bind .peek fun kind behind hkind => ?_
  obtain ⟨rfl, rfl⟩ := hkind
  cases hop : equalityOp? (cursor.tokenAfter behind).kind with
  | none => exact .pure hleft
  | some op =>
    have hlinks : (cursor.tokenAfter behind).kind.expects = true ∧
        (cursor.tokenAfter behind).kind.joins = true := by
      generalize (cursor.tokenAfter behind).kind = kind at hop
      cases kind <;> cases hop <;> exact ⟨rfl, rfl⟩
    have hnot : (cursor.tokenAfter behind).kind ≠ .endOfInput := by
      intro hend
      rw [hend] at hlinks
      cases hlinks.1
    refine .bind (.take_of_ne hproper hnot) fun operator _ htaken => ?_
    obtain ⟨rfl, rfl⟩ := htaken
    exact .bind (hnested.after hproper ((hleft.snoc hlinks.2).opened hlinks.1))
      fun right _ hlinked => .pure hlinked

theorem Nested.linked (room : Nat) : PassesLinked (Nested.ofRoom room).expression ∧
    PassesLinked (Nested.ofRoom room).operand := by
  induction room with
  | zero => exact ⟨stray_linked, stray_linked⟩
  | succ room ih =>
    have hunary := unary_linked ih.1 ih.2
    exact ⟨equality_linked ih.1 hunary, hunary⟩

end Grammar
end CatScript
