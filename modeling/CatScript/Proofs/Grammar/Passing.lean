import Mathlib.Data.List.Forall2
import CatScript.Proofs.Grammar.Spelling

/-! # Passing tokens

A reader passes tokens and gives what it has read.  `Reader.After start tokens reader P` says what a
reader gives that starts when `tokens` have been passed since `start`; what it gives and all the
tokens passed by then are as `P` wants them.  `Reader.Spec` says it of a reader that starts anywhere.
-/
set_option autoImplicit false
namespace CatScript

variable {α β γ : Type}

/-- The tokens stand one after the other in the source. -/
structure InOrder (tokens : List Token) : Prop where
  each : ∀ token ∈ tokens, token.span.start ≤ token.span.stop
  apart : tokens.Pairwise fun a b => a.span.stop ≤ b.span.start

namespace InOrder
variable {tokens others : List Token} {first last : Token}

theorem left (h : InOrder (tokens ++ others)) : InOrder tokens := by
  refine ⟨fun token ht => ?_, (List.pairwise_append.1 h.apart).1⟩
  exact h.each token (List.mem_append_left _ ht)

theorem right (h : InOrder (tokens ++ others)) : InOrder others := by
  refine ⟨fun token ht => ?_, (List.pairwise_append.1 h.apart).2.1⟩
  exact h.each token (List.mem_append_right _ ht)

theorem start_le_stop (h : InOrder tokens) (hfirst : tokens.head? = some first)
    (hlast : tokens.getLast? = some last) : first.span.start ≤ last.span.stop := by
  have hmem := List.mem_of_getLast? hlast
  cases tokens with
  | nil => cases hfirst
  | cons token rest =>
    cases hfirst
    rcases List.mem_cons.1 hmem with rfl | hmem
    · exact h.each last List.mem_cons_self
    · have hapart := (List.pairwise_cons.1 h.apart).1 last hmem
      have hfirst := h.each first List.mem_cons_self
      have hlast := h.each last (List.mem_cons_of_mem _ hmem)
      omega

theorem covers (h : InOrder tokens) (hfirst : tokens.head? = some first)
    (hlast : tokens.getLast? = some last) (errors : List Diagnostic) :
    Mark.Covers ⟨first.span.through last.span, errors⟩ tokens := by
  refine ⟨first, last, hfirst, hlast, ?_⟩
  have hle := h.start_le_stop hfirst hlast
  simp only [Span.through, Nat.max_eq_left hle]

end InOrder

theorem Mark.covers_single (token : Token) (errors : List Diagnostic) :
    Mark.Covers ⟨token.span, errors⟩ [token] :=
  ⟨token, token, rfl, rfl, rfl⟩

theorem Separated.map {item : β → List Token → Prop} {other : γ → List Token → Prop} {f : β → γ}
    {items : List β} {tokens : List Token} (h : Separated item items tokens)
    (himp : ∀ b tokens, b ∈ items → item b tokens → other (f b) tokens) :
    Separated other (items.map f) tokens := by
  induction h with
  | nil => exact .nil
  | single hitem => exact .single (himp _ _ (List.mem_singleton.2 rfl) hitem)
  | cons hitem hcomma _ ih =>
    refine .cons (himp _ _ List.mem_cons_self hitem) hcomma (ih fun b tokens hb => ?_)
    exact himp b tokens (List.mem_cons_of_mem _ hb)

namespace Cursor

/-- The tokens from the one in focus on. -/
def upcoming (cursor : Cursor) : List Token :=
  cursor.current :: cursor.ahead

/-- From one cursor to another one, past the tokens. -/
structure Passes (cursor : Cursor) (tokens : List Token) (later : Cursor) : Prop where
  upcoming : cursor.upcoming = tokens ++ later.upcoming
  passed : later.passed = tokens.reverse ++ cursor.passed

/-- What lies ahead are tokens in order, and then the end of the input. -/
def Proper (cursor : Cursor) : Prop :=
  ∃ tokens stop, cursor.upcoming = tokens ++ [stop] ∧ stop.kind = .endOfInput ∧
    (∀ token ∈ tokens, token.kind ≠ .endOfInput) ∧ InOrder tokens

def tokenAfter (cursor : Cursor) (tokens : List Token) : Token :=
  (cursor.upcoming.drop tokens.length).headD cursor.current

variable {cursor now past : Cursor} {tokens others : List Token}

theorem Passes.refl (cursor : Cursor) : cursor.Passes [] cursor := ⟨rfl, rfl⟩

theorem Passes.trans (h : cursor.Passes tokens now) (h' : now.Passes others past) :
    cursor.Passes (tokens ++ others) past := by
  refine ⟨?_, ?_⟩
  · rw [h.upcoming, h'.upcoming, List.append_assoc]
  · rw [h'.passed, h.passed, List.reverse_append, List.append_assoc]

theorem Passes.current (h : cursor.Passes tokens now) :
    now.current = cursor.tokenAfter tokens := by
  rw [tokenAfter, h.upcoming, List.drop_left]
  rfl

theorem Passes.remaining (h : cursor.Passes tokens now) :
    tokens.length + now.remaining = cursor.remaining := by
  have hlength := congrArg List.length h.upcoming
  simp only [Cursor.upcoming, List.length_append, List.length_cons] at hlength
  unfold Cursor.remaining
  omega

theorem Passes.last (h : cursor.Passes tokens now) {token : Token}
    (hlast : tokens.getLast? = some token) : now.last = token := by
  obtain ⟨before, rfl⟩ := List.getLast?_eq_some_iff.1 hlast
  rw [Cursor.last, h.passed, List.reverse_append]
  rfl

/-- The tokens passed are some of those before the end of the input, and the others are still to
come. -/
theorem Proper.split (hproper : cursor.Proper) (h : cursor.Passes tokens now) :
    ∃ others stop, now.upcoming = others ++ [stop] ∧ stop.kind = .endOfInput ∧
      (∀ token ∈ tokens ++ others, token.kind ≠ .endOfInput) ∧ InOrder (tokens ++ others) := by
  obtain ⟨all, stop, hall, hstop, hkinds, horder⟩ := hproper
  have hsplit : tokens ++ now.upcoming = all ++ [stop] := h.upcoming.symm.trans hall
  rcases List.append_eq_append_iff.1 hsplit with ⟨others, rfl, hothers⟩ | ⟨more, _, hmore⟩
  · exact ⟨others, stop, hothers, hstop, hkinds, horder⟩
  · cases more with
    | nil => exact ⟨[], stop, hmore.symm, hstop, by simp_all, by simp_all⟩
    | cons first rest => simp [Cursor.upcoming] at hmore

theorem Proper.later (hproper : cursor.Proper) (h : cursor.Passes tokens now) :
    now.Proper := by
  obtain ⟨others, stop, hothers, hstop, hkinds, horder⟩ := hproper.split h
  exact ⟨others, stop, hothers, hstop, fun token ht => hkinds token (List.mem_append_right _ ht),
    horder.right⟩

theorem Proper.inOrder (hproper : cursor.Proper) (h : cursor.Passes tokens now) :
    InOrder tokens := by
  obtain ⟨others, -, -, -, -, horder⟩ := hproper.split h
  exact horder.left

theorem Proper.passes_next (hproper : cursor.Proper) (hkind : cursor.current.kind ≠ .endOfInput) :
    cursor.Passes [cursor.current] cursor.next := by
  obtain ⟨passed, current, ahead⟩ := cursor
  obtain ⟨tokens, stop, hall, hstop, -, -⟩ := hproper
  cases ahead with
  | nil =>
    cases tokens with
    | nil =>
      cases hall
      exact absurd hstop hkind
    | cons first rest => simp [upcoming] at hall
  | cons token rest => exact ⟨rfl, rfl⟩

theorem Proper.next_eq (hproper : cursor.Proper) (hkind : cursor.current.kind = .endOfInput) :
    cursor.next = cursor := by
  obtain ⟨passed, current, ahead⟩ := cursor
  obtain ⟨tokens, stop, hall, -, hkinds, -⟩ := hproper
  cases tokens with
  | nil =>
    cases hall
    rfl
  | cons first rest =>
    cases hall
    exact absurd hkind (hkinds _ List.mem_cons_self)

end Cursor

namespace Reader

/-- What the reader gives when it starts after the tokens. -/
def After (cursor : Cursor) (tokens : List Token) (reader : Reader β)
    (P : β → List Token → Prop) : Prop :=
  ∀ now, cursor.Passes tokens now →
    ∃ passed, cursor.Passes passed (reader.run now).2 ∧ P (reader.run now).1 passed

/-- What the reader gives, wherever it starts, and which tokens it passes. -/
def Spec (reader : Reader β) (P : β → List Token → Prop) : Prop :=
  ∀ cursor : Cursor, cursor.Proper → After cursor [] reader P

variable {cursor : Cursor} {tokens : List Token} {P P' : β → List Token → Prop}
  {Q : γ → List Token → Prop}

namespace After

theorem pure {b : β} (h : P b tokens) : After cursor tokens (Pure.pure b) P := by
  intro _ hnow
  exact ⟨tokens, hnow, h⟩

theorem bind {reader : Reader β} {next : β → Reader γ} (h : After cursor tokens reader P)
    (hnext : ∀ b passed, P b passed → After cursor passed (next b) Q) :
    After cursor tokens (reader >>= next) Q := by
  intro now hnow
  obtain ⟨passed, hpassed, hb⟩ := h now hnow
  exact hnext _ passed hb _ hpassed

theorem mono {reader : Reader β} (h : After cursor tokens reader P)
    (himp : ∀ b passed, P b passed → P' b passed) : After cursor tokens reader P' := by
  intro now hnow
  obtain ⟨passed, hpassed, hb⟩ := h now hnow
  exact ⟨passed, hpassed, himp _ _ hb⟩

theorem map {reader : Reader β} {f : β → γ} (h : After cursor tokens reader P)
    (himp : ∀ b passed, P b passed → Q (f b) passed) : After cursor tokens (f <$> reader) Q := by
  rw [← bind_pure_comp]
  exact h.bind fun b passed hb => .pure (himp b passed hb)

/-- A reader in the middle of others. -/
theorem of_spec {reader : Reader β} (h : Spec reader P) (hproper : cursor.Proper) :
    After cursor tokens reader fun b passed => ∃ new, passed = tokens ++ new ∧ P b new := by
  intro now hnow
  obtain ⟨new, hnew, hb⟩ := h now (hproper.later hnow) now (.refl now)
  exact ⟨tokens ++ new, hnow.trans hnew, new, rfl, hb⟩

/-- A reader in the middle of others that is made for what is in focus there. -/
theorem of_focus {reader : Reader β} (focus : TokenKind → Prop)
    (h : ∀ cursor : Cursor, cursor.Proper → focus (cursor.tokenAfter []).kind →
      After cursor [] reader P)
    (hproper : cursor.Proper) (hfocus : focus (cursor.tokenAfter tokens).kind) :
    After cursor tokens reader fun b passed => ∃ new, passed = tokens ++ new ∧ P b new ∧
      ∀ first, new.head? = some first → first = cursor.tokenAfter tokens := by
  intro now hnow
  rw [← hnow.current] at hfocus ⊢
  obtain ⟨new, hnew, hb⟩ := h now (hproper.later hnow) hfocus now (.refl now)
  refine ⟨tokens ++ new, hnow.trans hnew, new, rfl, hb, fun first hfirst => ?_⟩
  cases new with
  | nil => cases hfirst
  | cons token rest =>
    cases hfirst
    exact ((List.cons.inj hnew.upcoming).1).symm

theorem current : After cursor tokens current fun token passed =>
    token = cursor.tokenAfter tokens ∧ passed = tokens := by
  intro _ hnow
  exact ⟨tokens, hnow, hnow.current, rfl⟩

theorem peek : After cursor tokens peek fun kind passed =>
    kind = (cursor.tokenAfter tokens).kind ∧ passed = tokens := by
  intro _ hnow
  exact ⟨tokens, hnow, congrArg Token.kind hnow.current, rfl⟩

theorem remaining : After cursor tokens remaining fun bound passed =>
    tokens.length + bound = cursor.remaining ∧ passed = tokens := by
  intro _ hnow
  exact ⟨tokens, hnow, hnow.remaining, rfl⟩

variable (hproper : cursor.Proper)
include hproper

theorem inOrder {reader : Reader β} (h : After cursor tokens reader P) :
    After cursor tokens reader fun b passed => P b passed ∧ InOrder passed := by
  intro now hnow
  obtain ⟨passed, hpassed, hb⟩ := h now hnow
  exact ⟨passed, hpassed, hb, hproper.inOrder hpassed⟩

theorem spanFrom {first : Token} (hfirst : tokens.head? = some first) :
    After cursor tokens (spanFrom first.span) fun span passed =>
      passed = tokens ∧ ∀ errors, Mark.Covers ⟨span, errors⟩ tokens := by
  intro now hnow
  obtain ⟨last, hlast⟩ : ∃ last, tokens.getLast? = some last := by
    cases tokens with
    | nil => cases hfirst
    | cons token rest => exact ⟨_, List.getLast?_eq_some_getLast (List.cons_ne_nil _ _)⟩
  have hrun : (Reader.spanFrom first.span).run now =
      (first.span.through now.last.span, now) := rfl
  rw [hrun, hnow.last hlast]
  exact ⟨tokens, hnow, rfl, (hproper.inOrder hnow).covers hfirst hlast⟩

theorem take : After cursor tokens take fun token passed => token = cursor.tokenAfter tokens ∧
    (token.kind ≠ .endOfInput → passed = tokens ++ [token]) ∧
    (token.kind = .endOfInput → passed = tokens) := by
  intro now hnow
  have hnext : (Reader.take.run now) = (now.current, now.next) := rfl
  rw [hnext]
  by_cases hkind : now.current.kind = .endOfInput
  · rw [(hproper.later hnow).next_eq hkind]
    exact ⟨tokens, hnow, hnow.current, fun hne => absurd hkind hne, fun _ => rfl⟩
  · have hpasses := hnow.trans ((hproper.later hnow).passes_next hkind)
    exact ⟨_, hpasses, hnow.current, fun _ => rfl, fun heq => absurd heq hkind⟩

theorem take_of_ne (hkind : (cursor.tokenAfter tokens).kind ≠ .endOfInput) :
    After cursor tokens Reader.take fun token passed =>
      token = cursor.tokenAfter tokens ∧ passed = tokens ++ [cursor.tokenAfter tokens] := by
  refine (take hproper).mono fun token passed htaken => ?_
  obtain ⟨rfl, hpassed, -⟩ := htaken
  exact ⟨rfl, hpassed hkind⟩

theorem accept {kind : TokenKind} (hkind : kind ≠ .endOfInput) :
    After cursor tokens (accept kind) fun accepted passed =>
      (accepted = true ∧ ∃ token : Token, token.kind = kind ∧ passed = tokens ++ [token]) ∨
      (accepted = false ∧ (cursor.tokenAfter tokens).kind ≠ kind ∧ passed = tokens) := by
  intro now hnow
  by_cases hsame : now.current.kind = kind
  · have hrun : (Reader.accept kind).run now = (true, now.next) := if_pos hsame
    rw [hrun]
    have hpasses := hnow.trans ((hproper.later hnow).passes_next (hsame ▸ hkind))
    exact ⟨_, hpasses, .inl ⟨rfl, now.current, hsame, rfl⟩⟩
  · have hrun : (Reader.accept kind).run now = (false, now) := if_neg hsame
    rw [hrun]
    exact ⟨tokens, hnow, .inr ⟨rfl, hnow.current ▸ hsame, rfl⟩⟩

theorem require_cases {kind : TokenKind} (hkind : kind ≠ .endOfInput) :
    After cursor tokens (Reader.require kind) fun read passed =>
      (read.2 = [] ∧ read.1.kind = kind ∧ passed = tokens ++ [read.1]) ∨
      (read.2 ≠ [] ∧ read.1.kind ≠ kind ∧ passed = tokens) := by
  intro now hnow
  by_cases hsame : now.current.kind = kind
  · have hrun : (Reader.require kind).run now = ((now.current, []), now.next) := if_pos hsame
    rw [hrun]
    have hpasses := hnow.trans ((hproper.later hnow).passes_next (hsame ▸ hkind))
    exact ⟨_, hpasses, .inl ⟨rfl, hsame, rfl⟩⟩
  · have hrun : (Reader.require kind).run now =
        ((now.current, [unexpected now.current]), now) := if_neg hsame
    rw [hrun]
    exact ⟨tokens, hnow, .inr ⟨List.cons_ne_nil _ _, hsame, rfl⟩⟩

theorem require {kind : TokenKind} (hkind : kind ≠ .endOfInput) :
    After cursor tokens (require kind) fun read passed => ∃ new, passed = tokens ++ new ∧
      (read.2 = [] → read.1.kind = kind ∧ new = [read.1]) := by
  refine (require_cases hproper hkind).mono fun read passed hread => ?_
  rcases hread with ⟨-, hsame, rfl⟩ | ⟨hne, -, rfl⟩
  · exact ⟨_, rfl, fun _ => ⟨hsame, rfl⟩⟩
  · exact ⟨[], (List.append_nil _).symm, fun hnil => absurd hnil hne⟩

end After

theorem Spec.separated {item : Reader β} (h : Spec item P) (bound : Nat) :
    Spec (Reader.separated item bound) fun items passed =>
      items ≠ [] ∧ Separated P items passed := by
  induction bound with
  | zero =>
    intro cursor hproper
    refine .bind (h cursor hproper) fun b passed hb => .pure ?_
    exact ⟨List.cons_ne_nil _ _, .single hb⟩
  | succ bound ih =>
    intro cursor hproper
    refine .bind (h cursor hproper) fun b passed hb => ?_
    refine .bind (.accept hproper (by decide)) fun more others hmore => ?_
    rcases hmore with ⟨rfl, comma, hcomma, rfl⟩ | ⟨rfl, -, rfl⟩
    · refine .bind (.of_spec ih hproper) fun items all hitems => .pure ?_
      obtain ⟨new, rfl, hne, hitems⟩ := hitems
      refine ⟨List.cons_ne_nil _ _, ?_⟩
      obtain ⟨next, rest, rfl⟩ := List.exists_cons_of_ne_nil hne
      rw [List.append_assoc]
      exact .cons hb hcomma hitems
    · exact .pure ⟨List.cons_ne_nil _ _, .single hb⟩

/-- What is read again and again: it stops where it should, or the rounds run out. -/
theorem After.repeated {stop : TokenKind → Bool} {item : Reader β} (h : Spec item P) (bound : Nat)
    (hproper : cursor.Proper) :
    After cursor tokens (Reader.repeated stop item bound) fun items passed =>
      ∃ pieces, passed = tokens ++ pieces.flatten ∧ List.Forall₂ P items pieces ∧
        (stop (cursor.tokenAfter passed).kind = true ∨ items.length = bound) := by
  induction bound generalizing tokens with
  | zero => exact .pure ⟨[], (List.append_nil _).symm, .nil, .inr rfl⟩
  | succ bound ih =>
    refine .bind .peek fun kind passed hkind => ?_
    obtain ⟨rfl, rfl⟩ := hkind
    by_cases hstop : stop (cursor.tokenAfter passed).kind = true
    · rw [if_pos hstop]
      exact .pure ⟨[], (List.append_nil _).symm, .nil, .inl hstop⟩
    · rw [if_neg hstop]
      refine .bind (.of_spec h hproper) fun b all hb => ?_
      obtain ⟨new, rfl, hb⟩ := hb
      refine .bind ih fun items all hitems => .pure ?_
      obtain ⟨pieces, rfl, hpieces, hend⟩ := hitems
      refine ⟨new :: pieces, by simp, .cons hb hpieces, ?_⟩
      exact hend.imp_right fun hlength => by rw [List.length_cons, hlength]

end Reader
end CatScript
