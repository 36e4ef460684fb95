import CatScript.Proofs.Grammar.Passing

/-! # Readers and offsets

A reader is followed by two offsets: `low`, where the token that was passed last ends, and `high`,
where the token in focus starts.  The end of the input is at `limit`, and `finish` is where the last
token before it ends.  `Reader.Across` says what a reader gives and where it stands then. -/
set_option autoImplicit false
namespace CatScript

variable {β γ : Type} {limit finish low high start : Nat}

section Cursors

/-- The tokens stand behind `low` one after the other, up to the end of the input. -/
inductive Lined (limit finish : Nat) : (low : Nat) → (tokens : List Token) → Prop where
  | stop {token : Token} : token.kind = .endOfInput → token.span.start = limit →
      token.span.stop = limit → finish ≤ limit → Lined limit finish finish [token]
  | token {low : Nat} {token : Token} {rest : List Token} : token.kind ≠ .endOfInput →
      low ≤ token.span.start → token.span.start < token.span.stop →
      Lined limit finish token.span.stop rest → Lined limit finish low (token :: rest)

structure Offsets (limit finish low high : Nat) : Prop where
  order : low ≤ high
  bound : high ≤ limit
  ends : high = limit → low = finish

namespace Cursor

/-- Where the token that was passed last ends. -/
def behind (cursor : Cursor) : Nat :=
  (cursor.passed.head?.map fun token => token.span.stop).getD 0

def front (cursor : Cursor) : Nat :=
  cursor.current.span.start

def Lined (limit finish : Nat) (cursor : Cursor) : Prop :=
  CatScript.Lined limit finish cursor.behind cursor.upcoming

end Cursor

theorem Lined.le_limit {tokens : List Token} (h : Lined limit finish low tokens) : low ≤ limit := by
  induction h with
  | stop _ _ _ hfinish => exact hfinish
  | token _ hlow hwide _ ih => omega

theorem Cursor.Lined.fits {cursor : Cursor} (h : cursor.Lined limit finish) :
    Offsets limit finish cursor.behind cursor.front := by
  unfold Cursor.Lined Cursor.upcoming at h
  generalize hlow : cursor.behind = low at h ⊢
  obtain ⟨passed, current, ahead⟩ := cursor
  cases h with
  | stop _ hstart _ hfinish =>
    exact ⟨Nat.le_trans hfinish (Nat.le_of_eq hstart.symm), Nat.le_of_eq hstart, fun _ => rfl⟩
  | token _ hle hwide hrest =>
    have := hrest.le_limit
    exact ⟨hle, by unfold Cursor.front; omega, fun hend => by unfold Cursor.front at hend; omega⟩

theorem Cursor.Lined.next {cursor : Cursor} (h : cursor.Lined limit finish) :
    (cursor.current.kind = .endOfInput ∧ cursor.front = limit ∧ cursor.current.span.stop = limit ∧
        cursor.next = cursor) ∨
      (cursor.current.kind ≠ .endOfInput ∧ cursor.front < limit ∧
        cursor.front < cursor.current.span.stop ∧ cursor.next.behind = cursor.current.span.stop ∧
        cursor.next.Lined limit finish) := by
  unfold Cursor.Lined Cursor.upcoming at h
  generalize hlow : cursor.behind = low at h
  obtain ⟨passed, current, ahead⟩ := cursor
  cases h with
  | stop hkind hstart hstop _ => exact .inl ⟨hkind, hstart, hstop, rfl⟩
  | token hkind hle hwide hrest =>
    have hbound := hrest.le_limit
    refine .inr ⟨hkind, Nat.lt_of_lt_of_le hwide hbound, hwide, ?_⟩
    cases ahead with
    | nil => cases hrest
    | cons first rest => exact ⟨rfl, hrest⟩

end Cursors

namespace Reader

/-- From a cursor with `low` behind it and `high` before it the reader moves on, and what it gives
and the offsets of the cursor then are as `P` wants them. -/
def Across (limit finish low high : Nat) (reader : Reader β) (P : β → Nat → Nat → Prop) : Prop :=
  ∀ cursor : Cursor, cursor.Lined limit finish → cursor.behind = low → cursor.front = high →
    (reader.run cursor).2.Lined limit finish ∧ low ≤ (reader.run cursor).2.behind ∧
      high ≤ (reader.run cursor).2.front ∧
      P (reader.run cursor).1 (reader.run cursor).2.behind (reader.run cursor).2.front

namespace Across
variable {P P' : β → Nat → Nat → Prop} {Q : γ → Nat → Nat → Prop}

theorem pure {b : β} (h : P b low high) : Across limit finish low high (Pure.pure b) P := by
  rintro cursor hlined rfl rfl
  exact ⟨hlined, Nat.le_refl _, Nat.le_refl _, h⟩

theorem bind {reader : Reader β} {next : β → Reader γ} (h : Across limit finish low high reader P)
    (hnext : ∀ b low' high', P b low' high' → low ≤ low' → high ≤ high' →
      Across limit finish low' high' (next b) Q) :
    Across limit finish low high (reader >>= next) Q := by
  rintro cursor hlined rfl rfl
  obtain ⟨hlined', hlow, hhigh, hb⟩ := h cursor hlined rfl rfl
  obtain ⟨hlined'', hlow', hhigh', hc⟩ := hnext _ _ _ hb hlow hhigh _ hlined' rfl rfl
  exact ⟨hlined'', Nat.le_trans hlow hlow', Nat.le_trans hhigh hhigh', hc⟩

theorem mono {reader : Reader β} (h : Across limit finish low high reader P)
    (himp : ∀ b low' high', P b low' high' → P' b low' high') :
    Across limit finish low high reader P' := by
  rintro cursor hlined hlow hhigh
  obtain ⟨hlined', hlow', hhigh', hb⟩ := h cursor hlined hlow hhigh
  exact ⟨hlined', hlow', hhigh', himp _ _ _ hb⟩

theorem fits {reader : Reader β}
    (h : Offsets limit finish low high → Across limit finish low high reader P) :
    Across limit finish low high reader P := by
  rintro cursor hlined rfl rfl
  exact h hlined.fits cursor hlined rfl rfl

theorem current : Across limit finish low high Reader.current fun token low' high' =>
    low' = low ∧ high' = high ∧ token.span.start = high ∧ high ≤ token.span.stop := by
  rintro cursor hlined rfl rfl
  refine ⟨hlined, Nat.le_refl _, Nat.le_refl _, rfl, rfl, rfl, ?_⟩
  rcases hlined.next with ⟨-, hhigh, hstop, -⟩ | ⟨-, -, hwide, -⟩
  · exact Nat.le_of_eq (hhigh.trans hstop.symm)
  · exact Nat.le_of_lt hwide

theorem peek : Across limit finish low high Reader.peek fun kind low' high' =>
    low' = low ∧ high' = high ∧ (kind ≠ .endOfInput → high < limit) := by
  rintro cursor hlined rfl rfl
  refine ⟨hlined, Nat.le_refl _, Nat.le_refl _, rfl, rfl, fun hkind => ?_⟩
  rcases hlined.next with ⟨hend, -⟩ | ⟨-, hhigh, -⟩
  · exact absurd hend hkind
  · exact hhigh

theorem remaining : Across limit finish low high Reader.remaining fun _ low' high' =>
    low' = low ∧ high' = high := by
  rintro cursor hlined rfl rfl
  exact ⟨hlined, Nat.le_refl _, Nat.le_refl _, rfl, rfl⟩

theorem take : Across limit finish low high Reader.take fun token low' high' =>
    token.span.start = high ∧ (token.kind ≠ .endOfInput → high < limit) ∧
      ((high < low' ∧ low' = token.span.stop) ∨
        (high = limit ∧ token.span.stop = limit ∧ high' = limit)) := by
  rintro cursor hlined rfl rfl
  have hrun : Reader.take.run cursor = (cursor.current, cursor.next) := rfl
  rw [hrun]
  dsimp only
  have hfits := hlined.fits
  rcases hlined.next with ⟨hkind, hhigh, hstop, hnext⟩ | ⟨hkind, hhigh, hwide, hlow, hnext⟩
  · rw [hnext]
    exact ⟨hlined, Nat.le_refl _, Nat.le_refl _, rfl, fun hne => absurd hkind hne,
      .inr ⟨hhigh, hstop, hhigh⟩⟩
  · have hfits' := hnext.fits
    have horder := hfits.order
    have horder' := hfits'.order
    rw [hlow] at horder' ⊢
    exact ⟨hnext, by omega, by omega, rfl, fun _ => hhigh, .inl ⟨hwide, rfl⟩⟩

theorem take_of_lt (hhigh : high < limit) :
    Across limit finish low high Reader.take fun token low' _ =>
      token.span.start = high ∧ high < low' := by
  refine take.mono fun token low' high' htaken => ?_
  obtain ⟨hstart, -, ⟨hlow, -⟩ | ⟨hend, -⟩⟩ := htaken
  · exact ⟨hstart, hlow⟩
  · omega

theorem accept (kind : TokenKind) :
    Across limit finish low high (Reader.accept kind) fun _ _ _ => True := by
  rintro cursor hlined rfl rfl
  by_cases hkind : cursor.current.kind = kind
  · have hrun : (Reader.accept kind).run cursor = (true, cursor.next) := if_pos hkind
    rw [hrun]
    obtain ⟨hnext, hlow, hhigh, -⟩ := take cursor hlined rfl rfl
    exact ⟨hnext, hlow, hhigh, trivial⟩
  · have hrun : (Reader.accept kind).run cursor = (false, cursor) := if_neg hkind
    rw [hrun]
    exact ⟨hlined, Nat.le_refl _, Nat.le_refl _, trivial⟩

theorem require (kind : TokenKind) :
    Across limit finish low high (Reader.require kind) fun _ _ _ => True := by
  rintro cursor hlined rfl rfl
  by_cases hkind : cursor.current.kind = kind
  · have hrun : (Reader.require kind).run cursor = ((cursor.current, []), cursor.next) :=
      if_pos hkind
    rw [hrun]
    obtain ⟨hnext, hlow, hhigh, -⟩ := take cursor hlined rfl rfl
    exact ⟨hnext, hlow, hhigh, trivial⟩
  · have hrun : (Reader.require kind).run cursor =
        ((cursor.current, [unexpected cursor.current]), cursor) := if_neg hkind
    rw [hrun]
    exact ⟨hlined, Nat.le_refl _, Nat.le_refl _, trivial⟩

theorem spanFrom {first : Span} (hfirst : first.start < low) :
    Across limit finish low high (Reader.spanFrom first) fun span low' high' =>
      low' = low ∧ high' = high ∧ span.start = first.start ∧ span.stop = low := by
  rintro cursor hlined rfl rfl
  refine ⟨hlined, Nat.le_refl _, Nat.le_refl _, rfl, rfl, rfl, ?_⟩
  have hrun : ((Reader.spanFrom first).run cursor).1 = first.through cursor.last.span := rfl
  have hlast : cursor.last.span.stop = cursor.behind := by
    unfold Cursor.behind at hfirst ⊢
    unfold Cursor.last
    cases hpassed : cursor.passed with
    | nil => simp [hpassed] at hfirst
    | cons token rest => rfl
  rw [hrun, Span.through, hlast]
  exact Nat.max_eq_left (Nat.le_of_lt hfirst)

end Across
end Reader
end CatScript
