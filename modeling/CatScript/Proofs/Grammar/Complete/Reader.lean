import CatScript.Proofs.Grammar.Passing

/-! # What a reader gives for given tokens

`Reader.Gives reader input output P` says that a reader with the tokens `input` ahead of it stops
with `output` ahead and gives what `P` wants.  What has been passed before does not matter, so marks
are out of sight.  There is one rule for each step a reader can take and one for each loop. -/
set_option autoImplicit false
namespace CatScript

variable {β γ : Type}

theorem Cursor.ahead_of_upcoming {cursor : Cursor} {token : Token} {rest : List Token}
    (h : cursor.upcoming = token :: rest) : cursor.current = token ∧ cursor.ahead = rest :=
  List.cons.inj h

namespace Reader

/-- With `input` ahead the reader stops with `output` ahead and gives what `P` wants. -/
def Gives (reader : Reader β) (input output : List Token) (P : β → Prop) : Prop :=
  ∀ cursor : Cursor, cursor.upcoming = input →
    (reader.run cursor).2.upcoming = output ∧ P (reader.run cursor).1

namespace Gives
variable {reader : Reader β} {input middle output : List Token} {P P' : β → Prop} {Q : γ → Prop}
  {token : Token} {rest : List Token} {kind : TokenKind}

theorem pure {b : β} (h : P b) : Gives (Pure.pure b) input input P := by
  intro _ hinput
  exact ⟨hinput, h⟩

theorem bind {next : β → Reader γ} (h : Gives reader input middle P)
    (hnext : ∀ b, P b → Gives (next b) middle output Q) :
    Gives (reader >>= next) input output Q := by
  intro cursor hinput
  obtain ⟨hmiddle, hb⟩ := h cursor hinput
  exact hnext _ hb _ hmiddle

theorem step {b : β} {next : β → Reader γ} (h : Gives reader input middle (· = b))
    (hnext : Gives (next b) middle output Q) : Gives (reader >>= next) input output Q := by
  refine h.bind fun _ hb => ?_
  exact hb ▸ hnext

theorem mono (h : Gives reader input output P) (himp : ∀ b, P b → P' b) :
    Gives reader input output P' := by
  intro cursor hinput
  exact (h cursor hinput).imp_right (himp _)

theorem map {f : β → γ} (h : Gives reader input output P) (himp : ∀ b, P b → Q (f b)) :
    Gives (f <$> reader) input output Q := by
  rw [← bind_pure_comp]
  exact h.bind fun b hb => .pure (himp b hb)

theorem current : Gives current (token :: rest) (token :: rest) (· = token) := by
  intro _ hinput
  exact ⟨hinput, (Cursor.ahead_of_upcoming hinput).1⟩

theorem peek : Gives peek (token :: rest) (token :: rest) (· = token.kind) := by
  intro _ hinput
  exact ⟨hinput, congrArg Token.kind (Cursor.ahead_of_upcoming hinput).1⟩

theorem remaining : Gives remaining input input (· + 1 = input.length) := by
  intro _ hinput
  exact ⟨hinput, congrArg List.length hinput⟩

theorem spanFrom {start : Span} : Gives (spanFrom start) input input fun _ => True := by
  intro _ hinput
  exact ⟨hinput, trivial⟩

variable (hrest : rest ≠ [])
include hrest

omit hrest in
theorem upcoming_next {cursor : Cursor} (hrest : rest ≠ [])
    (hinput : cursor.upcoming = token :: rest) :
    cursor.next.upcoming = rest := by
  obtain ⟨-, hahead⟩ := Cursor.ahead_of_upcoming hinput
  obtain ⟨next, more, rfl⟩ := List.exists_cons_of_ne_nil hrest
  unfold Cursor.next
  rw [hahead]
  rfl

theorem take : Gives take (token :: rest) rest (· = token) := by
  intro _ hinput
  exact ⟨upcoming_next hrest hinput, (Cursor.ahead_of_upcoming hinput).1⟩

theorem accept (hkind : token.kind = kind) :
    Gives (accept kind) (token :: rest) rest (· = true) := by
  intro cursor hinput
  obtain ⟨hcurrent, -⟩ := Cursor.ahead_of_upcoming hinput
  have hrun : (Reader.accept kind).run cursor = (true, cursor.next) :=
    if_pos (by rw [hcurrent, hkind])
  rw [hrun]
  exact ⟨upcoming_next hrest hinput, rfl⟩

theorem require (hkind : token.kind = kind) :
    Gives (require kind) (token :: rest) rest (· = (token, [])) := by
  intro cursor hinput
  obtain ⟨hcurrent, -⟩ := Cursor.ahead_of_upcoming hinput
  have hrun : (Reader.require kind).run cursor = ((cursor.current, []), cursor.next) :=
    if_pos (by rw [hcurrent, hkind])
  rw [hrun, hcurrent]
  exact ⟨upcoming_next hrest hinput, rfl⟩

omit hrest in
theorem refuse (hkind : token.kind ≠ kind) :
    Gives (Reader.accept kind) (token :: rest) (token :: rest) (· = false) := by
  intro cursor hinput
  obtain ⟨hcurrent, -⟩ := Cursor.ahead_of_upcoming hinput
  have hrun : (Reader.accept kind).run cursor = (false, cursor) :=
    if_neg (by rwa [hcurrent])
  rw [hrun]
  exact ⟨hinput, rfl⟩

end Gives

section Loops
variable {item : Reader β} {spelled : γ → List Token → Prop} {R : γ → β → Prop}
  {tokens rest : List Token} {next : Token}

theorem length_le_of_separated {items : List γ} (h : Separated spelled items tokens) :
    items.length ≤ tokens.length + 1 := by
  induction h with
  | nil | single _ => simp
  | cons _ _ _ ih =>
    simp only [List.length_cons, List.length_append] at ih ⊢
    omega

/-- Items with commas between them; each must be read when a comma or `next` follows it. -/
theorem Gives.separated {items : List γ} (h : Separated spelled items tokens) (hne : items ≠ [])
    (hnext : next.kind ≠ .comma) (hitem : ∀ c ∈ items, ∀ tokens follow rest, spelled c tokens →
      follow = next ∨ follow.kind = .comma →
      Gives item (tokens ++ follow :: rest) (follow :: rest) (R c)) :
    ∀ bound, items.length ≤ bound + 1 →
      Gives (Reader.separated item bound) (tokens ++ next :: rest) (next :: rest)
        (List.Forall₂ R items) := by
  induction h with
  | nil => exact absurd rfl hne
  | single hc =>
    intro bound _
    have hfirst := hitem _ (List.mem_singleton.2 rfl) _ next rest hc (.inl rfl)
    cases bound with
    | zero => exact hfirst.bind fun b hb => .pure (.cons hb .nil)
    | succ bound =>
      exact hfirst.bind fun b hb => (Gives.refuse hnext).step (.pure (.cons hb .nil))
  | cons hc hcomma hrest ih =>
    intro bound hbound
    rename_i others comma
    cases bound with
    | zero => simp at hbound
    | succ bound =>
      have hfirst := hitem _ List.mem_cons_self _ comma (others ++ next :: rest) hc (.inr hcomma)
      rw [List.append_assoc, List.cons_append]
      refine hfirst.bind fun b hb => (Gives.accept (by simp) hcomma).step ?_
      refine (ih (List.cons_ne_nil _ _) (fun c hc => hitem c (List.mem_cons_of_mem _ hc)) bound
        (by simp only [List.length_cons] at hbound ⊢; omega)).bind fun bs hbs => .pure (.cons hb hbs)

end Loops
end Reader
end CatScript
