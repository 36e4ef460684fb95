import CatScript.Proofs.Grammar.Complete.Attempt
import CatScript.Proofs.Grammar.Complete.Statement
import CatScript.Proofs.Grammar.Written.Program

/-! # What is written is read as a program

A program is read back from a text whose tokens spell it.  A list of statements is tried as an
expression first; that attempt leaves something unread unless the list is a single call, since the
first statement of any other list has neighbours that no expression takes up. -/
set_option autoImplicit false
namespace CatScript
open Grammar Reader

variable {α : Type} {fits : α → List Token → Prop}

def Program.isLoneCall : Program α → Bool
  | .statements _ [.call ..] => true
  | _ => false

/-- Whether no `return` without a value in the program has an assignment or a call after it. -/
def Program.settled : Program α → Bool
  | .expression .. => true
  | .statements _ body => Stmt.settledAll body

def Program.CleanCopy (p : Program α) (read : Program Mark) : Prop :=
  read.map (fun _ => ()) = p.map (fun _ => ()) ∧ Clean read.marks

section Attempts
variable {room : Nat} {s : Stmt α} {rest : List (Stmt α)} {tokens others : List Token}

theorem Stmt.Spelled.start_joins {inFunction : Bool} (h : s.Spelled fits room inFunction tokens) :
    s.startKind.joins = false := by
  cases h <;> rfl

theorem not_linked_of_start {a b : Token} (h : ¬a.Links b) : ¬Linked (a :: b :: tokens) := by
  intro hlinked
  exact h (List.isChain_cons_cons.1 hlinked).1

theorem not_links_of_kinds {a b : Token} {kind kind' : TokenKind} (ha : a.kind = kind)
    (hb : b.kind = kind') (hexpects : kind.expects = false) (hjoins : kind'.joins = false)
    (hcall : ¬(kind = .identifier ∧ kind' = .leftParen)) : ¬a.Links b := by
  unfold Token.Links
  rw [ha, hb, hexpects, hjoins]
  simpa using hcall

/-- Only a call may be taken up by an expression. -/
theorem Stmt.Spelled.not_linked (h : s.Spelled fits room false tokens)
    (hcall : ∀ mark value, s ≠ .call mark value) : ¬Linked (tokens ++ others) := by
  cases h with
  | declaration hstart hname _ _ _ _ | function hstart hname _ _ _ _ _ _ =>
    exact not_linked_of_start (not_links_of_kinds hstart hname rfl rfl (by decide))
  | assignment hname hequal _ _ =>
    exact not_linked_of_start (not_links_of_kinds hname hequal rfl rfl (by decide))
  | ifThen hstart hopening _ _ _ _ | ifThenElse hstart hopening _ _ _ _ _ _
  | elseIf hstart hopening _ _ _ _ _ _ _ | loop hstart hopening _ _ _ _ _ _
  | print hstart hopening _ _ _ =>
    exact not_linked_of_start (not_links_of_kinds hstart hopening rfl rfl (by decide))
  | call _ _ => exact absurd rfl (hcall _ _)

theorem Stmt.Spelled.call_not_linked {own : α} {value : Expr α} {first : Token}
    (h : (Stmt.call own value).Spelled fits room false tokens) (hjoins : first.kind.joins = false) :
    ¬Linked (tokens ++ first :: others) := by
  cases h with
  | call hvalue _ =>
    cases hvalue with
    | @call _ _ _ name opening closing inside hname hopening hargs hclosing _ =>
      intro hlinked
      have hlast : (name :: opening :: inside ++ [closing]).getLast? = some closing :=
        List.getLast?_concat
      have hlinks : closing.Links first :=
        (List.isChain_append.1 hlinked).2.2 closing hlast first rfl
      unfold Token.Links at hlinks
      rw [hclosing, hjoins] at hlinks
      rcases hlinks with hexpects | hjoins | ⟨hname, -⟩
      · cases hexpects
      · cases hjoins
      · cases hname

/-- No expression takes up a list of statements but a single call. -/
theorem Stmt.SpelledAll.not_linked {body : List (Stmt α)}
    (h : Stmt.SpelledAll fits room false body tokens) (hne : body ≠ [])
    (hlone : ∀ mark value, body ≠ [.call mark value]) : ¬Linked tokens := by
  cases h with
  | nil => exact absurd rfl hne
  | @cons _ _ s rest tokens others hs hrest =>
    by_cases hcall : ∀ mark value, s ≠ .call mark value
    · exact hs.not_linked hcall
    · push Not at hcall
      obtain ⟨mark, value, rfl⟩ := hcall
      cases hrest with
      | nil => exact absurd rfl (hlone mark value)
      | cons hnext hmore =>
        obtain ⟨first, more, rfl, hfirst⟩ := hnext.start
        exact hs.call_not_linked (hfirst ▸ hnext.start_joins)

end Attempts

namespace Grammar
variable {cursor : Cursor} (hproper : cursor.Proper)
include hproper

theorem expressionProgram_linked :
    After cursor [] expressionProgram fun _ passed => Linked passed := by
  refine .bind .current fun start _ hstart => ?_
  obtain ⟨-, rfl⟩ := hstart
  refine .bind ((Nested.linked maxNesting).1 cursor hproper) fun body passed hpassed => ?_
  refine .bind (programMark_passes start.span) fun mark _ heq => .pure ?_
  rw [heq]
  exact hpassed

omit hproper in
theorem programMark_gives {start : Span} {token : Token} {rest : List Token} :
    Gives (programMark start) (token :: rest) (token :: rest) (·.errors = []) :=
  Gives.current.step (.pure rfl)

omit hproper in
theorem expressionProgram_read {mark : α} {body : Expr α} {tokens : List Token} {stop : Token}
    (h : body.Spelled fits (maxNesting - 1) tokens) (hgrouped : body.grouped = true)
    (hstop : stop.kind = .endOfInput) :
    Gives expressionProgram (tokens ++ [stop]) [stop] (Program.expression mark body).CleanCopy := by
  obtain ⟨token, rest, rfl, -⟩ := h.opens
  refine Gives.current.step ?_
  have hbody : Reads Grammar.expression (·.binding ≤ 0) body (token :: rest) :=
    h.read_nested hgrouped
  refine (hbody stop [] (by rw [hstop]; decide)).bind fun read hread => ?_
  refine programMark_gives.bind fun read' hmark => .pure ⟨?_, clean_cons.2 ⟨hmark, hread.2⟩⟩
  rw [Program.map, Program.map, hread.1]

omit hproper in
theorem statementProgram_read (mark : α) {body : List (Stmt α)} {tokens : List Token} {stop : Token}
    (h : Stmt.SpelledAll fits maxNesting false body tokens)
    (hgrouped : Stmt.groupedAll body = true) (hsettled : Stmt.settledAll body = true)
    (hstop : stop.kind = .endOfInput) :
    Gives statementProgram (tokens ++ [stop]) [stop] (Program.statements mark body).CleanCopy := by
  have hstart : Gives current (tokens ++ [stop]) (tokens ++ [stop]) fun _ => True := by
    cases tokens with
    | nil => exact Gives.current.mono fun _ _ => trivial
    | cons token rest => exact Gives.current.mono fun _ _ => trivial
  have hlength := h.length_le
  have hends : ∀ kind : TokenKind, decide (kind = .endOfInput) = true → endsBlock kind = true := by
    intro kind hkind
    rw [of_decide_eq_true hkind]
    rfl
  have hread : Gives Grammar.statements (tokens ++ [stop]) [stop]
      (List.Forall₂ Stmt.CleanCopy body) := by
    refine Gives.remaining.bind fun bound hbound => ?_
    simp only [List.length_append, List.length_singleton] at hbound
    exact h.readBack hgrouped hsettled hends [] (decide_eq_true hstop) bound (by omega)
  refine hstart.bind fun start _ => hread.bind fun reads hreads => ?_
  obtain ⟨hmap, hclean⟩ := Stmt.mapAll_of_copies hreads
  refine programMark_gives.bind fun read' hmark => .pure ⟨?_, clean_cons.2 ⟨hmark, hclean⟩⟩
  rw [Program.map, Program.map, hmap]

/-- The attempt to read statements as one expression leaves something unread. -/
theorem attempt_leaves {body : List (Stmt α)} {tokens : List Token} {stop : Token}
    (hupcoming : cursor.upcoming = tokens ++ [stop]) (hstop : stop.kind = .endOfInput)
    (h : Stmt.SpelledAll fits maxNesting false body tokens)
    (hlone : ∀ mark value, body ≠ [.call mark value]) (hstart : cursor.hasMore = true) :
    (expressionProgram.run cursor).2.hasMore = true := by
  by_contra hmore
  have hend : (expressionProgram.run cursor).2.current.kind = .endOfInput := by
    simpa [Cursor.hasMore] using hmore
  obtain ⟨passed, hpassed, hlinked⟩ := expressionProgram_linked hproper cursor (.refl cursor)
  obtain ⟨last, hall, -⟩ := upcoming_eq_of_end hproper hpassed (.inl hend)
  obtain ⟨rfl, -⟩ := List.append_inj' (hupcoming.symm.trans hall) rfl
  refine h.not_linked ?_ hlone hlinked
  rintro rfl
  cases h
  have hcurrent := (Cursor.ahead_of_upcoming hupcoming).1
  unfold Cursor.hasMore at hstart
  rw [hcurrent, hstop] at hstart
  cases hstart

/-- A program is read from tokens that spell it. -/
theorem program_read {p : Program α} {tokens : List Token} {stop : Token}
    (hupcoming : cursor.upcoming = tokens ++ [stop]) (hstop : stop.kind = .endOfInput)
    (h : p.Spelled fits tokens) (hgrouped : p.grouped = true) (hsettled : p.settled = true)
    (hlone : p.isLoneCall = false) : p.CleanCopy (program.run cursor).1 := by
  rw [program_run]
  cases h with
  | expression hbody =>
    obtain ⟨houtput, hcopy⟩ := expressionProgram_read hbody hgrouped hstop cursor hupcoming
    have hstart : cursor.hasMore = true := by
      obtain ⟨token, rest, rfl, hopens⟩ := hbody.opens
      have hcurrent := (Cursor.ahead_of_upcoming hupcoming).1
      unfold Cursor.hasMore
      rw [hcurrent]
      generalize token.kind = kind at hopens
      cases kind <;> first | rfl | cases hopens
    have hend : (expressionProgram.run cursor).2.hasMore = false := by
      have hcurrent := (Cursor.ahead_of_upcoming houtput).1
      unfold Cursor.hasMore
      rw [hcurrent, hstop]
      rfl
    rw [if_pos hstart, hend]
    exact hcopy
  | @statements mark body _ hbody =>
    obtain ⟨-, hcopy⟩ := statementProgram_read mark hbody hgrouped hsettled hstop cursor hupcoming
    have hmore : cursor.hasMore = true → (expressionProgram.run cursor).2.hasMore = true :=
      attempt_leaves hproper hupcoming hstop hbody fun mark value hbody => by
        subst hbody
        cases hlone
    split
    · next hstart =>
      rw [if_pos (hmore hstart)]
      exact hcopy
    · exact hcopy

end Grammar
end CatScript
