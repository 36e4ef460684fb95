import CatScript.Proofs.Grammar.Descent.Statement
import CatScript.Proofs.Grammar.Entries

/-! # Programs in one pass

Every function of the parser comes to an end on every list of tokens, and none of them goes back;
the parser as a whole ends on the end of the input (`reading_ends`).  An expression that is tried
first and given up leaves nothing behind: the arena is the one that the statements alone give, and
the nesting level is the one at the start (`attempt_leaves_nothing`).  What has been pushed in the end
is the tree in post-order, for a program and for a lone expression (`parse_inPostOrder`). -/
set_option autoImplicit false
namespace CatScript.Descent
open Grammar

variable {tokens : List Token} {depth : Nat}

section Parts

/-- The functions of the parser that are called in the course of reading a program. -/
inductive Part where
  | require (kind : TokenKind)
  | expression
  | operand
  | equality
  | comparison
  | additive
  | factor
  | unary
  | primary
  | list (opening : Token)
  | call (name : Token)
  | typeExpression
  | statement (inFunction : Bool)
  | declaration
  | function
  | conditional (inFunction : Bool)
  | loop (inFunction : Bool)
  | print
  | returning
  | block (inFunction : Bool)

namespace Part

def run (part : Part) (calls : Nat) : Session → Option (Except Fault Session) :=
  match part with
  | require kind => (read (Reader.require kind)).outcome
  | expression => (Descent.expression calls).outcome
  | operand => (Descent.operand calls).outcome
  | equality => (Descent.equality calls).outcome
  | comparison => (operators [comparisons, additives, factors] calls).outcome
  | additive => (operators [additives, factors] calls).outcome
  | factor => (operators [factors] calls).outcome
  | unary => (Descent.unary calls).outcome
  | primary => (Descent.primary calls).outcome
  | list opening => (Descent.list opening calls).outcome
  | call name => (Descent.call name calls).outcome
  | typeExpression => (Descent.typeExpression calls).outcome
  | statement inFunction => (Descent.statement inFunction calls).outcome
  | declaration => (Descent.declaration calls).outcome
  | function => (Descent.function calls).outcome
  | conditional inFunction => (Descent.conditional inFunction calls).outcome
  | loop inFunction => (Descent.loop inFunction calls).outcome
  | print => (Descent.print calls).outcome
  | returning => (Descent.returning calls).outcome
  | block inFunction => (Descent.block inFunction calls).outcome

/-- Where the reader ends that is made for `room` nesting levels and for the tokens ahead. -/
def goal (room : Nat) (part : Part) (cursor : Cursor) : Cursor :=
  let nested := Nested.ofRoom room
  match part with
  | require kind => ((Reader.require kind).run cursor).2
  | expression => (nested.expression.run cursor).2
  | operand => (nested.operand.run cursor).2
  | equality => ((Grammar.equality nested).run cursor).2
  | comparison => ((Grammar.comparison nested).run cursor).2
  | additive => ((Grammar.additive nested).run cursor).2
  | factor => ((Grammar.factor nested).run cursor).2
  | unary => ((Grammar.unary nested).run cursor).2
  | primary => ((Grammar.primary nested).run cursor).2
  | list opening => ((Grammar.list nested opening).run cursor).2
  | call name => ((Grammar.call nested name).run cursor).2
  | typeExpression => ((Grammar.typeExpression (cursor.remaining + 1)).run cursor).2
  | statement inFunction => ((Grammar.statement room inFunction).run cursor).2
  | declaration => ((Grammar.declaration nested).run cursor).2
  | function => ((Grammar.function (Grammar.block room true)).run cursor).2
  | conditional inFunction =>
    ((Grammar.conditional nested (Grammar.block room inFunction) cursor.remaining).run cursor).2
  | loop inFunction => ((Grammar.loop nested (Grammar.block room inFunction)).run cursor).2
  | print => ((Grammar.print nested).run cursor).2
  | returning => ((Grammar.returning nested).run cursor).2
  | block inFunction => ((Grammar.block room inFunction).run cursor).2

/-- Whether the function takes a token wherever it starts.  The others may find nothing that they
ask for. -/
def takes : Part → Bool
  | require _ | list _ | call _ | typeExpression | block _ => false
  | _ => true

end Part

/-- A session that another one has come to: on the same tokens and not before it, at the same
depth, and never deeper than allowed in between. -/
structure Reached (tokens : List Token) (session later : Session) : Prop where
  stands : later.cursor.Over tokens
  position : session.cursor.position ≤ later.cursor.position
  depth : later.depth = session.depth
  deepest : session.deepest ≤ later.deepest
  bound : later.deepest ≤ max session.deepest maxNesting

/-- The step ends in one session, whatever number of calls above some number is allowed. -/
def Ends (run : Nat → Session → Option (Except Fault Session)) (session later : Session) : Prop :=
  ∃ enough, ∀ calls ≥ enough, run calls session = some (.ok later)

theorem ends_of_ok {β : Type} {step : Nat → Descent β} {session later : Session} {b : β}
    {enough : Nat} (h : ∀ calls ≥ enough, step calls session = some (.ok (b, later))) :
    Ends (fun calls => (step calls).outcome) session later := by
  refine ⟨enough, fun calls hcalls => ?_⟩
  simp only [outcome, h calls hcalls]
  rfl

theorem Agrees.ends {β γ : Type} {arena : Arena} {cursor : Cursor} {step : Nat → Descent γ}
    {reader : Reader β} {P : β → γ → Arena → Cursor → Prop} {moves : Bool}
    (h : Agrees tokens depth arena cursor step reader P) (hover : cursor.Over tokens)
    (hmoves : ∀ b c after later, P b c after later → moves = true → Moved cursor later)
    (deepest : Nat) : ∃ later,
      Ends (fun calls => (step calls).outcome) ⟨cursor, arena, depth, deepest⟩ later ∧
      later.cursor = (reader.run cursor).2 ∧ Reached tokens ⟨cursor, arena, depth, deepest⟩ later ∧
      (moves = true → Moved cursor later.cursor) := by
  obtain ⟨enough, c, after, reached, hstep, hlow, hhigh, hlater, hle, hP⟩ := h hover deepest
  have hlength := hover.length_eq
  have hlength' := hlater.length_eq
  exact ⟨_, ends_of_ok hstep, rfl, ⟨hlater, by dsimp only; omega, rfl, hlow, hhigh⟩,
    hmoves _ c after _ hP⟩

theorem require_agrees (kind : TokenKind) (arena : Arena) (cursor : Cursor) :
    ReadsAlike tokens depth (fun _ => read (Reader.require kind)) (Reader.require kind) arena
      cursor := by
  rw [ReadsAlike, ← bind_pure (read (Reader.require kind)), ← bind_pure (Reader.require kind)]
  exact .require fun _ _ _ _ => .pure ⟨rfl, rfl⟩

/-- Every function of the parser ends where its reader does, wherever it starts, at the depth where
it started. -/
theorem Part.ends (part : Part) {session : Session} (hover : session.cursor.Over tokens) :
    ∃ later, Ends part.run session later ∧
      later.cursor = part.goal (maxNesting - session.depth) session.cursor ∧
      Reached tokens session later ∧
      (part.takes = true → Moved session.cursor later.cursor) := by
  obtain ⟨cursor, arena, depth, deepest⟩ := session
  have h : ReadsNested tokens depth (Nested.ofRoom (maxNesting - depth)) :=
    nested_agrees _ depth rfl
  have hblock (inFunction : Bool) : ReadsBlock tokens depth (Descent.block inFunction)
      (Grammar.block (maxNesting - depth) inFunction) :=
    block_agrees _ depth inFunction rfl
  have hmoved {β : Type} {Q : β → NodeId → Arena → Cursor → Prop} : ∀ b id after later,
      Q b id after later ∧ Moved cursor later → true = true → Moved cursor later :=
    fun _ _ _ _ h _ => h.2
  have hstill {β γ : Type} {Q : β → γ → Arena → Cursor → Prop} : ∀ b c after later,
      Q b c after later → false = true → Moved cursor later :=
    fun _ _ _ _ _ hfalse => absurd hfalse nofun
  cases part with
  | require kind => exact (require_agrees kind arena cursor).ends hover hstill deepest
  | expression => exact (h.expression arena cursor).ends hover hmoved deepest
  | operand => exact (h.operand arena cursor).ends hover hmoved deepest
  | equality => exact (equality_agrees h arena cursor).ends hover hmoved deepest
  | comparison => exact (comparison_agrees h arena cursor).ends hover hmoved deepest
  | additive => exact (additive_agrees h arena cursor).ends hover hmoved deepest
  | factor => exact (factor_agrees h arena cursor).ends hover hmoved deepest
  | unary => exact (unary_agrees h arena cursor).ends hover hmoved deepest
  | primary => exact (primary_agrees h arena cursor).ends hover hmoved deepest
  | list opening => exact (list_agrees h opening arena cursor).ends hover hstill deepest
  | call name => exact (call_agrees h name arena cursor).ends hover hstill deepest
  | typeExpression =>
    exact (typeExpression_agrees _ arena cursor (Nat.lt_succ_self _)).ends hover hstill deepest
  | statement inFunction =>
    exact (statement_agrees rfl inFunction arena cursor).ends hover hmoved deepest
  | declaration => exact (declaration_agrees h arena cursor).ends hover hmoved deepest
  | function => exact (function_agrees (hblock true) arena cursor).ends hover hmoved deepest
  | conditional inFunction =>
    have hagrees := conditional_agrees h (hblock inFunction) _ arena cursor (Nat.le_refl _)
    exact hagrees.ends hover hmoved deepest
  | loop inFunction =>
    exact (loop_agrees h (hblock inFunction) arena cursor).ends hover hmoved deepest
  | print => exact (print_agrees h arena cursor).ends hover hmoved deepest
  | returning => exact (returning_agrees h arena cursor).ends hover hmoved deepest
  | block inFunction => exact (hblock inFunction arena cursor).ends hover hstill deepest

end Parts

section Programs

def ProgramStored (p : Program Mark) (_ : Unit) (after : Arena) (later : Cursor) : Prop :=
  after = Arena.ofProgram p ∧ later.current.kind = .endOfInput

theorem finish_agrees {before arena : Arena} {cursor : Cursor} {kind : NodeKind}
    {make : Mark → Program Mark} (hlaid : Laid before kind.children arena)
    (hmake : ∀ mark, (arena.place kind mark).2.setRoot arena.size = Arena.ofProgram (make mark))
    (start : Span) :
    Agrees tokens depth arena cursor (fun _ => finish kind start)
      (programMark start >>= fun mark => pure (make mark))
      fun p _ after later => after = Arena.ofProgram p ∧ later = cursor := by
  refine .read rfl id (Nat.le_refl _) (.aside (push_ok hlaid _) fun hover deepest => ?_)
  exact ⟨0, (), _, deepest, fun _ _ => rfl, Nat.le_refl _, Nat.le_max_left .., hover,
    Nat.le_refl _, hmake _, rfl⟩

theorem finish_agrees_of_end {before arena : Arena} {cursor : Cursor} {kind : NodeKind}
    {make : Mark → Program Mark} (hlaid : Laid before kind.children arena)
    (hmake : ∀ mark, (arena.place kind mark).2.setRoot arena.size = Arena.ofProgram (make mark))
    (hend : cursor.current.kind = .endOfInput) (start : Span) :
    Agrees tokens depth arena cursor (fun _ => finish kind start)
      (programMark start >>= fun mark => pure (make mark)) ProgramStored := by
  refine (finish_agrees hlaid hmake start).mono fun p _ after later h _ => ?_
  obtain ⟨hafter, rfl⟩ := h
  exact ⟨hafter, hend⟩

theorem statementProgram_agrees (cursor : Cursor) :
    Agrees tokens 0 Arena.empty cursor statementProgram Grammar.statementProgram
      ProgramStored := by
  have hstatements : Agrees tokens 0 Arena.empty cursor (body (· = .endOfInput) false) statements
      fun body ids after later => BodyStored Arena.empty body ids after later ∧
        decide (later.current.kind = .endOfInput) = true :=
    .remaining (body_agrees rfl (statement_agrees rfl false) _ _ _ (Nat.le_refl _))
  refine .current (hstatements.bind fun body ids after later hbody _ => ?_)
  obtain ⟨⟨rfl, rfl⟩, hend⟩ := hbody
  exact finish_agrees_of_end (Stmt.storeAll_laid body .empty) (fun _ => rfl)
    (of_decide_eq_true hend) _

theorem expressionProgram_agrees (cursor : Cursor) :
    Agrees tokens 0 Arena.empty cursor expressionProgram Grammar.expressionProgram
      fun p _ after _ => after = Arena.ofProgram p := by
  have hnested : ReadsNested tokens 0 (Nested.ofRoom maxNesting) := nested_agrees maxNesting 0 rfl
  refine .current ((hnested.expression .empty cursor).bind fun e id after later hstored _ => ?_)
  obtain ⟨⟨rfl, rfl⟩, -⟩ := hstored
  exact (finish_agrees (e.store_laid .empty) (fun _ => rfl) _).mono fun _ _ _ _ h _ => h.1

theorem attempt_ok (tokens : List Token) (deepest : Nat) : ∃ enough reached,
    deepest ≤ reached ∧ reached ≤ max deepest maxNesting ∧
      (Grammar.expression.run (Cursor.ofTokens tokens)).2.Over tokens ∧
      (Grammar.expression.run (Cursor.ofTokens tokens)).2.remaining ≤
        (Cursor.ofTokens tokens).remaining ∧
      ∀ calls ≥ enough, expression calls ⟨Cursor.ofTokens tokens, Arena.empty, 0, deepest⟩ =
        some (.ok (((Grammar.expression.run (Cursor.ofTokens tokens)).1.store.run .empty).1,
          ⟨(Grammar.expression.run (Cursor.ofTokens tokens)).2,
            ((Grammar.expression.run (Cursor.ofTokens tokens)).1.store.run .empty).2, 0,
            reached⟩)) := by
  have hover := Cursor.over_ofTokens tokens
  obtain ⟨enough, id, after, reached, hstep, hlow, hhigh, hlater, hle, ⟨hid, hafter⟩, -⟩ :=
    (nested_agrees maxNesting 0 rfl).expression .empty _ hover deepest
  subst hid hafter
  exact ⟨enough, reached, hlow, hhigh, hlater, hle, hstep⟩

theorem undo_ok {cursor : Cursor} (hover : cursor.Over tokens) (arena : Arena) (deepest : Nat) :
    undo Arena.empty.size ⟨cursor, arena, 0, deepest⟩ =
      some (.ok ((), ⟨Cursor.ofTokens tokens, Arena.empty, 0, deepest⟩)) := by
  have hundo : undo Arena.empty.size ⟨cursor, arena, 0, deepest⟩ =
      some (.ok ((), ⟨cursor.reset, arena.truncate Arena.empty.size, 0, deepest⟩)) := rfl
  have harena : arena.truncate Arena.empty.size = Arena.empty := by
    simp [Arena.truncate, Arena.empty, Arena.size]
  rw [hundo, hover.reset_eq, harena]

/-- After the expression that is tried first, the statements are read from the start if anything is
left. -/
theorem program_tried {cursor later : Cursor} {arena : Arena} {id : NodeId}
    {calls deepest reached : Nat} (hmore : cursor.hasMore = true)
    (hexpression : expression calls ⟨cursor, Arena.empty, 0, deepest⟩ =
      some (.ok (id, ⟨later, arena, 0, reached⟩))) :
    program calls ⟨cursor, Arena.empty, 0, deepest⟩ =
      if later.hasMore then
        (undo Arena.empty.size >>= fun _ => statementProgram calls) ⟨later, arena, 0, reached⟩
      else finish (.expressionProgram id) cursor.current.span ⟨later, arena, 0, reached⟩ := by
  rw [program, bind_ok _ (current_ok _), bind_ok _ (more_ok _), if_pos hmore,
    bind_ok _ (checkpoint_ok _), bind_ok _ hexpression, bind_ok _ (more_ok _)]
  split <;> rfl

theorem finish_expression_agrees (e : Expr Mark) {cursor : Cursor}
    (hend : cursor.current.kind = .endOfInput) (start : Span) :
    Agrees tokens 0 (e.store.run .empty).2 cursor
      (fun _ => finish (.expressionProgram (e.store.run .empty).1) start)
      (programMark start >>= fun mark => pure (.expression mark e)) ProgramStored :=
  finish_agrees_of_end (e.store_laid .empty) (fun _ => rfl) hend start

theorem expressionProgram_eq (cursor : Cursor) : Grammar.expressionProgram.run cursor =
    (programMark cursor.current.span >>= fun mark =>
      pure (.expression mark (Grammar.expression.run cursor).1) : Reader (Program Mark)).run
        (Grammar.expression.run cursor).2 :=
  rfl

/-- One expression is the program if nothing is left after it; otherwise the statements are read as
if it had not been tried. -/
theorem program_agrees (tokens : List Token) : Agrees tokens 0 Arena.empty (Cursor.ofTokens tokens)
    program Grammar.program ProgramStored := by
  intro hover deepest
  rw [program_run]
  by_cases hmore : (Cursor.ofTokens tokens).hasMore = true
  · obtain ⟨enough, reached, hlow, hhigh, hlater, hback, hexpression⟩ := attempt_ok tokens deepest
    have hrun : (Grammar.expressionProgram.run (Cursor.ofTokens tokens)).2 =
      (Grammar.expression.run (Cursor.ofTokens tokens)).2 := rfl
    rw [if_pos hmore, hrun]
    by_cases hleft : (Grammar.expression.run (Cursor.ofTokens tokens)).2.hasMore = true
    · obtain ⟨enough', b, after, reached', hstep, hlow', hhigh', hstatements⟩ :=
        statementProgram_agrees _ hover reached
      rw [if_pos hleft]
      refine ⟨max enough enough', b, after, reached', fun calls hcalls => ?_, by omega, by omega,
        hstatements⟩
      rw [program_tried hmore (hexpression calls (by omega)), if_pos hleft,
        bind_ok _ (undo_ok hlater _ _)]
      exact hstep calls (by omega)
    · rw [if_neg hleft, expressionProgram_eq]
      -- What follows needs no more of the reader than what it gives.
      generalize Grammar.expression.run (Cursor.ofTokens tokens) = result at *
      obtain ⟨enough', b, after, reached', hstep, hlow', hhigh', hpast, hle, hstored⟩ :=
        finish_expression_agrees result.1 (Cursor.hasMore_eq_false.1 (by simpa using hleft))
          (Cursor.ofTokens tokens).current.span hlater reached
      refine ⟨max enough enough', b, after, reached', fun calls hcalls => ?_, by omega, by omega,
        hpast, Nat.le_trans hle hback, hstored⟩
      rw [program_tried hmore (hexpression calls (by omega)), if_neg hleft]
      exact hstep calls (by omega)
  · obtain ⟨enough, b, after, reached, hstep, hrest⟩ := statementProgram_agrees _ hover deepest
    rw [if_neg hmore]
    refine ⟨enough, b, after, reached, fun calls hcalls => ?_, hrest⟩
    rw [program, bind_ok _ (current_ok _), bind_ok _ (more_ok _), if_neg hmore]
    exact hstep calls hcalls

/-- A text whose root is a program of statements is read as the statements alone would be. -/
theorem program_run_of_statements {source : String} {ids : List NodeId}
    (hroot : (Arena.parse source).rootKind = some (.statementProgram ids)) :
    Grammar.program.run (Cursor.ofTokens (Token.scan source)) =
      Grammar.statementProgram.run (Cursor.ofTokens (Token.scan source)) := by
  rw [Arena.parse, Grammar.parse] at hroot
  rw [program_run] at hroot ⊢
  by_cases hmore : (Cursor.ofTokens (Token.scan source)).hasMore = true
  · rw [if_pos hmore] at hroot ⊢
    by_cases hleft :
        (Grammar.expressionProgram.run (Cursor.ofTokens (Token.scan source))).2.hasMore = true
    · rw [if_pos hleft]
    · rw [if_neg hleft] at hroot
      obtain ⟨mark, body, hbody⟩ := expressionProgram_run (Cursor.ofTokens (Token.scan source))
      obtain ⟨id, hid⟩ := Arena.rootKind_expression mark body
      rw [hbody, hid] at hroot
      cases hroot
  · rw [if_neg hmore]

/-- On every list of tokens every function of the parser comes to an end, wherever it starts, and
does so where the reader ends whose bounds it does not have.  No function goes back, and those that
take a token move on unless they start on the end of the input.  So the parser ends, on the end of
the input. -/
theorem reading_ends (tokens : List Token) :
    (∀ (part : Part) (session : Session), session.cursor.Over tokens →
      ∃ later, Ends part.run session later ∧
        later.cursor = part.goal (maxNesting - session.depth) session.cursor ∧
        later.cursor.Over tokens ∧ session.cursor.position ≤ later.cursor.position ∧
        (part.takes = true → session.cursor.hasMore = true →
          session.cursor.position < later.cursor.position)) ∧
    ∃ last, Ends (fun calls => (program calls).outcome) (.ofTokens tokens) last ∧
      last.cursor = (Grammar.program.run (Cursor.ofTokens tokens)).2 ∧
      last.arena = Arena.ofProgram (Grammar.program.run (Cursor.ofTokens tokens)).1 ∧
      last.cursor.hasMore = false := by
  constructor
  · intro part session hover
    obtain ⟨later, hrun, hgoal, hreached, hmoved⟩ := part.ends hover
    refine ⟨later, hrun, hgoal, hreached.stands, hreached.position, fun htakes hmore => ?_⟩
    have hlt := hmoved htakes (bne_iff_ne.1 hmore)
    have hlength := hover.length_eq
    have hlength' := hreached.stands.length_eq
    omega
  · obtain ⟨enough, b, after, reached, hstep, -, -, -, -, harena, hend⟩ :=
      program_agrees tokens (Cursor.over_ofTokens tokens) 0
    exact ⟨_, ends_of_ok hstep, rfl, harena, Cursor.hasMore_eq_false.2 hend⟩

/-- A list that is not closed, in a `print` that is not closed: the statement takes tokens, and the
parser comes to the end of the input. -/
theorem reading_ends_unclosed : ∃ later last,
    Ends (Part.statement false).run (.ofTokens (Token.scan "print([1,")) later ∧
      0 < later.cursor.position ∧
      Ends (fun calls => (program calls).outcome) (.ofTokens (Token.scan "print([1,")) last ∧
      last.cursor.hasMore = false := by
  obtain ⟨hparts, last, hlast, -, -, hend⟩ := reading_ends (Token.scan "print([1,")
  have hmore : (Cursor.ofTokens (Token.scan "print([1,")).hasMore = true := by decide +kernel
  obtain ⟨later, hrun, -, -, -, hmoved⟩ := hparts (.statement false)
    (.ofTokens (Token.scan "print([1,")) (Cursor.over_ofTokens _)
  have hlt := hmoved rfl hmore
  exact ⟨later, last, hrun, Nat.lt_of_le_of_lt (Nat.zero_le _) hlt, hlast, hend⟩

/-- An expression that is tried first and given up leaves nothing behind: if the text is a program
of statements, then reading nothing but statements gives the same arena.  What was tried can be
undone at once, and gives back the session of the start, but for the greatest depth.  For every
function of the parser comes back to the depth where it started, and never goes deeper than allowed.
-/
theorem attempt_leaves_nothing (source : String) :
    (∃ last, Ends (fun calls => (program calls).outcome) (.ofTokens (Token.scan source)) last ∧
      last.arena = Arena.parse source ∧ last.depth = 0 ∧ last.deepest ≤ maxNesting ∧
      ∀ ids, (Arena.parse source).rootKind = some (.statementProgram ids) →
        ∃ alone, Ends (fun calls => (statementProgram calls).outcome)
            (.ofTokens (Token.scan source)) alone ∧
          alone.arena = Arena.parse source ∧ alone.cursor = last.cursor) ∧
    (∃ deepest ≤ maxNesting,
      Ends (fun calls => (expression calls >>= fun _ => undo Arena.empty.size).outcome)
        (.ofTokens (Token.scan source)) { Session.ofTokens (Token.scan source) with deepest }) ∧
    ∀ (part : Part) (session : Session), session.cursor.Over (Token.scan source) →
      ∃ later, Ends part.run session later ∧ later.depth = session.depth ∧
        session.deepest ≤ later.deepest ∧ later.deepest ≤ max session.deepest maxNesting := by
  have hover := Cursor.over_ofTokens (Token.scan source)
  refine ⟨?_, ?_, fun part session hsession => ?_⟩
  · obtain ⟨enough, b, after, reached, hstep, -, hbound, -, -, harena, -⟩ :=
      program_agrees _ hover 0
    refine ⟨_, ends_of_ok hstep, harena, rfl, by simpa using hbound, fun ids hroot => ?_⟩
    obtain ⟨enough', b, alone, greatest, hstatements, -, -, -, -, halone, -⟩ :=
      statementProgram_agrees (Cursor.ofTokens (Token.scan source)) hover 0
    have hrun := program_run_of_statements hroot
    refine ⟨_, ends_of_ok hstatements, ?_, ?_⟩
    · rw [Arena.parse, Grammar.parse, hrun]
      exact halone
    · rw [hrun]
  · obtain ⟨enough, reached, -, hbound, hlater, -, hstep⟩ := attempt_ok (Token.scan source) 0
    have hundone : ∀ calls ≥ enough,
        (expression calls >>= fun _ => undo Arena.empty.size) (.ofTokens (Token.scan source)) =
          some (.ok ((), { Session.ofTokens (Token.scan source) with deepest := reached })) :=
      fun calls hcalls => (bind_ok _ (hstep calls hcalls)).trans (undo_ok hlater _ _)
    exact ⟨reached, by simpa using hbound, ends_of_ok hundone⟩
  · obtain ⟨later, hrun, -, hreached, -⟩ := part.ends hsession
    exact ⟨later, hrun, hreached.depth, hreached.deepest, hreached.bound⟩

/-- Two statements: the expression that is tried first stores `print` as a word that belongs to no
expression, and nothing of it is left. -/
theorem attempt_leaves_nothing_prints :
    (Arena.parse "print(1) print(2)").rootKind = some (.statementProgram [1, 3]) ∧
    ∃ last alone,
      Ends (fun calls => (program calls).outcome)
        (.ofTokens (Token.scan "print(1) print(2)")) last ∧
      Ends (fun calls => (statementProgram calls).outcome)
        (.ofTokens (Token.scan "print(1) print(2)")) alone ∧
      alone.arena = last.arena ∧ last.depth = 0 := by
  have hroot : (Arena.parse "print(1) print(2)").rootKind = some (.statementProgram [1, 3]) := by
    decide +kernel
  obtain ⟨last, hlast, harena, hdepth, -, hstatements⟩ :=
    (attempt_leaves_nothing "print(1) print(2)").1
  obtain ⟨alone, halone, hsame, -⟩ := hstatements _ hroot
  exact ⟨hroot, last, alone, hlast, halone, hsame.trans harena.symm, hdepth⟩

/-- The nodes that the parser has pushed when it ends are the post-order of the tree, whether it
reads a program or one expression. -/
theorem parse_inPostOrder (source : String) :
    (∃ last root, Ends (fun calls => (program calls).outcome) (.ofTokens (Token.scan source)) last ∧
      last.arena = Arena.parse source ∧ last.arena.InPostOrder root) ∧
    ∃ last root,
      Ends (fun calls => (expressionProgram calls).outcome) (.ofTokens (Token.scan source)) last ∧
        last.arena = Arena.parseExpression source ∧ last.arena.InPostOrder root := by
  have hover := Cursor.over_ofTokens (Token.scan source)
  constructor
  · obtain ⟨enough, b, after, reached, hstep, -, -, -, -, harena, -⟩ := program_agrees _ hover 0
    obtain ⟨root, hroot⟩ := Arena.ofProgram_inPostOrder (Grammar.parse source)
    have hparsed : after = Arena.parse source := harena
    exact ⟨_, root, ends_of_ok hstep, hparsed, hparsed ▸ hroot⟩
  · obtain ⟨enough, b, after, reached, hstep, -, -, -, -, harena⟩ :=
      expressionProgram_agrees _ hover 0
    obtain ⟨root, hroot⟩ := Arena.ofProgram_inPostOrder (Grammar.parseExpression source)
    have hparsed : after = Arena.parseExpression source := harena
    exact ⟨_, root, ends_of_ok hstep, hparsed, hparsed ▸ hroot⟩

end Programs
end CatScript.Descent
