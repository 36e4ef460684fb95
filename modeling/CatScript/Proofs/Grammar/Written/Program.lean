import CatScript.Grammar.Program
import CatScript.Proofs.Grammar.Written.Statement
import CatScript.Proofs.Token.Tiling

/-! # Programs are read as they are written

A text in whose tree nothing is reported is written by that tree (`Grammar.parse_spelled`): the
tokens of the text, up to the end of the input, are the ones that the tree spells, and every node
spans its own tokens.  Nothing is skipped, made up or put in another place on the way. -/
set_option autoImplicit false
namespace CatScript

/-- What a scanned text gives can be read: tokens in order, and then the end of the input. -/
theorem Cursor.proper_scan (source : String) : (ofTokens (Token.scan source)).Proper ∧
    (ofTokens (Token.scan source)).upcoming = Token.scan source := by
  have htiled := Token.scan_tiled source
  obtain ⟨tokens, stop, hscan, hstop, -, -, hkinds⟩ := htiled.ends
  have hterminated : terminated (Token.scan source) = Token.scan source := by
    unfold terminated
    rw [hscan, List.getLast?_concat]
    exact if_pos hstop
  have hupcoming : (ofTokens (Token.scan source)).upcoming = Token.scan source := by
    unfold ofTokens
    rw [hterminated, hscan]
    cases tokens <;> rfl
  have hapart := htiled.apart
  rw [hscan] at hapart
  refine ⟨⟨tokens, stop, hupcoming.trans hscan, hstop, ?_, ⟨?_, ?_⟩⟩, hupcoming⟩
  · exact fun token htoken => (hkinds token htoken).1
  · exact fun token htoken => Nat.le_of_lt (hkinds token htoken).2
  · exact (List.pairwise_append.1 hapart).1

namespace Grammar
open Reader
variable {cursor : Cursor} (hproper : cursor.Proper)
include hproper

/-- When the end of the input comes into focus, or as many tokens are passed as there are, all are
passed. -/
theorem upcoming_eq_of_end {now : Cursor} {passed : List Token} (hpassed : cursor.Passes passed now)
    (hend : now.current.kind = .endOfInput ∨ cursor.remaining ≤ passed.length) :
    ∃ stop, cursor.upcoming = passed ++ [stop] ∧ stop.kind = .endOfInput := by
  obtain ⟨others, stop, hnow, hstop, hkinds, -⟩ := hproper.split hpassed
  cases others with
  | nil => exact ⟨stop, hpassed.upcoming.trans (congrArg _ hnow), hstop⟩
  | cons first rest =>
    obtain ⟨rfl, hahead⟩ := List.cons.inj hnow
    rcases hend with hend | hend
    · exact absurd hend (hkinds now.current (by simp))
    · have hremaining := hpassed.remaining
      have hlength : now.remaining = rest.length + 1 :=
        (congrArg List.length hahead).trans List.length_append
      omega

omit hproper in
theorem programMark_passes {passed : List Token} (start : Span) :
    After cursor passed (programMark start) fun _ behind => behind = passed := by
  refine .bind .current fun token behind htoken => ?_
  obtain ⟨-, rfl⟩ := htoken
  exact .pure rfl

theorem expressionProgram_written :
    After cursor [] expressionProgram fun p passed => Clean p.marks →
      p.Spelled Mark.Covers passed ∧ p.grouped = true := by
  refine .bind .current fun start _ hstart => ?_
  obtain ⟨-, rfl⟩ := hstart
  refine .bind ((Nested.faithful maxNesting).expression cursor hproper) fun body passed hbody => ?_
  refine .bind (programMark_passes start.span) fun mark _ hpassed => .pure fun hclean => ?_
  subst hpassed
  obtain ⟨left, hleft, hspelled, hgrouped⟩ := hbody (clean_cons.1 hclean).2
  obtain rfl : left = maxNesting - 1 := by rw [hleft]; rfl
  exact ⟨.expression hspelled, hgrouped⟩

theorem statements_written : After cursor [] statements fun body passed => ∃ pieces,
    passed = pieces.flatten ∧ List.Forall₂ (WrittenStmt maxNesting false) body pieces ∧
      ((cursor.tokenAfter passed).kind = .endOfInput ∨ body.length = cursor.remaining) := by
  refine .bind .remaining fun bound _ hbound => ?_
  obtain ⟨hbound, rfl⟩ := hbound
  obtain rfl : bound = cursor.remaining := (Nat.zero_add bound).symm.trans hbound
  refine (After.repeated (statementWith_written (Nested.faithful maxNesting)
    (block_faithful maxNesting)) _ hproper).mono fun body passed hbody => ?_
  obtain ⟨pieces, rfl, hpieces, hend⟩ := hbody
  exact ⟨pieces, rfl, hpieces, hend.imp_left of_decide_eq_true⟩

omit hproper in
theorem length_le_of_pieces {room : Nat} {inFunction : Bool} {body : List (Stmt Mark)}
    {pieces : List (List Token)} (h : List.Forall₂ (WrittenStmt room inFunction) body pieces)
    (hclean : Clean (Stmt.marksAll body)) : body.length ≤ pieces.flatten.length := by
  induction h with
  | nil => exact Nat.le_refl 0
  | cons hs _ ih =>
    rw [Stmt.marksAll, clean_append] at hclean
    have hpiece := List.length_pos_iff.2 (hs hclean.1).1.mark_fits.ne_nil
    have hpieces := ih hclean.2
    rw [List.flatten_cons, List.length_append, List.length_cons]
    omega

/-- The rounds do not run out before the end of the input. -/
theorem statementProgram_written :
    After cursor [] statementProgram fun p passed => Clean p.marks →
      (p.Spelled Mark.Covers passed ∧ p.grouped = true) ∧
        ((cursor.tokenAfter passed).kind = .endOfInput ∨ cursor.remaining ≤ passed.length) := by
  refine .bind .current fun start _ hstart => ?_
  obtain ⟨-, rfl⟩ := hstart
  refine .bind (statements_written hproper) fun body _ hbody => ?_
  obtain ⟨pieces, rfl, hpieces, hend⟩ := hbody
  refine .bind (programMark_passes start.span) fun mark _ hpassed => .pure fun hclean => ?_
  subst hpassed
  obtain ⟨hspelled, hgrouped⟩ := spelledAll_of_pieces hpieces (clean_cons.1 hclean).2
  have hlength := length_le_of_pieces hpieces (clean_cons.1 hclean).2
  exact ⟨⟨.statements hspelled, hgrouped⟩,
    hend.imp_right fun hrounds => Nat.le_trans (Nat.le_of_eq hrounds.symm) hlength⟩

omit hproper in
/-- One expression is tried first; if something is left after it, the statements are read from the
start. -/
theorem program_run (cursor : Cursor) : program.run cursor =
    if cursor.hasMore then
      if (expressionProgram.run cursor).2.hasMore then statementProgram.run cursor
      else expressionProgram.run cursor
    else statementProgram.run cursor := by
  have hsplit : program.run cursor = (if cursor.hasMore then do
      let read ← expressionProgram
      if (← get).hasMore then
        set cursor
        statementProgram
      else return read
    else statementProgram : Reader (Program Mark)).run cursor := rfl
  rw [hsplit]
  by_cases hmore : cursor.hasMore = true
  · rw [if_pos hmore, if_pos hmore, StateT.run_bind]
    obtain ⟨read, rest⟩ := expressionProgram.run cursor
    show (if rest.hasMore = true then _ else _ : Reader (Program Mark)).run rest = _
    split <;> rfl
  · rw [if_neg hmore, if_neg hmore]

theorem program_written (hclean : Clean (program.run cursor).1.marks) :
    ∃ tokens stop, cursor.upcoming = tokens ++ [stop] ∧ stop.kind = .endOfInput ∧
      (program.run cursor).1.Spelled Mark.Covers tokens ∧
      (program.run cursor).1.grouped = true := by
  have hstatements : Clean (statementProgram.run cursor).1.marks → ∃ tokens stop,
      cursor.upcoming = tokens ++ [stop] ∧ stop.kind = .endOfInput ∧
      (statementProgram.run cursor).1.Spelled Mark.Covers tokens ∧
      (statementProgram.run cursor).1.grouped = true := by
    intro hclean
    obtain ⟨passed, hpassed, hwritten⟩ := statementProgram_written hproper cursor (.refl cursor)
    obtain ⟨⟨hspelled, hgrouped⟩, hend⟩ := hwritten hclean
    rw [← hpassed.current] at hend
    obtain ⟨stop, hall, hstop⟩ := upcoming_eq_of_end hproper hpassed hend
    exact ⟨passed, stop, hall, hstop, hspelled, hgrouped⟩
  revert hclean
  rw [program_run]
  split
  · split
    · exact hstatements
    · next hend =>
      intro hclean
      obtain ⟨passed, hpassed, hwritten⟩ := expressionProgram_written hproper cursor (.refl cursor)
      obtain ⟨hspelled, hgrouped⟩ := hwritten hclean
      have hend : (expressionProgram.run cursor).2.current.kind = .endOfInput := by
        simpa [Cursor.hasMore] using hend
      obtain ⟨stop, hall, hstop⟩ := upcoming_eq_of_end hproper hpassed (.inl hend)
      exact ⟨passed, stop, hall, hstop, hspelled, hgrouped⟩
  · exact hstatements

end Grammar

namespace Grammar

/-- A text without a report is written by its tree. -/
theorem parse_spelled (source : String) (hclean : Clean (parse source).marks) :
    ∃ tokens stop, Token.scan source = tokens ++ [stop] ∧ stop.kind = .endOfInput ∧
      (parse source).Spelled Mark.Covers tokens ∧ (parse source).grouped = true := by
  obtain ⟨hproper, hupcoming⟩ := Cursor.proper_scan source
  rw [← hupcoming]
  exact program_written hproper hclean

/-- A text with a loop, a chain of alternatives and operators of several levels. -/
def chained : String :=
  "for (x in [1, -02]) \x7b if (not x == 2 + 3) \x7b print(x) \x7d else if (true) \x7b f(x) \x7d \x7d"

theorem parse_spelled_chained : Clean (parse chained).marks ∧
    ∃ tokens stop, Token.scan chained = tokens ++ [stop] ∧ stop.kind = .endOfInput ∧
      (parse chained).Spelled Mark.Covers tokens ∧ (parse chained).grouped = true := by
  have hclean : Clean (parse chained).marks := by
    unfold Clean
    decide +kernel
  exact ⟨hclean, parse_spelled chained hclean⟩

end Grammar
end CatScript
