import CatScript.Proofs.Arena.Holding
import CatScript.Proofs.Grammar.Written.Program

/-! # The two ways into the parser

A text can be read as a program or as one expression (`Arena.parse`, `Arena.parseExpression`).  A
program that turns out to be one expression is what reading one expression gives.  The converse
depends on what is left: reading one expression stops where the expression does and reports nothing
of what follows, so a tree without reports writes the beginning of the text, and it is the tree of
the program exactly when that beginning is all (`Arena.entries_agree`). -/
set_option autoImplicit false
namespace CatScript

theorem Cursor.hasMore_eq_false {cursor : Cursor} :
    cursor.hasMore = false ↔ cursor.current.kind = .endOfInput := by
  simp [Cursor.hasMore]

namespace Grammar

theorem statementProgram_run (cursor : Cursor) :
    ∃ mark body, (statementProgram.run cursor).1 = .statements mark body :=
  ⟨_, _, rfl⟩

theorem expressionProgram_run (cursor : Cursor) :
    ∃ mark body, (expressionProgram.run cursor).1 = .expression mark body :=
  ⟨_, _, rfl⟩

/-- A program is one expression if there is one with nothing after it, and statements otherwise. -/
theorem parse_cases (source : String) :
    parse source = parseExpression source ∧
        (expressionProgram.run (Cursor.ofTokens (Token.scan source))).2.hasMore = false ∨
      (∃ mark body, parse source = .statements mark body) ∧
        ((expressionProgram.run (Cursor.ofTokens (Token.scan source))).2.hasMore = true ∨
          (Cursor.ofTokens (Token.scan source)).hasMore = false) := by
  unfold parse parseExpression
  rw [program_run]
  split
  · split
    · rename_i hmore
      exact .inr ⟨statementProgram_run _, .inl hmore⟩
    · rename_i hend
      exact .inl ⟨rfl, Bool.not_eq_true _ ▸ hend⟩
  · rename_i hempty
    exact .inr ⟨statementProgram_run _, .inr (Bool.not_eq_true _ ▸ hempty)⟩

/-- A tree of one expression without reports is written by the first tokens of the text, of which
there is one at least.  They are all there are if reading ends at the end of the input. -/
theorem parseExpression_spelled (source : String) (hclean : Clean (parseExpression source).marks) :
    ∃ passed rest, Token.scan source = passed ++ rest ∧
      (parseExpression source).Spelled Mark.Covers passed ∧
      (Cursor.ofTokens (Token.scan source)).hasMore = true ∧
      ((expressionProgram.run (Cursor.ofTokens (Token.scan source))).2.hasMore = false ↔
        ∃ stop, rest = [stop] ∧ stop.kind = .endOfInput) := by
  obtain ⟨hproper, hupcoming⟩ := Cursor.proper_scan source
  obtain ⟨passed, hpassed, hwritten⟩ := expressionProgram_written hproper _ (.refl _)
  obtain ⟨hspelled, -⟩ := hwritten hclean
  obtain ⟨others, stop, hothers, hstop, hkinds, -⟩ := hproper.split hpassed
  refine ⟨passed, _, hupcoming.symm.trans hpassed.upcoming, hspelled, ?_, ?_⟩
  · have hne : passed ≠ [] := by
      obtain ⟨mark, body, hbody⟩ := expressionProgram_run (Cursor.ofTokens (Token.scan source))
      rw [hbody] at hspelled
      cases hspelled with
      | expression hexpression => exact hexpression.mark_fits.ne_nil
    obtain ⟨first, tokens, rfl⟩ := List.exists_cons_of_ne_nil hne
    have hfirst : (Cursor.ofTokens (Token.scan source)).current = first :=
      (List.cons.inj hpassed.upcoming).1
    have hkind := hkinds first (List.mem_append_left _ List.mem_cons_self)
    rw [← hfirst] at hkind
    exact Bool.not_eq_false _ ▸ mt Cursor.hasMore_eq_false.1 hkind
  · rw [Cursor.hasMore_eq_false]
    constructor
    · intro hend
      cases others with
      | nil => exact ⟨stop, hothers, hstop⟩
      | cons first rest =>
        obtain ⟨hfirst, -⟩ := List.cons.inj hothers
        rw [hfirst] at hend
        exact absurd hend (hkinds first (List.mem_append_right _ List.mem_cons_self))
    · rintro ⟨last, hlast, hkind⟩
      rw [(List.cons.inj hlast).1]
      exact hkind

end Grammar

namespace Arena

def rootKind (arena : Arena) : Option NodeKind :=
  arena.root.bind fun root => arena.nodes[root]?.map Node.kind

theorem rootKind_expression (mark : Mark) (body : Expr Mark) :
    ∃ id, (ofProgram (.expression mark body)).rootKind = some (.expressionProgram id) := by
  refine ⟨(body.store.run empty).1, ?_⟩
  have hroot := getElem?_place (.expressionProgram (body.store.run empty).1) mark
    (body.store.run empty).2
  exact congrArg (Option.map Node.kind) hroot

theorem rootKind_statements (mark : Mark) (body : List (Stmt Mark)) :
    ∃ ids, (ofProgram (.statements mark body)).rootKind = some (.statementProgram ids) := by
  refine ⟨((Stmt.storeAll body).run empty).1, ?_⟩
  have hroot := getElem?_place (.statementProgram ((Stmt.storeAll body).run empty).1) mark
    ((Stmt.storeAll body).run empty).2
  exact congrArg (Option.map Node.kind) hroot

theorem clean_of_diagnostics {p : Program Mark} (h : (ofProgram p).diagnostics = .ok []) :
    Grammar.Clean p.marks := by
  obtain ⟨landed, rfl, hholds, -⟩ := holds_ofProgram p
  intro mark hmark
  rw [Program.marks_map] at hmark
  obtain ⟨info, hinfo, rfl⟩ := List.mem_map.1 hmark
  exact hholds.clean h info hinfo

/-- A program that is one expression is what reading one expression gives.  One expression without
a report is written by the first tokens of the text, and it is the program exactly when they are all
tokens before the end of the input. -/
theorem entries_agree (source : String) :
    (∀ id, (parse source).rootKind = some (.expressionProgram id) →
      parseExpression source = parse source) ∧
    ((parseExpression source).diagnostics = .ok [] → ∃ passed rest,
      Token.scan source = passed ++ rest ∧
      (Grammar.parseExpression source).Spelled Mark.Covers passed ∧
      (parse source = parseExpression source ↔ ∃ stop, rest = [stop] ∧ stop.kind = .endOfInput)) := by
  have hstatements {mark : Mark} {body : List (Stmt Mark)}
      (hparse : Grammar.parse source = .statements mark body) (id : NodeId) :
      (parse source).rootKind ≠ some (.expressionProgram id) := by
    obtain ⟨ids, hids⟩ := rootKind_statements mark body
    rw [parse, hparse, hids]
    simp
  have hexpression : ∃ id, (parseExpression source).rootKind = some (.expressionProgram id) := by
    obtain ⟨mark, body, hbody⟩ :=
      Grammar.expressionProgram_run (Cursor.ofTokens (Token.scan source))
    rw [parseExpression, Grammar.parseExpression, hbody]
    exact rootKind_expression mark body
  refine ⟨fun id hroot => ?_, fun hdiagnostics => ?_⟩
  · rcases Grammar.parse_cases source with ⟨hsame, -⟩ | ⟨⟨mark, body, hparse⟩, -⟩
    · rw [parse, parseExpression, hsame]
    · exact absurd hroot (hstatements hparse id)
  · obtain ⟨passed, rest, hscan, hspelled, hmore, hend⟩ :=
      Grammar.parseExpression_spelled source (clean_of_diagnostics hdiagnostics)
    refine ⟨passed, rest, hscan, hspelled, ?_⟩
    rw [← hend]
    rcases Grammar.parse_cases source with ⟨hsame, hall⟩ | ⟨⟨mark, body, hparse⟩, hleft⟩
    · exact ⟨fun _ => hall, fun _ => by rw [parse, parseExpression, hsame]⟩
    · constructor
      · intro hsame
        obtain ⟨id, hid⟩ := hexpression
        exact absurd (hsame ▸ hid) (hstatements hparse id)
      · intro hall
        rcases hleft with hleft | hempty
        · exact absurd (hleft.symm.trans hall) nofun
        · exact absurd (hmore.symm.trans hempty) nofun

/-- A sum with blanks behind it is one expression in both ways. -/
theorem entries_agree_sum : (parse "1 + 2 ").rootKind = some (.expressionProgram 2) ∧
    (parseExpression "1 + 2 ").diagnostics = .ok [] ∧ parseExpression "1 + 2 " = parse "1 + 2 " := by
  have hroot : (parse "1 + 2 ").rootKind = some (.expressionProgram 2) := by decide +kernel
  have hsame := (entries_agree "1 + 2 ").1 2 hroot
  exact ⟨hroot, by decide +kernel, hsame⟩

/-- Two numbers: read as one expression, they are the first one without a report, and the second is
dropped; read as a program, both are reported. -/
theorem entries_part : (parseExpression "1 2").diagnostics = .ok [] ∧
    (parseExpression "1 2").rootKind = some (.expressionProgram 0) ∧
    (parse "1 2").rootKind = some (.statementProgram [0, 1]) ∧
    parse "1 2" ≠ parseExpression "1 2" := by
  have hexpression : (parseExpression "1 2").rootKind = some (.expressionProgram 0) := by
    decide +kernel
  have hstatements : (parse "1 2").rootKind = some (.statementProgram [0, 1]) := by decide +kernel
  refine ⟨by decide +kernel, hexpression, hstatements, fun hsame => ?_⟩
  rw [hsame, hexpression] at hstatements
  cases hstatements

end Arena
end CatScript
