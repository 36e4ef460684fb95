import CatScript.Proofs.Grammar.Printing.Scanned
import CatScript.Proofs.Grammar.Printing.Spelled

/-! # Reading what has been written

A tree that is written down as text is read back as it was, apart from the marks, and nothing is
reported (`Grammar.parse_text`). -/
set_option autoImplicit false
namespace CatScript
open Grammar

variable {α β : Type}

def Readable (words : List Word) : Prop :=
  ∀ word ∈ words, word.isReadable = true

section Readable
variable {words others : List Word} {word : Word}

theorem readable_cons : Readable (word :: words) ↔ word.isReadable = true ∧ Readable words :=
  List.forall_mem_cons

theorem readable_append : Readable (words ++ others) ↔ Readable words ∧ Readable others :=
  List.forall_mem_append

theorem readable_nil : Readable [] := by
  intro _ hmem
  exact absurd hmem List.not_mem_nil

theorem isReadable_decimal {value : Int64} (h : 0 ≤ value) :
    (Word.mk .integer (Text.decimal value)).isReadable = true := by
  obtain ⟨n, -, hdigits⟩ := decimal_toList h
  unfold Word.isReadable
  rw [Bool.and_eq_true, hdigits, List.all_eq_true, Bool.not_eq_true', List.isEmpty_eq_false_iff]
  refine ⟨?_, fun c hc => Nat.isDigit_of_mem_toDigits (by decide) (by decide) hc⟩
  exact Nat.toDigits_ne_nil

theorem readable_type : ∀ {ty : Ty}, ty.isNamed = true → Readable ty.words
  | .int, _ | .string, _ | .boolean, _ | .object, _ =>
    readable_cons.2 ⟨by decide, readable_nil⟩
  | .list component, hnamed => by
    refine readable_cons.2 ⟨by decide, readable_cons.2 ⟨rfl, readable_append.2 ⟨?_, ?_⟩⟩⟩
    · exact (readable_type hnamed : Readable component.words)
    · exact readable_cons.2 ⟨rfl, readable_nil⟩

theorem readable_annotated {ty? : Option Ty} (hnamed : ty?.all Ty.isNamed = true) :
    Readable (annotated ty?) := by
  cases ty? with
  | none => exact readable_nil
  | some ty => exact readable_cons.2 ⟨rfl, readable_type hnamed⟩

theorem readable_listed {words : β → List Word} {items : List β}
    (h : ∀ b ∈ items, Readable (words b)) : Readable (listed words items) := by
  induction items with
  | nil => exact readable_nil
  | cons b rest ih =>
    obtain ⟨hb, hrest⟩ := List.forall_mem_cons.1 h
    refine readable_append.2 ⟨hb, ?_⟩
    split
    · exact readable_nil
    · exact readable_cons.2 ⟨rfl, ih hrest⟩

theorem readable_braced (h : Readable words) : Readable (braced words) :=
  readable_cons.2 ⟨rfl, readable_append.2 ⟨h, readable_cons.2 ⟨rfl, readable_nil⟩⟩⟩

end Readable

mutual

theorem readable_expr : ∀ {e : Expr α}, e.isWritable = true → Readable e.words
  | .identifier _ _, h => readable_cons.2 ⟨h, readable_nil⟩
  | .integer _ _, h => readable_cons.2 ⟨isReadable_decimal (of_decide_eq_true h), readable_nil⟩
  | .string _ _, h => readable_cons.2 ⟨h, readable_nil⟩
  | .boolean _ true, _ | .boolean _ false, _ | .null _, _ => readable_cons.2 ⟨rfl, readable_nil⟩
  | .list _ _, h => readable_cons.2 ⟨rfl, readable_append.2
      ⟨readable_exprs h, readable_cons.2 ⟨rfl, readable_nil⟩⟩⟩
  | .parenthesized _ _, h => readable_cons.2 ⟨rfl, readable_append.2
      ⟨readable_expr h, readable_cons.2 ⟨rfl, readable_nil⟩⟩⟩
  | .unary _ op _, h => readable_cons.2 ⟨by cases op <;> rfl, readable_expr h⟩
  | .binary _ op left right, h => by
    rw [Expr.isWritable, Bool.and_eq_true] at h
    exact readable_append.2 ⟨readable_expr h.1,
      readable_cons.2 ⟨by cases op <;> rfl, readable_expr h.2⟩⟩
  | .comparison _ op left right, h => by
    rw [Expr.isWritable, Bool.and_eq_true] at h
    exact readable_append.2 ⟨readable_expr h.1,
      readable_cons.2 ⟨by cases op <;> rfl, readable_expr h.2⟩⟩
  | .equality _ op left right, h => by
    rw [Expr.isWritable, Bool.and_eq_true] at h
    exact readable_append.2 ⟨readable_expr h.1,
      readable_cons.2 ⟨by cases op <;> rfl, readable_expr h.2⟩⟩
  | .call _ _ _, h => by
    rw [Expr.isWritable, Bool.and_eq_true] at h
    exact readable_cons.2 ⟨h.1, readable_cons.2 ⟨rfl, readable_append.2
      ⟨readable_exprs h.2, readable_cons.2 ⟨rfl, readable_nil⟩⟩⟩⟩

theorem readable_exprs : ∀ {items : List (Expr α)}, Expr.areWritable items = true →
    Readable (Expr.wordsAll items)
  | [], _ => readable_nil
  | e :: rest, h => by
    rw [Expr.areWritable, Bool.and_eq_true] at h
    refine readable_append.2 ⟨readable_expr h.1, ?_⟩
    split
    · exact readable_nil
    · exact readable_cons.2 ⟨rfl, readable_exprs h.2⟩

end

mutual

theorem readable_stmt (chained : Bool) : ∀ {s : Stmt α} {inFunction : Bool},
    s.isWritable inFunction = true → Readable (s.words chained)
  | .declaration _ _ _ _, _, h => by
    rw [Stmt.isWritable, Bool.and_eq_true, Bool.and_eq_true] at h
    exact readable_cons.2 ⟨rfl, readable_cons.2 ⟨h.1.1, readable_append.2
      ⟨readable_annotated h.1.2, readable_cons.2 ⟨rfl, readable_expr h.2⟩⟩⟩⟩
  | .assignment _ _ _, _, h => by
    rw [Stmt.isWritable, Bool.and_eq_true] at h
    exact readable_cons.2 ⟨h.1, readable_cons.2 ⟨rfl, readable_expr h.2⟩⟩
  | .function _ _ params returns _, _, h => by
    rw [Stmt.isWritable, Bool.and_eq_true, Bool.and_eq_true, Bool.and_eq_true] at h
    obtain ⟨⟨⟨hname, hparams⟩, hreturns⟩, hbody⟩ := h
    have hparams : Readable (listed Parameter.words params) := by
      refine readable_listed fun param hmem => ?_
      obtain ⟨hname, hnamed⟩ := Bool.and_eq_true_iff.1 (List.all_eq_true.1 hparams param hmem)
      exact readable_cons.2 ⟨hname, readable_annotated hnamed⟩
    have hannotated :
        Readable (annotated (if returns = .void then none else some returns)) := by
      split
      · exact readable_nil
      · next hvoid => exact readable_annotated (by simpa [hvoid] using hreturns)
    exact readable_cons.2 ⟨rfl, readable_cons.2 ⟨hname, readable_cons.2 ⟨rfl, readable_append.2
      ⟨hparams, readable_cons.2 ⟨rfl, readable_append.2
        ⟨hannotated, readable_braced (readable_stmts chained hbody)⟩⟩⟩⟩⟩⟩
  | .ifThen _ _ _, _, h => by
    rw [Stmt.isWritable, Bool.and_eq_true] at h
    exact readable_cons.2 ⟨rfl, readable_cons.2 ⟨rfl, readable_append.2 ⟨readable_expr h.1,
      readable_cons.2 ⟨rfl, readable_braced (readable_stmts chained h.2)⟩⟩⟩⟩
  | .ifThenElse _ _ _ _, _, h => by
    rw [Stmt.isWritable, Bool.and_eq_true, Bool.and_eq_true] at h
    have helse := readable_stmts chained h.2
    refine readable_cons.2 ⟨rfl, readable_cons.2 ⟨rfl, readable_append.2 ⟨readable_expr h.1.1,
      readable_cons.2 ⟨rfl, readable_append.2 ⟨readable_braced (readable_stmts chained h.1.2),
        readable_cons.2 ⟨rfl, ?_⟩⟩⟩⟩⟩⟩
    split
    · exact helse
    · exact readable_braced helse
  | .loop _ _ _ _, _, h => by
    rw [Stmt.isWritable, Bool.and_eq_true, Bool.and_eq_true] at h
    exact readable_cons.2 ⟨rfl, readable_cons.2 ⟨rfl, readable_cons.2 ⟨h.1.1, readable_cons.2
      ⟨rfl, readable_append.2 ⟨readable_expr h.1.2,
        readable_cons.2 ⟨rfl, readable_braced (readable_stmts chained h.2)⟩⟩⟩⟩⟩⟩
  | .print _ _, _, h => readable_cons.2 ⟨rfl, readable_cons.2 ⟨rfl, readable_append.2
      ⟨readable_expr h, readable_cons.2 ⟨rfl, readable_nil⟩⟩⟩⟩
  | .call _ _, _, h => by
    rw [Stmt.isWritable, Bool.and_eq_true] at h
    exact readable_expr h.2
  | .returning _ none, _, _ => readable_cons.2 ⟨rfl, readable_nil⟩
  | .returning _ (some _), _, h => by
    rw [Stmt.isWritable, Bool.and_eq_true] at h
    exact readable_cons.2 ⟨rfl, readable_expr h.2⟩

theorem readable_stmts (chained : Bool) : ∀ {body : List (Stmt α)} {inFunction : Bool},
    Stmt.areWritable inFunction body = true → Readable (Stmt.wordsAll chained body)
  | [], _, _ => readable_nil
  | _ :: _, _, h => by
    rw [Stmt.areWritable, Bool.and_eq_true] at h
    exact readable_append.2 ⟨readable_stmt chained h.1, readable_stmts chained h.2⟩

end

theorem readable_program (chained : Bool) {p : Program α} (h : p.isWritable = true) :
    Readable (p.words chained) := by
  cases p with
  | expression _ body => exact readable_expr h
  | statements _ body => exact readable_stmts chained h

/-- The programs that a text can hold: what is written can stand there, operators are grouped as
they bind, no `return` without a value runs into what follows it, the body is no call alone, and
there are no more levels than a text may have. -/
structure Program.Regular (chained : Bool) (p : Program α) : Prop where
  writable : p.isWritable = true
  grouped : p.grouped = true
  settled : p.settled = true
  notAlone : p.isLoneCall = false
  nesting : p.nesting chained ≤ maxNesting

namespace Grammar

/-- A program that is written down is read back as it was, and nothing is reported. -/
theorem parse_text (chained : Bool) (p : Program α) (h : p.Regular chained) :
    (parse (p.text chained)).map (fun _ => ()) = p.map (fun _ => ()) ∧
      Clean (parse (p.text chained)).marks := by
  obtain ⟨tokens, stop, hscan, hstop, hwords⟩ :=
    Token.scan_spaced (readable_program chained h.writable)
  have hspelled := Program.spelled_of_words h.writable h.nesting hwords
  obtain ⟨hproper, hupcoming⟩ := Cursor.proper_scan (p.text chained)
  exact program_read hproper (hupcoming.trans hscan) hstop hspelled h.grouped h.settled h.notAlone

/-- A program with a function that may return early, a loop, a chain of alternatives, types and
operators of every level. -/
def nested : Program Unit := .statements () [
  .declaration () "found" (some (.list .int)) (.list () []),
  .function () "pick" [⟨"x", .int⟩, ⟨"rest", .list .object⟩] .void [
    .ifThen () (.comparison () .lessEqual (.identifier () "x") (.integer () 10))
      [.returning () none],
    .loop () "y" (.identifier () "rest") [
      .ifThenElse ()
        (.equality () .equal (.identifier () "y")
          (.equality () .notEqual (.null ()) (.unary () .not (.boolean () true))))
        [.print () (.string () "a b")]
        [.ifThenElse () (.boolean () false)
          [.assignment () "found" (.list () [.binary () .sub
            (.binary () .sub (.identifier () "x") (.integer () 1))
            (.binary () .mul (.unary () .negate (.integer () 2)) (.parenthesized ()
              (.binary () .add (.identifier () "x") (.integer () 3))))])]
          [.returning () none]]]],
  .call () (.call () "pick" [.integer () 12, .list () [.null ()]])]

theorem parse_text_nested : nested.Regular true ∧
    (parse (nested.text true)).map (fun _ => ()) = nested.map (fun _ => ()) ∧
      Clean (parse (nested.text true)).marks := by
  have hregular : nested.Regular true :=
    { writable := by decide +kernel
      grouped := by decide
      settled := by decide
      notAlone := rfl
      nesting := by decide }
  exact ⟨hregular, parse_text true nested hregular⟩

end Grammar
end CatScript
