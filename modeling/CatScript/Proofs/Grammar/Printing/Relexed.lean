import CatScript.Proofs.Token.Tiling
import CatScript.Proofs.Grammar.Printing.Scanned

/-! # Tokens on lines of their own

The tokens of any text, written down one on a line, are scanned as the same tokens again
(`Token.scan_lines`).  No lexeme gets longer or shorter when the end of a line follows it instead of
what stood there (`Lexeme.scans_read`), a literal that is not closed included, since it ends with
its line; and no lexeme starts with white space or a comment. -/
set_option autoImplicit false
namespace CatScript

namespace Lexeme
variable {c : Char}

theorem solid_spanTrivia (comment : Bool) (chars : List Char) :
    ∀ c ∈ (spanTrivia comment chars).2.head?, Text.isBlank c = false := by
  fun_induction spanTrivia comment chars with
  | case1 => simp
  | case2 c rest skipped left heq ih => simpa [heq] using ih
  | case3 c rest hblank skipped left heq ih => simpa [heq] using ih
  | case4 c rest hblank hslash skipped left heq ih => simpa [heq] using ih
  | case5 c rest hblank hslash => simpa using hblank

/-- An operator, a delimiter or a character that is neither is read as it is when it stands
alone. -/
theorem sign_alone (c : Char) (chars : List Char) : ∃ more,
    (sign c chars).1 = ⟨(sign c chars).1.kind, c :: more, c :: more⟩ ∧
      (sign c more).1 = (sign c chars).1 := by
  unfold sign
  split
  · next both left hboth => exact ⟨['='], rfl, by simp [hboth]⟩
  · refine ⟨[], rfl, ?_⟩
    split
    · next h => cases h
    · rfl

theorem scans_unclosed {inside : List Char} (h : inside.all insideQuotes = true) :
    Word.Scans '\n' ⟨.error, String.ofList ('"' :: inside)⟩ '"' inside := by
  refine ⟨?_, by decide, fun heq => absurd heq (by decide), fun rest hrest => ?_⟩
  · exact (if_neg TokenKind.noConfusion).trans String.toList_ofList
  · obtain ⟨htake, hdrop⟩ := takeWhile_stops h (by decide) hrest
    rw [read, if_pos rfl, quoted, htake, hdrop, String.toList_ofList]
    split
    · exact absurd (hrest '"' rfl) (by decide)
    · rfl

theorem scans_quoted (chars : List Char) : ∃ more, Word.Scans '\n'
    ⟨(quoted chars).1.kind, String.ofList (quoted chars).1.text⟩ '"' more := by
  have hinside : (chars.takeWhile insideQuotes).all insideQuotes = true := List.all_takeWhile
  unfold quoted
  split
  · refine ⟨_, Word.scans_string ?_⟩
    rw [String.toList_ofList]
    exact hinside
  · exact ⟨_, scans_unclosed hinside⟩

/-- A lexeme is read again when the end of a line follows it. -/
theorem scans_read (hsolid : Text.isBlank c = false) (chars : List Char) :
    ∃ first more, Word.Scans '\n'
      ⟨(read c chars).1.kind, String.ofList (read c chars).1.text⟩ first more := by
  have hline := Text.isBlank_newline
  unfold read
  by_cases hquote : c = '"'
  · rw [if_pos hquote]
    exact ⟨_, scans_quoted chars⟩
  rw [if_neg hquote]
  cases hstart : Text.startsWord c with
  | true =>
    rw [if_pos rfl, word]
    have hstring : TokenKind.ofWord (String.ofList (c :: chars.takeWhile Text.continuesWord)) ≠
        .string := TokenKind.ofWord_ne (by decide) _
    exact ⟨_, _, Word.scans_word hline String.toList_ofList hstart List.all_takeWhile rfl hstring⟩
  | false =>
    rw [if_neg Bool.false_ne_true]
    cases hdigit : c.isDigit with
    | true =>
      rw [if_pos rfl, integer]
      refine Word.scans_integer hline ?_ ?_
      · rw [String.toList_ofList]
        exact List.cons_ne_nil _ _
      · rw [String.toList_ofList, List.all_cons, hdigit]
        exact List.all_takeWhile
    | false =>
      rw [if_neg Bool.false_ne_true]
      obtain ⟨more, hself, halone⟩ := sign_alone c chars
      have hstring : (sign c chars).1.kind ≠ .string := by
        intro hkind
        have hcovers := congrArg List.length (sound_sign c chars).covers
        rw [if_pos hkind, hself] at hcovers
        simp only [List.length_cons, List.length_append] at hcovers
        omega
      refine ⟨c, more, ?_⟩
      rw [hself]
      exact Word.scans_sign hline String.toList_ofList hsolid hquote hstart hdigit
        (halone.trans hself) hstring

end Lexeme

namespace Token

/-- Up to the end of the input, each token is scanned again when the end of a line follows it. -/
theorem scans_scanFrom (bound : Nat) (place : Place) (chars : List Char) :
    ∃ front stop, scanFrom bound place chars = front ++ [endAt stop] ∧
      ∀ token ∈ front, token.kind ≠ .endOfInput ∧ ∃ c more, token.word.Scans '\n' c more := by
  induction bound generalizing place chars with
  | zero => exact ⟨[], place, rfl, fun token h => absurd h List.not_mem_nil⟩
  | succ bound ih =>
    have hsolid := Lexeme.solid_spanTrivia false chars
    unfold scanFrom
    generalize Lexeme.spanTrivia false chars = parts at hsolid
    obtain ⟨skipped, rest⟩ := parts
    cases rest with
    | nil => exact ⟨[], _, rfl, fun token h => absurd h List.not_mem_nil⟩
    | cons c more =>
      obtain ⟨front, stop, hfront, hall⟩ :=
        ih ((place.after skipped).after (Lexeme.read c more).1.covered) (Lexeme.read c more).2
      refine ⟨ofLexeme (Lexeme.read c more).1 (place.after skipped) :: front, stop, ?_, ?_⟩
      · exact congrArg (List.cons _) hfront
      · exact List.forall_mem_cons.2
          ⟨⟨(Lexeme.sound_read c more).starts, Lexeme.scans_read (hsolid c rfl) more⟩, hall⟩

/-- The tokens as a text, with each one but the end of the input on a line of its own. -/
def lines (tokens : List Token) : String :=
  String.ofList (Word.joined '\n'
    ((tokens.filter fun token => token.kind ≠ .endOfInput).map Token.word))

/-- The tokens of a text are scanned as the same tokens again, wherever they stand, when each one is
written on a line of its own. -/
theorem scan_lines (source : String) :
    (scan (lines (scan source))).map Token.word = (scan source).map Token.word := by
  obtain ⟨front, stop, hscan, hfront⟩ :=
    scans_scanFrom (source.length + 1) .origin source.toList
  have hkept : (front ++ [endAt stop]).filter (fun token => token.kind ≠ .endOfInput) = front := by
    have hall : ∀ token ∈ front, decide (token.kind ≠ .endOfInput) = true :=
      fun token h => decide_eq_true (hfront token h).1
    rw [List.filter_append, List.filter_eq_self.2 hall]
    exact List.append_nil front
  have hwords : ∀ word ∈ front.map Token.word, ∃ c more, word.Scans '\n' c more :=
    List.forall_mem_map.2 fun token h => (hfront token h).2
  obtain ⟨tokens, stop', hscan', hsame⟩ := scan_joined Text.isBlank_newline hwords
  have hsource : scan source = front ++ [endAt stop] := hscan
  rw [hsource, lines, hkept, hscan', List.map_append, List.map_append, hsame]
  rfl

example : lines (scan "var x=1<=2//no\n\"a b\" \"c ") =
    "var\nx\n=\n1\n<=\n2\n\"a b\"\n\"c " := by decide +kernel

end Token
end CatScript
