import Mathlib.Data.List.Induction
import Mathlib.Data.String.Basic
import CatScript.Token.Cursor
import CatScript.Token.Stream

/-! # Tokens tile the text

Scanning takes a text apart into gaps and lexemes (`Token.scanFrom_tiled`).  So nothing of the text
is lost between the tokens: each one stands where its span says and says what stands there, and what
is left between them is white space and comments (`Token.scan_tiles`). -/
set_option autoImplicit false
namespace CatScript
open String (utf8Len)

namespace Text

/-- White space and comments in front of `rest`.  A comment runs to the end of its line. -/
inductive Trivia (rest : List Char) : List Char → Prop where
  | none : Trivia rest []
  | blank {c : Char} {gap : List Char} : isBlank c = true → Trivia rest gap → Trivia rest (c :: gap)
  | comment {inside gap : List Char} : '\n' ∉ inside → (∀ c ∈ (gap ++ rest).head?, c = '\n') →
      Trivia rest gap → Trivia rest ('/' :: '/' :: (inside ++ gap))

/-- Between two byte offsets of `chars` there are only white space and comments. -/
def Skipped (chars : List Char) (start stop : Nat) : Prop :=
  ∃ before gap rest, chars = before ++ (gap ++ rest) ∧ Trivia rest gap ∧
    utf8Len before = start ∧ utf8Len (before ++ gap) = stop

end Text

/-- The token stands in `chars` where its span says, and its text is what stands there; the text of
a `string` token leaves out the quotes. -/
def Token.Stands (chars : List Char) (token : Token) : Prop :=
  ∃ before piece after, chars = before ++ (piece ++ after) ∧
    piece = (if token.kind = .string then '"' :: (token.text.toList ++ ['"'])
      else token.text.toList) ∧
    token.span.start = utf8Len before ∧ token.span.stop = utf8Len (before ++ piece) ∧
    token.span.line = 1 + before.count '\n' ∧
    token.span.column = (before.reverse.takeWhile (· != '\n')).length

/-- The tokens take up the whole of `source`, in order: each token stands where its span says, only
the last one is the end of the input, and nothing but white space and comments is left out. -/
structure Tiles (source : String) (tokens : List Token) : Prop where
  ends : ∃ front last, tokens = front ++ [last] ∧ last.kind = .endOfInput ∧
    last.span.start = source.utf8ByteSize ∧ last.span.stop = source.utf8ByteSize ∧
    ∀ token ∈ front, token.kind ≠ .endOfInput ∧ token.span.start < token.span.stop
  apart : tokens.Pairwise fun token later => token.span.stop ≤ later.span.start
  opening : ∀ first ∈ tokens.head?, Text.Skipped source.toList 0 first.span.start
  gaps : tokens.IsChain fun token next =>
    Text.Skipped source.toList token.span.stop next.span.start
  stands : ∀ token ∈ tokens, token.Stands source.toList

section Places

theorem Place.offset_after (place : Place) (chars : List Char) :
    (place.after chars).offset = place.offset + utf8Len chars := by
  induction chars generalizing place with
  | nil => rfl
  | cons c rest ih =>
    have hnext : (place.next c).offset = place.offset + c.utf8Size := by
      unfold next
      split <;> rfl
    have hrest := ih (place.next c)
    rw [hnext] at hrest
    rw [String.utf8Len_cons, ← Nat.add_assoc, Nat.add_right_comm]
    exact hrest

theorem Place.line_after (place : Place) (chars : List Char) :
    (place.after chars).line = place.line + chars.count '\n' := by
  induction chars generalizing place with
  | nil => rfl
  | cons c rest ih =>
    have hrest : (place.after (c :: rest)).line = (place.next c).line + rest.count '\n' :=
      ih (place.next c)
    rw [hrest, List.count_cons]
    unfold next
    by_cases h : c = '\n'
    · simp only [h, if_true, beq_self_eq_true]
      omega
    · simp only [h, if_false, beq_iff_eq]
      omega

theorem Place.offset_origin (chars : List Char) :
    (origin.after chars).offset = utf8Len chars := by
  rw [offset_after]
  exact Nat.zero_add _

/-- The column counts the characters since the last line break. -/
theorem Place.column_origin (chars : List Char) :
    (origin.after chars).column = (chars.reverse.takeWhile (· != '\n')).length := by
  induction chars using List.reverseRecOn with
  | nil => rfl
  | append_singleton before c ih =>
    rw [after_append, List.reverse_append, List.reverse_singleton, List.singleton_append]
    show ((origin.after before).next c).column = _
    unfold next
    by_cases h : c = '\n'
    · simp [h]
    · simp [h, ih]

theorem utf8Len_pos {chars : List Char} (h : chars ≠ []) : 0 < utf8Len chars := by
  cases chars with
  | nil => exact absurd rfl h
  | cons c rest =>
    have hc := c.utf8Size_pos
    rw [String.utf8Len_cons]
    omega

end Places

section Lexemes

theorem TokenKind.ofWord_ne {kind : TokenKind}
    (h : kind ∉ .identifier :: keywords.map Prod.snd) (text : String) : ofWord text ≠ kind := by
  rintro rfl
  refine h ?_
  unfold ofWord
  cases hkind : keywords.lookup text with
  | none => exact List.mem_cons_self
  | some kind =>
    obtain ⟨before, behind, hkeywords, -⟩ := List.lookup_eq_some_iff.1 hkind
    refine List.mem_cons_of_mem _ (List.mem_map.2 ⟨(text, kind), ?_, rfl⟩)
    rw [hkeywords]
    exact List.mem_append_right _ List.mem_cons_self

namespace Lexeme

/-- The lexeme makes a token that says what it covers; a text literal leaves out the quotes. -/
structure Sound (lexeme : Lexeme) : Prop where
  starts : lexeme.kind ≠ .endOfInput
  covers : lexeme.covered =
    if lexeme.kind = .string then '"' :: (lexeme.text ++ ['"']) else lexeme.text

theorem Sound.of_plain {kind : TokenKind} (covered : List Char)
    (h : kind ∉ [.endOfInput, .string]) : Sound ⟨kind, covered, covered⟩ := by
  simp only [List.mem_cons, List.not_mem_nil, or_false, not_or] at h
  refine Sound.mk h.1 ?_
  rw [if_neg h.2]

theorem sound_quoted (rest : List Char) : (quoted rest).1.Sound := by
  unfold quoted
  dsimp only
  split
  · exact Sound.mk TokenKind.noConfusion rfl
  · exact Sound.of_plain _ (by decide)

theorem sound_sign (c : Char) (rest : List Char) : (sign c rest).1.Sound := by
  unfold sign
  split
  · rename_i kind left hkind
    refine Sound.of_plain _ ?_
    unfold signEqualKind? at hkind
    split at hkind <;> cases hkind <;> decide
  · refine Sound.of_plain _ ?_
    unfold signKind
    split <;> decide

theorem sound_read (c : Char) (rest : List Char) : (read c rest).1.Sound := by
  have hword (text : String) : TokenKind.ofWord text ∉ [.endOfInput, .string] := by
    simp [TokenKind.ofWord_ne (by decide : TokenKind.endOfInput ∉ _),
      TokenKind.ofWord_ne (by decide : TokenKind.string ∉ _)]
  unfold read
  by_cases hquote : c = '"'
  · rw [if_pos hquote]
    exact sound_quoted rest
  · rw [if_neg hquote]
    split
    · exact Sound.of_plain _ (hword _)
    · split
      · exact Sound.of_plain _ (by decide)
      · exact sound_sign c rest

/-- What is skipped in a comment goes on to the end of the line, and then there is trivia. -/
theorem spanTrivia_trivia (comment : Bool) (chars : List Char) : ∃ inside gap,
    (spanTrivia comment chars).1 = inside ++ gap ∧ '\n' ∉ inside ∧
      Text.Trivia (spanTrivia comment chars).2 gap ∧
      if comment then ∀ c ∈ (gap ++ (spanTrivia comment chars).2).head?, c = '\n'
      else inside = [] := by
  fun_induction spanTrivia comment chars with
  | case1 comment => exact ⟨[], [], rfl, List.not_mem_nil, .none, by split <;> simp⟩
  | case2 c rest skipped left heq ih =>
    obtain ⟨inside, gap, hsplit, hline, htrivia, hend⟩ := ih
    rw [heq] at hsplit htrivia hend
    subst hsplit
    by_cases h : c = '\n'
    · subst h
      obtain rfl : inside = [] := hend
      exact ⟨[], '\n' :: gap, rfl, List.not_mem_nil, .blank (by decide) htrivia,
        fun c hc => (Option.some.inj hc).symm⟩
    · refine ⟨c :: inside, gap, rfl, ?_, htrivia, ?_⟩
      · simp [Ne.symm h, hline]
      · simpa [h] using hend
  | case3 c rest hblank skipped left heq ih =>
    obtain ⟨inside, gap, hsplit, hline, htrivia, hend⟩ := ih
    rw [heq] at hsplit htrivia hend
    obtain rfl : inside = [] := hend
    exact ⟨[], c :: gap, congrArg (c :: ·) hsplit, List.not_mem_nil, .blank hblank htrivia, rfl⟩
  | case4 c rest hblank hslash skipped left heq ih =>
    obtain ⟨inside, gap, hsplit, hline, htrivia, hend⟩ := ih
    have happend := spanTrivia_append true rest
    rw [heq] at hsplit htrivia hend happend
    subst hsplit
    simp only [Bool.and_eq_true, decide_eq_true_eq, beq_iff_eq] at hslash
    obtain ⟨rfl, hrest⟩ := hslash
    rw [← happend] at hrest
    -- the second slash stands inside the comment, as it ends no line
    cases inside with
    | nil => exact absurd (hend '/' hrest) (by decide)
    | cons second inside =>
      obtain rfl : second = '/' := Option.some.inj hrest
      refine ⟨[], _, rfl, List.not_mem_nil, .comment (fun h => hline ?_) hend htrivia, rfl⟩
      exact List.mem_cons_of_mem _ h
  | case5 c rest hblank hslash => exact ⟨[], [], rfl, List.not_mem_nil, .none, rfl⟩

theorem trivia_spanTrivia (chars : List Char) :
    Text.Trivia (spanTrivia false chars).2 (spanTrivia false chars).1 := by
  obtain ⟨inside, gap, hsplit, -, htrivia, rfl⟩ := spanTrivia_trivia false chars
  rw [hsplit]
  exact htrivia

end Lexeme
end Lexemes

section Tilings

/-- Tokens that stand one after the other in `rest`, where `before` comes first: each one behind
white space and comments, and the end of the input behind the last one. -/
inductive Tiled : List Char → List Char → List Token → Prop where
  | finish {before gap : List Char} : Text.Trivia [] gap →
      Tiled before gap [Token.endAt (Place.origin.after (before ++ gap))]
  | token {before gap rest : List Char} {lexeme : Lexeme} {tokens : List Token} :
      Text.Trivia (lexeme.covered ++ rest) gap → lexeme.Sound → lexeme.covered ≠ [] →
      Tiled (before ++ gap ++ lexeme.covered) rest tokens →
      Tiled before (gap ++ (lexeme.covered ++ rest))
        (Token.ofLexeme lexeme (Place.origin.after (before ++ gap)) :: tokens)

theorem Token.scanFrom_tiled {bound : Nat} {chars : List Char} (h : chars.length < bound)
    (before : List Char) : Tiled before chars (scanFrom bound (Place.origin.after before) chars) := by
  induction bound generalizing before chars with
  | zero => omega
  | succ bound ih =>
    have happend := Lexeme.spanTrivia_append false chars
    have htrivia := Lexeme.trivia_spanTrivia chars
    unfold scanFrom
    generalize Lexeme.spanTrivia false chars = parts at happend htrivia
    obtain ⟨gap, rest⟩ := parts
    dsimp only at happend htrivia ⊢
    rw [← Place.after_append]
    cases rest with
    | nil =>
      rw [List.append_nil] at happend
      subst happend
      exact .finish htrivia
    | cons c more =>
      have hread := Lexeme.read_append c more
      have hleft := Lexeme.length_read_le c more
      have hlength := congrArg List.length happend
      simp only [List.length_append, List.length_cons] at hlength
      rw [← hread] at htrivia happend
      rw [← happend]
      refine .token htrivia (Lexeme.sound_read c more) (Lexeme.read_covered_ne_nil c more) ?_
      rw [← Place.after_append]
      exact ih (by omega) _

theorem Token.span_ofLexeme (lexeme : Lexeme) (before : List Char) :
    (ofLexeme lexeme (Place.origin.after before)).span.start = utf8Len before ∧
      (ofLexeme lexeme (Place.origin.after before)).span.stop =
        utf8Len (before ++ lexeme.covered) := by
  have hstop : (ofLexeme lexeme (Place.origin.after before)).span.stop =
      ((Place.origin.after before).after lexeme.covered).offset := rfl
  rw [hstop, ← Place.after_append, Place.offset_origin]
  exact ⟨Place.offset_origin before, rfl⟩

namespace Tiled
variable {before rest : List Char} {tokens : List Token}

theorem ends (h : Tiled before rest tokens) : ∃ front last, tokens = front ++ [last] ∧
    last.kind = .endOfInput ∧ last.span.start = utf8Len (before ++ rest) ∧
    last.span.stop = utf8Len (before ++ rest) ∧
    ∀ token ∈ front, token.kind ≠ .endOfInput ∧ token.span.start < token.span.stop := by
  induction h with
  | @finish before gap hgap =>
    have hplace := Place.offset_origin (before ++ gap)
    exact ⟨[], _, rfl, rfl, hplace, hplace, fun token h => absurd h List.not_mem_nil⟩
  | @token before gap rest lexeme tokens hgap hsound hcovered htiled ih =>
    obtain ⟨front, last, rfl, hkind, hstart, hstop, hfront⟩ := ih
    rw [List.append_assoc, List.append_assoc] at hstart hstop
    refine ⟨_ :: front, last, rfl, hkind, hstart, hstop, ?_⟩
    intro token htoken
    cases htoken with
    | head =>
      obtain ⟨hfirst, hend⟩ := Token.span_ofLexeme lexeme (before ++ gap)
      have hpos := utf8Len_pos hcovered
      refine ⟨hsound.starts, ?_⟩
      rw [hfirst, hend, String.utf8Len_append (before ++ gap)]
      omega
    | tail _ htoken => exact hfront token htoken

theorem start_le (h : Tiled before rest tokens) :
    ∀ token ∈ tokens, utf8Len before ≤ token.span.start := by
  induction h with
  | @finish before gap hgap =>
    intro token htoken
    obtain rfl := List.mem_singleton.1 htoken
    show _ ≤ (Place.origin.after (before ++ gap)).offset
    simp [Place.offset_origin]
  | @token before gap rest lexeme tokens hgap hsound hcovered htiled ih =>
    intro token htoken
    cases htoken with
    | head => simp [Token.span_ofLexeme]
    | tail _ htoken =>
      have hlater := ih token htoken
      simp only [String.utf8Len_append] at hlater
      omega

theorem apart (h : Tiled before rest tokens) :
    tokens.Pairwise fun token later => token.span.stop ≤ later.span.start := by
  induction h with
  | finish hgap => exact List.pairwise_singleton _ _
  | @token before gap rest lexeme tokens hgap hsound hcovered htiled ih =>
    refine List.Pairwise.cons ?_ ih
    intro later hlater
    rw [(Token.span_ofLexeme lexeme (before ++ gap)).2]
    exact htiled.start_le later hlater

theorem opening (h : Tiled before rest tokens) :
    ∀ first ∈ tokens.head?, Text.Skipped (before ++ rest) (utf8Len before) first.span.start := by
  intro first hfirst
  cases h with
  | finish hgap =>
    obtain rfl := Option.some.inj hfirst
    refine ⟨before, rest, [], by simp, hgap, rfl, ?_⟩
    exact (Place.offset_origin (before ++ rest)).symm
  | @token before gap rest lexeme tokens hgap hsound hcovered htiled =>
    obtain rfl := Option.some.inj hfirst
    refine ⟨before, gap, lexeme.covered ++ rest, rfl, hgap, rfl, ?_⟩
    exact (Token.span_ofLexeme lexeme (before ++ gap)).1.symm

theorem gaps (h : Tiled before rest tokens) : tokens.IsChain fun token next =>
    Text.Skipped (before ++ rest) token.span.stop next.span.start := by
  induction h with
  | finish hgap => exact List.IsChain.singleton _
  | @token before gap rest lexeme tokens hgap hsound hcovered htiled ih =>
    have hopening := htiled.opening
    rw [← (Token.span_ofLexeme lexeme (before ++ gap)).2] at hopening
    simp only [List.append_assoc] at ih hopening
    cases tokens with
    | nil => exact List.IsChain.singleton _
    | cons next later => exact List.isChain_cons_cons.2 ⟨hopening next rfl, ih⟩

theorem stands (h : Tiled before rest tokens) :
    ∀ token ∈ tokens, token.Stands (before ++ rest) := by
  induction h with
  | @finish before gap hgap =>
    intro token htoken
    obtain rfl := List.mem_singleton.1 htoken
    have hplace := Place.offset_origin (before ++ gap)
    refine ⟨before ++ gap, [], [], by simp, rfl, hplace, ?_, Place.line_after _ _,
      Place.column_origin _⟩
    rw [List.append_nil]
    exact hplace
  | @token before gap rest lexeme tokens hgap hsound hcovered htiled ih =>
    intro token htoken
    cases htoken with
    | head =>
      obtain ⟨hstart, hstop⟩ := Token.span_ofLexeme lexeme (before ++ gap)
      refine ⟨before ++ gap, lexeme.covered, rest, by simp, ?_, hstart, hstop,
        Place.line_after _ _, Place.column_origin _⟩
      simpa [Token.ofLexeme] using hsound.covers
    | tail _ htoken =>
      have hlater := ih token htoken
      simp only [List.append_assoc] at hlater
      exact hlater

end Tiled

theorem Tiled.tiles {source : String} {tokens : List Token}
    (h : Tiled [] source.toList tokens) : Tiles source tokens := by
  have hsize : utf8Len source.toList = source.utf8ByteSize := by
    rw [← String.utf8ByteSize_ofList, String.ofList_toList]
  refine Tiles.mk ?_ h.apart h.opening h.gaps h.stands
  rw [← hsize]
  exact h.ends

end Tilings

theorem Token.scan_tiled (source : String) : Tiled [] source.toList (scan source) :=
  scanFrom_tiled (by rw [String.length_toList]; omega) []

/-- A reader finds just the tokens that are scanned, and they tile the text. -/
theorem Token.scan_tiles (source : String) :
    (Cursor.ofTokens (scan source)).all = scan source ∧ Tiles source (scan source) := by
  have htiled := scan_tiled source
  refine ⟨?_, htiled.tiles⟩
  obtain ⟨front, last, htokens, hkind, -⟩ := htiled.ends
  rw [Cursor.all_ofTokens, Cursor.terminated, htokens]
  simp [hkind]

end CatScript
