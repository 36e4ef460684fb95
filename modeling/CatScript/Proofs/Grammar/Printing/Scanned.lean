import CatScript.Proofs.Grammar.Printing.Words

/-! # Words are scanned as they are written

Words with one blank character between any two of them, always the same one, are scanned into tokens
that say these words: a word ends at the blank after it, since no lexeme but a text literal goes on
over a blank, and a closed literal shows where it ends.  `Token.scan_joined` asks of each word only
that it `Scans` when the blank follows; `Token.scan_spaced` is the case of spaces and of words that
are the text of some token. -/
set_option autoImplicit false
namespace CatScript

section Letters
variable {c : Char}

theorem Text.covers_eq_false {ranges others : List (Nat × Nat)}
    (h : ranges.all (fun a => others.all fun b => a.2 < b.1 || b.2 < a.1) = true)
    (hc : covers ranges c = true) : covers others c = false := by
  obtain ⟨a, ha, hlow, hhigh⟩ := (covers_iff ranges c).1 hc
  rw [Bool.eq_false_iff, Ne, covers_iff]
  rintro ⟨b, hb, hlow', hhigh'⟩
  have hapart := List.all_eq_true.1 (List.all_eq_true.1 h a ha) b hb
  simp only [Bool.or_eq_true, decide_eq_true_eq] at hapart
  omega

theorem isAlpha_iff : c.isAlpha = true ↔
    (65 ≤ c.toNat ∧ c.toNat ≤ 90) ∨ (97 ≤ c.toNat ∧ c.toNat ≤ 122) := by
  show (decide (65 ≤ c.val ∧ c.val ≤ 90) || (decide (97 ≤ c.val) && decide (c.val ≤ 122))) = true ↔ _
  simp [UInt32.le_iff_toNat_le]

theorem Text.startsWord_of_isBlank (h : isBlank c = true) : startsWord c = false := by
  have hascii : covers [(65, 90), (95, 95), (97, 122)] c = false := covers_eq_false (by decide) h
  have hletters : covers alphabeticRanges c = false := covers_eq_false (by decide +kernel) h
  have halpha : c.isAlpha = false := by
    rw [Bool.eq_false_iff]
    intro halpha
    have hletter : covers [(65, 90), (95, 95), (97, 122)] c = true := by
      rw [isAlpha_iff] at halpha
      simp [covers]
      omega
    rw [hascii] at hletter
    cases hletter
  have hnot : c ≠ '_' := by
    rintro rfl
    cases hascii
  unfold startsWord isAlphabetic
  rw [halpha, hletters]
  simp [hnot]

theorem Text.isBlank_of_startsWord (h : startsWord c = true) : isBlank c = false := by
  rw [Bool.eq_false_iff]
  intro hblank
  rw [startsWord_of_isBlank hblank] at h
  cases h

theorem isDigit_iff : c.isDigit = true ↔ 48 ≤ c.toNat ∧ c.toNat ≤ 57 := by
  simp [Char.isDigit, UInt32.le_iff_toNat_le]

theorem Text.covers_of_isDigit (h : c.isDigit = true) : covers [(48, 57)] c = true :=
  (covers_iff _ c).2 ⟨_, List.mem_singleton_self _, isDigit_iff.1 h⟩

theorem Text.continuesWord_of_isBlank (h : isBlank c = true) : continuesWord c = false := by
  have hstart := startsWord_of_isBlank h
  have hnumerals : covers numericRanges c = false := covers_eq_false (by decide +kernel) h
  have hdigit : c.isDigit = false := by
    have hascii : covers [(48, 57)] c = false := covers_eq_false (by decide) h
    rw [Bool.eq_false_iff]
    intro hdigit
    rw [covers_of_isDigit hdigit] at hascii
    cases hascii
  unfold startsWord at hstart
  unfold continuesWord isNumeric
  rw [hdigit, hnumerals]
  simpa using hstart

theorem digit_alone (h : c.isDigit = true) :
    Text.isBlank c = false ∧ Text.startsWord c = false ∧ c ≠ '"' ∧ c ≠ '/' := by
  have hrange := isDigit_iff.1 h
  have hdigit := Text.covers_of_isDigit h
  have hne : ∀ other : Char, (other.toNat < 48 ∨ 57 < other.toNat) → c ≠ other := by
    rintro other hother rfl
    omega
  have halpha : c.isAlpha = false := by
    rw [Bool.eq_false_iff, Ne, isAlpha_iff]
    omega
  refine ⟨Text.covers_eq_false (by decide) hdigit, ?_, hne _ (by decide), hne _ (by decide)⟩
  rw [Text.startsWord, Text.isAlphabetic, if_pos (by omega), halpha]
  simpa using hne '_' (by decide)

end Letters

/-- Nothing follows, or the separator does. -/
def Stops (separator : Char) (rest : List Char) : Prop :=
  ∀ c ∈ rest.head?, c = separator

section Spans
variable {separator : Char} {p : Char → Bool} {more rest : List Char}

theorem stops_nil : Stops separator [] := by
  intro c hc
  exact absurd hc (by simp)

theorem stops_cons (rest : List Char) : Stops separator (separator :: rest) := by
  intro _ hc
  exact (Option.some.inj hc).symm

theorem takeWhile_stops (hmore : more.all p = true) (hseparator : p separator = false)
    (hrest : Stops separator rest) :
    (more ++ rest).takeWhile p = more ∧ (more ++ rest).dropWhile p = rest := by
  have hall : ∀ c ∈ more, p c = true := List.all_eq_true.1 hmore
  have hnone : rest.takeWhile p = [] ∧ rest.dropWhile p = rest := by
    cases rest with
    | nil => exact ⟨rfl, rfl⟩
    | cons c tail =>
      obtain rfl : c = separator := hrest c rfl
      exact ⟨List.takeWhile_cons_of_neg (by rw [hseparator]; decide),
        List.dropWhile_cons_of_neg (by rw [hseparator]; decide)⟩
  rw [List.takeWhile_append_of_pos hall, List.dropWhile_append_of_pos hall, hnone.1, hnone.2,
    List.append_nil]
  exact ⟨rfl, rfl⟩

end Spans

def Word.isReadable (word : Word) : Bool :=
  match word.kind with
  | .identifier => isName word.text
  | .integer => !word.text.toList.isEmpty && word.text.toList.all Char.isDigit
  | .string => word.text.toList.all Lexeme.insideQuotes
  | .error | .endOfInput => false
  | kind => word.text = kind.spelling

/-- The word as the lexeme that starts with `c`, and how it is scanned where the separator stops
it. -/
structure Word.Scans (separator : Char) (word : Word) (c : Char) (more : List Char) : Prop where
  written : word.written = c :: more
  solid : Text.isBlank c = false
  slash : c = '/' → more = []
  read : ∀ rest, Stops separator rest →
    Lexeme.read c (more ++ rest) = (⟨word.kind, c :: more, word.text.toList⟩, rest)

section Words
variable {separator c : Char} {more : List Char} {kind : TokenKind} {text : String}

theorem read_word (hseparator : Text.isBlank separator = true) (hstart : Text.startsWord c = true)
    (hmore : more.all Text.continuesWord = true) {rest : List Char} (hrest : Stops separator rest) :
    Lexeme.read c (more ++ rest) =
      (⟨.ofWord (String.ofList (c :: more)), c :: more, c :: more⟩, rest) := by
  obtain ⟨htake, hdrop⟩ :=
    takeWhile_stops hmore (Text.continuesWord_of_isBlank hseparator) hrest
  have hquote : c ≠ '"' := by
    rintro rfl
    exact absurd hstart (by decide)
  unfold Lexeme.read Lexeme.word
  rw [if_neg hquote, if_pos hstart, htake, hdrop]

namespace Word

theorem scans_word (hseparator : Text.isBlank separator = true) (htext : text.toList = c :: more)
    (hstart : Text.startsWord c = true) (hmore : more.all Text.continuesWord = true)
    (hkind : TokenKind.ofWord text = kind) (hstring : kind ≠ .string) :
    Scans separator ⟨kind, text⟩ c more := by
  refine ⟨?_, Text.isBlank_of_startsWord hstart, ?_, fun rest hrest => ?_⟩
  · unfold written
    rw [if_neg hstring, htext]
  · rintro rfl
    exact absurd hstart (by decide)
  · rw [read_word hseparator hstart hmore hrest, ← htext, String.ofList_toList, hkind]

theorem scans_name (hseparator : Text.isBlank separator = true) (h : isName text = true) :
    ∃ c more, Scans separator (.name text) c more := by
  unfold isName at h
  split at h
  · cases h
  · next c more htext =>
    simp only [Bool.and_eq_true, decide_eq_true_eq] at h
    exact ⟨c, more, scans_word hseparator htext h.1.1 h.1.2 h.2 TokenKind.noConfusion⟩

theorem scans_integer (hseparator : Text.isBlank separator = true) (hne : text.toList ≠ [])
    (h : text.toList.all Char.isDigit = true) :
    ∃ c more, Scans separator ⟨.integer, text⟩ c more := by
  obtain ⟨c, more, htext⟩ := List.exists_cons_of_ne_nil hne
  rw [htext, List.all_cons, Bool.and_eq_true] at h
  obtain ⟨hblank, hstart, hquote, hslash⟩ := digit_alone h.1
  have hdigit : separator.isDigit = false := by
    rw [Bool.eq_false_iff]
    intro hdigit
    rw [(digit_alone hdigit).1] at hseparator
    cases hseparator
  refine ⟨c, more, htext, hblank, fun heq => absurd heq hslash, fun rest hrest => ?_⟩
  obtain ⟨htake, hdrop⟩ := takeWhile_stops h.2 hdigit hrest
  unfold Lexeme.read Lexeme.integer
  rw [if_neg hquote, hstart, h.1, htake, hdrop, htext]
  rfl

theorem scans_string (h : text.toList.all Lexeme.insideQuotes = true) :
    Scans separator ⟨.string, text⟩ '"' (text.toList ++ ['"']) := by
  refine ⟨rfl, by decide, fun heq => absurd heq (by decide), fun rest _ => ?_⟩
  have hall : ∀ c ∈ text.toList, Lexeme.insideQuotes c = true := List.all_eq_true.1 h
  have htake : (text.toList ++ '"' :: rest).takeWhile Lexeme.insideQuotes = text.toList := by
    rw [List.takeWhile_append_of_pos hall, List.takeWhile_cons_of_neg (by decide), List.append_nil]
  have hdrop : (text.toList ++ '"' :: rest).dropWhile Lexeme.insideQuotes = '"' :: rest := by
    rw [List.dropWhile_append_of_pos hall, List.dropWhile_cons_of_neg (by decide)]
  unfold Lexeme.read Lexeme.quoted
  rw [if_pos rfl, List.append_assoc, List.singleton_append]
  dsimp only
  rw [htake, hdrop]
  rfl

/-- An operator or a delimiter, or a character that is neither: what is read of it when nothing
follows is read when the separator follows. -/
theorem scans_sign (hseparator : Text.isBlank separator = true) (htext : text.toList = c :: more)
    (hsolid : Text.isBlank c = false) (hquote : c ≠ '"')
    (hstart : Text.startsWord c = false) (hdigit : c.isDigit = false)
    (hsign : (Lexeme.sign c more).1 = ⟨kind, c :: more, c :: more⟩) (hstring : kind ≠ .string) :
    Scans separator ⟨kind, text⟩ c more := by
  have hequals : separator ≠ '=' := by
    rintro rfl
    exact absurd hseparator (by decide)
  have hread (rest : List Char) : Lexeme.read c rest = Lexeme.sign c rest := by
    rw [Lexeme.read, if_neg hquote, hstart, hdigit]
    rfl
  have hwritten : written ⟨kind, text⟩ = c :: more := (if_neg hstring).trans htext
  unfold Lexeme.sign at hsign
  split at hsign
  · next both left hboth =>
    cases hsign
    refine ⟨hwritten, hsolid, ?_, fun rest _ => ?_⟩
    · rintro rfl
      cases hboth
    · rw [hread, htext]
      simp [Lexeme.sign, hboth]
  · cases hsign
    refine ⟨hwritten, hsolid, fun _ => rfl, fun rest hrest => ?_⟩
    rw [hread, htext, List.nil_append]
    unfold Lexeme.sign
    split
    · exact absurd (hrest '=' rfl) (Ne.symm hequals)
    · rfl

theorem exists_scans (hseparator : Text.isBlank separator = true) {word : Word}
    (h : word.isReadable = true) : ∃ c more, word.Scans separator c more := by
  obtain ⟨kind, text⟩ := word
  cases kind with
  | identifier => exact scans_name hseparator h
  | integer =>
    obtain ⟨hne, hdigits⟩ := Bool.and_eq_true_iff.1 h
    exact scans_integer hseparator (by simpa using hne) hdigits
  | string => exact ⟨_, _, scans_string h⟩
  | error | endOfInput => cases h
  | varWord | functionWord | ifWord | elseWord | forWord | inWord | printWord | returnWord
  | trueWord | falseWord | nullWord | notWord =>
    have htext := of_decide_eq_true h
    dsimp only at htext
    subst htext
    exact ⟨_, _, scans_word hseparator rfl (by decide) (by decide) (by decide)
      TokenKind.noConfusion⟩
  | _ =>
    have htext := of_decide_eq_true h
    dsimp only at htext
    subst htext
    exact ⟨_, _, scans_sign hseparator rfl (by decide) (by decide) (by decide) (by decide) rfl
      TokenKind.noConfusion⟩

def joined (separator : Char) (words : List Word) : List Char :=
  [separator].intercalate (words.map written)

theorem joined_cons {word next : Word} {rest : List Word} :
    joined separator (word :: next :: rest) =
      word.written ++ separator :: joined separator (next :: rest) := by
  unfold joined
  rw [List.map_cons, List.map_cons, List.intercalate_cons_cons, List.append_assoc]
  rfl

end Word
end Words

namespace Token
variable {separator : Char} {bound : Nat} {place : Place} {chars : List Char} {words : List Word}

theorem scanFrom_blank (hseparator : Text.isBlank separator = true) :
    scanFrom (bound + 1) place (separator :: chars) =
      scanFrom (bound + 1) (place.next separator) chars := by
  have hblank : Lexeme.spanTrivia false (separator :: chars) =
      (separator :: (Lexeme.spanTrivia false chars).1, (Lexeme.spanTrivia false chars).2) := by
    rw [Lexeme.spanTrivia, if_pos hseparator]
  unfold scanFrom
  rw [hblank]
  rfl

theorem scanFrom_word (hseparator : Text.isBlank separator = true) (bound : Nat) (place : Place)
    {word : Word} {c : Char} {more rest : List Char} (h : word.Scans separator c more)
    (hrest : Stops separator rest) :
    ∃ token next, token.word = word ∧
      scanFrom (bound + 1) place (word.written ++ rest) = token :: scanFrom bound next rest := by
  have htrivia : Lexeme.spanTrivia false (c :: (more ++ rest)) = ([], c :: (more ++ rest)) := by
    have hcomment : ¬(c = '/' && (more ++ rest).head? == some '/') = true := by
      intro hcomment
      obtain ⟨hslash, hhead⟩ := Bool.and_eq_true_iff.1 hcomment
      obtain rfl := h.slash (of_decide_eq_true hslash)
      obtain rfl := hrest '/' (Option.mem_def.2 (eq_of_beq hhead))
      exact absurd hseparator (by decide)
    rw [Lexeme.spanTrivia, if_neg (by rw [h.solid]; decide), if_neg hcomment]
  refine ⟨ofLexeme ⟨word.kind, c :: more, word.text.toList⟩ place,
    place.after (c :: more), ?_, ?_⟩
  · exact congrArg (Word.mk word.kind) String.ofList_toList
  · rw [h.written, List.cons_append, scanFrom, htrivia]
    dsimp only
    rw [h.read rest hrest]
    rfl

/-- Words with the separator between them are scanned one by one. -/
theorem scanFrom_joined (hseparator : Text.isBlank separator = true)
    (h : ∀ word ∈ words, ∃ c more, word.Scans separator c more) :
    ∀ (bound : Nat) (place : Place), words.length < bound → ∃ tokens stop,
      scanFrom bound place (Word.joined separator words) = tokens ++ [Token.endAt stop] ∧
      tokens.map Token.word = words := by
  induction words with
  | nil =>
    intro bound place hbound
    obtain ⟨bound, rfl⟩ := Nat.exists_eq_add_of_le' hbound
    exact ⟨[], place, rfl, rfl⟩
  | cons word rest ih =>
    intro bound place hbound
    rw [List.length_cons] at hbound
    obtain ⟨bound, rfl⟩ := Nat.exists_eq_add_of_le' (Nat.zero_lt_of_lt hbound)
    have hbound := Nat.lt_of_succ_lt_succ hbound
    obtain ⟨c, more, hword⟩ := h word List.mem_cons_self
    have hrest := ih fun word hmem => h word (List.mem_cons_of_mem _ hmem)
    cases rest with
    | nil =>
      obtain ⟨token, next, htoken, hscan⟩ :=
        scanFrom_word hseparator bound place hword stops_nil
      obtain ⟨tokens, stop, hall, hwords⟩ := hrest bound next hbound
      refine ⟨token :: tokens, stop, ?_, by rw [List.map_cons, htoken, hwords]⟩
      rw [List.append_nil] at hscan
      rw [Word.joined, List.map_singleton, List.intercalate_singleton, hscan]
      exact congrArg (List.cons token) hall
    | cons after others =>
      obtain ⟨token, next, htoken, hscan⟩ :=
        scanFrom_word hseparator bound place hword (stops_cons _)
      obtain ⟨bound, rfl⟩ := Nat.exists_eq_add_of_le' (Nat.zero_lt_of_lt hbound)
      obtain ⟨tokens, stop, hall, hwords⟩ := hrest (bound + 1) (next.next separator) hbound
      refine ⟨token :: tokens, stop, ?_, by rw [List.map_cons, htoken, hwords]⟩
      rw [Word.joined_cons, hscan]
      exact congrArg (List.cons token) ((scanFrom_blank hseparator).trans hall)

theorem length_le_joined (h : ∀ word ∈ words, ∃ c more, word.Scans separator c more) :
    words.length ≤ (Word.joined separator words).length := by
  induction words with
  | nil => exact Nat.zero_le _
  | cons word rest ih =>
    obtain ⟨c, more, hword⟩ := h word List.mem_cons_self
    have hrest := ih fun word hmem => h word (List.mem_cons_of_mem _ hmem)
    cases rest with
    | nil =>
      rw [Word.joined, List.map_singleton, List.intercalate_singleton, hword.written]
      exact Nat.le_add_left 1 _
    | cons after others =>
      rw [Word.joined_cons]
      simp only [List.length_cons, List.length_append] at hrest ⊢
      omega

theorem scan_joined (hseparator : Text.isBlank separator = true)
    (h : ∀ word ∈ words, ∃ c more, word.Scans separator c more) :
    ∃ tokens stop, scan (String.ofList (Word.joined separator words)) = tokens ++ [endAt stop] ∧
      tokens.map Token.word = words := by
  unfold scan
  rw [String.toList_ofList, String.length_ofList]
  exact scanFrom_joined hseparator h _ _ (Nat.lt_succ_of_le (length_le_joined h))

/-- Words with single spaces between them make a text of tokens that say them. -/
theorem scan_spaced (h : ∀ word ∈ words, word.isReadable = true) :
    ∃ tokens stop, scan (String.ofList (Word.spaced words)) = tokens ++ [stop] ∧
      stop.kind = .endOfInput ∧ tokens.map Token.word = words := by
  have hspace : Text.isBlank ' ' = true := by decide
  obtain ⟨tokens, stop, hscan, hwords⟩ :=
    scan_joined hspace fun word hmem => Word.exists_scans hspace (h word hmem)
  exact ⟨tokens, endAt stop, hscan, rfl, hwords⟩

end Token
end CatScript
