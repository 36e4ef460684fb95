import CatScript.Token
import CatScript.Text.Blank
import CatScript.Text.Letter

/-! # Lexemes

A lexeme is the longest token at the front of a text.  `Lexeme.read_append` says that reading one
splits the text in two: what the lexeme covers and what is left. -/
set_option autoImplicit false
namespace CatScript

/-- A token without its place: its kind, the characters of the source it covers and what it says. -/
structure Lexeme where
  kind : TokenKind
  covered : List Char
  text : List Char
deriving DecidableEq

namespace Lexeme

/-- Splits off the white space and the comments at the front; `comment` tells whether the text
starts inside a comment.  A comment runs to the end of its line. -/
def spanTrivia : Bool → List Char → List Char × List Char
  | _, [] => ([], [])
  | true, c :: rest =>
    let (skipped, left) := spanTrivia (c != '\n') rest
    (c :: skipped, left)
  | false, c :: rest =>
    if Text.isBlank c then
      let (skipped, left) := spanTrivia false rest
      (c :: skipped, left)
    else if c = '/' && rest.head? == some '/' then
      let (skipped, left) := spanTrivia true rest
      (c :: skipped, left)
    else ([], c :: rest)

theorem spanTrivia_append (comment : Bool) (chars : List Char) :
    (spanTrivia comment chars).1 ++ (spanTrivia comment chars).2 = chars := by
  fun_induction spanTrivia comment chars <;> simp_all

def word (c : Char) (rest : List Char) : Lexeme × List Char :=
  let covered := c :: rest.takeWhile Text.continuesWord
  (⟨.ofWord (String.ofList covered), covered, covered⟩, rest.dropWhile Text.continuesWord)

def integer (c : Char) (rest : List Char) : Lexeme × List Char :=
  let covered := c :: rest.takeWhile Char.isDigit
  (⟨.integer, covered, covered⟩, rest.dropWhile Char.isDigit)

def insideQuotes (c : Char) : Bool :=
  c != '"' && c != '\n'

/-- A text literal whose opening quote is already taken.  There are no escapes; a literal that is
not closed on its line is an error that ends with the line. -/
def quoted (rest : List Char) : Lexeme × List Char :=
  let inside := rest.takeWhile insideQuotes
  match rest.dropWhile insideQuotes with
  | '"' :: left => (⟨.string, '"' :: inside ++ ['"'], inside⟩, left)
  | left => (⟨.error, '"' :: inside, '"' :: inside⟩, left)

/-- The kind of the sign `c` when it is not followed by an equals sign. -/
def signKind (c : Char) : TokenKind :=
  match c with
  | '+' => .plus
  | '-' => .minus
  | '*' => .star
  | '/' => .slash
  | ':' => .colon
  | ',' => .comma
  | '(' => .leftParen
  | ')' => .rightParen
  | '[' => .leftBracket
  | ']' => .rightBracket
  | '\x7b' => .leftBrace
  | '\x7d' => .rightBrace
  | '=' => .equal
  | '!' => .notWord
  | '<' => .less
  | '>' => .greater
  | _ => .error

/-- The kind of the sign `c` and an equals sign together, if they are one token. -/
def signEqualKind? (c : Char) : Option TokenKind :=
  match c with
  | '=' => some .equalEqual
  | '!' => some .bangEqual
  | '<' => some .lessEqual
  | '>' => some .greaterEqual
  | _ => none

/-- An operator or a delimiter, or the error of a character that is neither. -/
def sign (c : Char) (rest : List Char) : Lexeme × List Char :=
  match signEqualKind? c, rest with
  | some kind, '=' :: left => (⟨kind, [c, '='], [c, '=']⟩, left)
  | _, left => (⟨signKind c, [c], [c]⟩, left)

/-- The longest lexeme at the front of `c :: rest`, and what is left after it. -/
def read (c : Char) (rest : List Char) : Lexeme × List Char :=
  if c = '"' then quoted rest
  else if Text.startsWord c then word c rest
  else if c.isDigit then integer c rest
  else sign c rest

theorem quoted_append (rest : List Char) :
    (quoted rest).1.covered ++ (quoted rest).2 = '"' :: rest := by
  have whole := List.takeWhile_append_dropWhile (p := insideQuotes) (l := rest)
  unfold quoted
  split
  · rename_i left h
    rw [h] at whole
    simp only [List.cons_append, List.append_assoc, List.nil_append]
    rw [whole]
  · simp only [List.cons_append]
    rw [whole]

theorem sign_append (c : Char) (rest : List Char) :
    (sign c rest).1.covered ++ (sign c rest).2 = c :: rest := by
  unfold sign
  split <;> rfl

theorem read_append (c : Char) (rest : List Char) :
    (read c rest).1.covered ++ (read c rest).2 = c :: rest := by
  unfold read
  split
  · rename_i h; rw [quoted_append, h]
  · split
    · simp [word]
    · split
      · simp [integer]
      · exact sign_append c rest

theorem read_covered_ne_nil (c : Char) (rest : List Char) : (read c rest).1.covered ≠ [] := by
  unfold read
  split
  · unfold quoted; split <;> simp
  · split
    · simp [word]
    · split
      · simp [integer]
      · unfold sign; split <;> simp

theorem length_read_le (c : Char) (rest : List Char) : (read c rest).2.length ≤ rest.length := by
  have whole := congrArg List.length (read_append c rest)
  have covered : 0 < (read c rest).1.covered.length :=
    List.length_pos_iff.2 (read_covered_ne_nil c rest)
  simp only [List.length_append, List.length_cons] at whole
  omega

end Lexeme
end CatScript
