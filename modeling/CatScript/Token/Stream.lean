import CatScript.Token.Lexeme

/-! # From text to tokens

Scanning a text gives its tokens in order, each with the place where it stands, and one token for
the end of the input.  Scanning never fails: what starts no token becomes an `error` token. -/
set_option autoImplicit false
namespace CatScript

/-- A place in the source: the byte offset, the line from one and the column from zero. -/
structure Place where
  offset : Nat
  line : Nat
  column : Nat
deriving DecidableEq

namespace Place

def origin : Place := ⟨0, 1, 0⟩

def next (place : Place) (c : Char) : Place :=
  if c = '\n' then ⟨place.offset + c.utf8Size, place.line + 1, 0⟩
  else ⟨place.offset + c.utf8Size, place.line, place.column + 1⟩

def after (place : Place) (chars : List Char) : Place :=
  chars.foldl next place

theorem after_append (place : Place) (a b : List Char) :
    place.after (a ++ b) = (place.after a).after b :=
  List.foldl_append ..

def span (start stop : Place) : Span :=
  ⟨start.offset, stop.offset, start.line, start.column⟩

end Place

namespace Token

def endAt (place : Place) : Token :=
  ⟨.endOfInput, "", place.span place⟩

def ofLexeme (lexeme : Lexeme) (start : Place) : Token :=
  ⟨lexeme.kind, String.ofList lexeme.text, start.span (start.after lexeme.covered)⟩

/-- The tokens of `chars`, which start at `place`, when there are fewer than `bound` of them before
the end. -/
def scanFrom : Nat → Place → List Char → List Token
  | 0, place, _ => [endAt place]
  | bound + 1, place, chars =>
    let (skipped, rest) := Lexeme.spanTrivia false chars
    let start := place.after skipped
    match rest with
    | [] => [endAt start]
    | c :: more =>
      let (lexeme, left) := Lexeme.read c more
      ofLexeme lexeme start :: scanFrom bound (start.after lexeme.covered) left

/-- The tokens of a text, up to and including the end of the input. -/
def scan (source : String) : List Token :=
  scanFrom (source.length + 1) .origin source.toList

end Token
end CatScript
