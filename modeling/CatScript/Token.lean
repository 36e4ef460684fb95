import CatScript.Span

/-! # Tokens

The kinds of token of the language and the tokens themselves. -/
set_option autoImplicit false
namespace CatScript

/-- What a token is.  `error` is a character that starts no token, or a text without its closing
quote; `notWord` is the word `not` or the sign `!`. -/
inductive TokenKind where
  | identifier | integer | string
  | varWord | functionWord | ifWord | elseWord | forWord | inWord | printWord | returnWord
  | trueWord | falseWord | nullWord | notWord
  | plus | minus | star | slash | equal | equalEqual | bangEqual
  | less | lessEqual | greater | greaterEqual
  | colon | comma | leftParen | rightParen | leftBracket | rightBracket | leftBrace | rightBrace
  | error | endOfInput
deriving DecidableEq, Inhabited

def TokenKind.keywords : List (String × TokenKind) := [
  ("var", .varWord), ("function", .functionWord), ("if", .ifWord), ("else", .elseWord),
  ("for", .forWord), ("in", .inWord), ("print", .printWord), ("return", .returnWord),
  ("true", .trueWord), ("false", .falseWord), ("null", .nullWord), ("not", .notWord)]

def TokenKind.ofWord (text : String) : TokenKind :=
  (keywords.lookup text).getD .identifier

/-- A token: its kind, what it says and where it stands.  The text of a `string` token leaves out
the quotes. -/
structure Token where
  kind : TokenKind
  text : String
  span : Span
deriving DecidableEq, Inhabited

end CatScript
