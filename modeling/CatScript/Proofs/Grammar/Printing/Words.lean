import CatScript.Proofs.Grammar.Complete.Program
import CatScript.Text.Decimal

/-! # Trees as text

`Program.text` writes a tree down as words with single spaces between them.  An `if` alone after an
`else` may stand there with braces around it or, when it is `chained`, without them; then the block
does not count as a level either. -/
set_option autoImplicit false
namespace CatScript

variable {α β : Type}

/-- A word of a text: what a token says, wherever it stands. -/
structure Word where
  kind : TokenKind
  text : String
deriving DecidableEq

def Token.word (token : Token) : Word :=
  ⟨token.kind, token.text⟩

/-- The text of all tokens of a kind that has but one. -/
def TokenKind.spelling : TokenKind → String
  | .varWord => "var" | .functionWord => "function" | .ifWord => "if" | .elseWord => "else"
  | .forWord => "for" | .inWord => "in" | .printWord => "print" | .returnWord => "return"
  | .trueWord => "true" | .falseWord => "false" | .nullWord => "null" | .notWord => "not"
  | .plus => "+" | .minus => "-" | .star => "*" | .slash => "/" | .equal => "="
  | .equalEqual => "==" | .bangEqual => "!=" | .less => "<" | .lessEqual => "<=" | .greater => ">"
  | .greaterEqual => ">=" | .colon => ":" | .comma => "," | .leftParen => "(" | .rightParen => ")"
  | .leftBracket => "[" | .rightBracket => "]" | .leftBrace => "\x7b" | .rightBrace => "\x7d"
  | .identifier | .integer | .string | .error | .endOfInput => ""

theorem decimal_toList {value : Int64} (h : 0 ≤ value) :
    ∃ n : Nat, value.toInt = n ∧ (Text.decimal value).toList = Nat.toDigits 10 n := by
  have hle : 0 ≤ value.toInt := by
    simpa using Int64.le_iff_toInt_le.1 h
  obtain ⟨n, hn⟩ := Int.eq_ofNat_of_zero_le hle
  refine ⟨n, hn, ?_⟩
  unfold Text.decimal
  rw [hn]
  exact String.toList_ofList

namespace Word

def fixed (kind : TokenKind) : Word :=
  ⟨kind, kind.spelling⟩

def name (name : String) : Word :=
  ⟨.identifier, name⟩

/-- The characters of a word in a text: a string stands in quotes. -/
def written (word : Word) : List Char :=
  if word.kind = .string then '"' :: (word.text.toList ++ ['"']) else word.text.toList

def spaced (words : List Word) : List Char :=
  [' '].intercalate (words.map written)

end Word

def Ty.words : Ty → List Word
  | .list component => .name "list" :: .fixed .less :: (component.words ++ [.fixed .greater])
  | ty => [.name ty.name]

def annotated : Option Ty → List Word
  | none => []
  | some ty => .fixed .colon :: ty.words

def Parameter.words (param : Parameter) : List Word :=
  .name param.name :: annotated (some param.ty)

def listed (words : β → List Word) : List β → List Word
  | [] => []
  | b :: rest => words b ++ if rest.isEmpty then [] else .fixed .comma :: listed words rest

mutual

def Expr.words : Expr α → List Word
  | .identifier _ name => [.name name]
  | .integer _ value => [⟨.integer, Text.decimal value⟩]
  | .string _ text => [⟨.string, text⟩]
  | .boolean _ value => [.fixed (if value then .trueWord else .falseWord)]
  | .null _ => [.fixed .nullWord]
  | .list _ items => .fixed .leftBracket :: (Expr.wordsAll items ++ [.fixed .rightBracket])
  | .parenthesized _ inner => .fixed .leftParen :: (inner.words ++ [.fixed .rightParen])
  | .unary _ op operand => .fixed op.kind :: operand.words
  | .binary _ op left right => left.words ++ .fixed op.kind :: right.words
  | .comparison _ op left right => left.words ++ .fixed op.kind :: right.words
  | .equality _ op left right => left.words ++ .fixed op.kind :: right.words
  | .call _ name args =>
    .name name :: .fixed .leftParen :: (Expr.wordsAll args ++ [.fixed .rightParen])
  | .broken _ text => [⟨.error, text⟩]

def Expr.wordsAll : List (Expr α) → List Word
  | [] => []
  | e :: rest => e.words ++ if rest.isEmpty then [] else .fixed .comma :: Expr.wordsAll rest

end

/-- Whether the only statement is an `if`. -/
def isLoneIf : List (Stmt α) → Bool
  | [s] => s.startKind = .ifWord
  | _ => false

def braced (words : List Word) : List Word :=
  .fixed .leftBrace :: (words ++ [.fixed .rightBrace])

mutual

def Stmt.words (chained : Bool) : Stmt α → List Word
  | .declaration _ name ty? value =>
    .fixed .varWord :: .name name :: (annotated ty? ++ .fixed .equal :: value.words)
  | .assignment _ name value => .name name :: .fixed .equal :: value.words
  | .function _ name params returns body =>
    .fixed .functionWord :: .name name :: .fixed .leftParen :: (listed Parameter.words params ++
      .fixed .rightParen :: (annotated (if returns = .void then none else some returns) ++
        braced (Stmt.wordsAll chained body)))
  | .ifThen _ condition thenBody =>
    .fixed .ifWord :: .fixed .leftParen :: (condition.words ++ .fixed .rightParen ::
      braced (Stmt.wordsAll chained thenBody))
  | .ifThenElse _ condition thenBody elseBody =>
    .fixed .ifWord :: .fixed .leftParen :: (condition.words ++ .fixed .rightParen ::
      (braced (Stmt.wordsAll chained thenBody) ++ .fixed .elseWord ::
        if chained && isLoneIf elseBody then Stmt.wordsAll chained elseBody
        else braced (Stmt.wordsAll chained elseBody)))
  | .loop _ name iterable body =>
    .fixed .forWord :: .fixed .leftParen :: .name name :: .fixed .inWord :: (iterable.words ++
      .fixed .rightParen :: braced (Stmt.wordsAll chained body))
  | .print _ value =>
    .fixed .printWord :: .fixed .leftParen :: (value.words ++ [.fixed .rightParen])
  | .call _ value | .bare value => value.words
  | .returning _ none => [.fixed .returnWord]
  | .returning _ (some value) => .fixed .returnWord :: value.words
  | .broken _ text => [⟨.error, text⟩]

def Stmt.wordsAll (chained : Bool) : List (Stmt α) → List Word
  | [] => []
  | s :: rest => s.words chained ++ Stmt.wordsAll chained rest

end

def Program.words (chained : Bool) : Program α → List Word
  | .expression _ body => body.words
  | .statements _ body => Stmt.wordsAll chained body

def Program.text (chained : Bool) (p : Program α) : String :=
  String.ofList (Word.spaced (p.words chained))

section Nesting

mutual

/-- How many levels there are inside an expression: one for each item, argument, parenthesis and
operand of a prefix operator, and one for the right side of an equality. -/
def Expr.nesting : Expr α → Nat
  | .identifier .. | .integer .. | .string .. | .boolean .. | .null _ | .broken .. => 0
  | .list _ items => Expr.nestingAll items
  | .parenthesized _ inner => inner.nesting + 1
  | .unary _ _ operand => operand.nesting + 1
  | .binary _ _ left right | .comparison _ _ left right => max left.nesting right.nesting
  | .equality _ _ left right => max left.nesting (right.nesting + 1)
  | .call _ _ args => Expr.nestingAll args

/-- How many levels there are for expressions, each of them one level deeper. -/
def Expr.nestingAll : List (Expr α) → Nat
  | [] => 0
  | e :: rest => max (e.nesting + 1) (Expr.nestingAll rest)

end

mutual

/-- How many levels there are inside a statement: one for each condition or value and one for each
block. -/
def Stmt.nesting (chained : Bool) : Stmt α → Nat
  | .declaration _ _ _ value | .assignment _ _ value | .print _ value
  | .returning _ (some value) => value.nesting + 1
  | .function _ _ _ _ body => Stmt.nestingAll chained body + 1
  | .ifThen _ condition thenBody =>
    max (condition.nesting + 1) (Stmt.nestingAll chained thenBody + 1)
  | .ifThenElse _ condition thenBody elseBody =>
    max (max (condition.nesting + 1) (Stmt.nestingAll chained thenBody + 1))
      (if chained && isLoneIf elseBody then Stmt.nestingAll chained elseBody
        else Stmt.nestingAll chained elseBody + 1)
  | .loop _ _ iterable body => max (iterable.nesting + 1) (Stmt.nestingAll chained body + 1)
  | .call _ value | .bare value => value.nesting
  | .returning _ none | .broken .. => 0

def Stmt.nestingAll (chained : Bool) : List (Stmt α) → Nat
  | [] => 0
  | s :: rest => max (s.nesting chained) (Stmt.nestingAll chained rest)

end

/-- How many levels there are in a program: an expression is one level itself. -/
def Program.nesting (chained : Bool) : Program α → Nat
  | .expression _ body => body.nesting + 1
  | .statements _ body => Stmt.nestingAll chained body

end Nesting

section Writable

def isName (text : String) : Bool :=
  match text.toList with
  | [] => false
  | c :: rest =>
    Text.startsWord c && rest.all Text.continuesWord && TokenKind.ofWord text = .identifier

def Ty.isNamed : Ty → Bool
  | .int | .string | .boolean | .object => true
  | .void | .null => false
  | .list component => component.isNamed

def Expr.isCall : Expr α → Bool
  | .call .. => true
  | _ => false

mutual

/-- Whether the expression can be written: its names are names, its strings can stand in quotes and
its integers are not negative. -/
def Expr.isWritable : Expr α → Bool
  | .identifier _ name => isName name
  | .integer _ value => 0 ≤ value
  | .string _ text => text.toList.all Lexeme.insideQuotes
  | .boolean .. | .null _ => true
  | .list _ items => Expr.areWritable items
  | .parenthesized _ inner => inner.isWritable
  | .unary _ _ operand => operand.isWritable
  | .binary _ _ left right | .comparison _ _ left right | .equality _ _ left right =>
    left.isWritable && right.isWritable
  | .call _ name args => isName name && Expr.areWritable args
  | .broken .. => false

def Expr.areWritable : List (Expr α) → Bool
  | [] => true
  | e :: rest => e.isWritable && Expr.areWritable rest

end

mutual

/-- Whether the statement can be written, inside a function or not: a `return` only inside. -/
def Stmt.isWritable (inFunction : Bool) : Stmt α → Bool
  | .declaration _ name ty? value => isName name && ty?.all Ty.isNamed && value.isWritable
  | .assignment _ name value => isName name && value.isWritable
  | .function _ name params returns body =>
    isName name && params.all (fun param => isName param.name && param.ty.isNamed) &&
      (returns = .void || returns.isNamed) && Stmt.areWritable true body
  | .ifThen _ condition thenBody => condition.isWritable && Stmt.areWritable inFunction thenBody
  | .ifThenElse _ condition thenBody elseBody =>
    condition.isWritable && Stmt.areWritable inFunction thenBody &&
      Stmt.areWritable inFunction elseBody
  | .loop _ name iterable body =>
    isName name && iterable.isWritable && Stmt.areWritable inFunction body
  | .print _ value => value.isWritable
  | .call _ value => value.isCall && value.isWritable
  | .returning _ none => inFunction
  | .returning _ (some value) => inFunction && value.isWritable
  | .broken .. | .bare _ => false

def Stmt.areWritable (inFunction : Bool) : List (Stmt α) → Bool
  | [] => true
  | s :: rest => s.isWritable inFunction && Stmt.areWritable inFunction rest

end

def Program.isWritable : Program α → Bool
  | .expression _ body => body.isWritable
  | .statements _ body => Stmt.areWritable false body

end Writable
end CatScript
