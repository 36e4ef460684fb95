import CatScript.Grammar.Expression

/-! # Reading statements

A statement starts with a keyword or a name.  A block is one nesting level deeper than the statement
it belongs to; when no level is left it is reported and left unread.  `return` starts a statement
only inside a function. -/
set_option autoImplicit false
namespace CatScript.Grammar
open Reader

/-- How statements and expressions may nest: this many levels, counted together. -/
def maxNesting : Nat := 128

/-- A reader of blocks, and the reports that belong to the statement around the block. -/
abbrev BlockReader := Reader (List (Stmt Mark) × List Diagnostic)

def strayStatement : Reader (Stmt Mark) := do
  let token ← take
  return .broken ⟨token.span, [unexpected token]⟩ token.text

def declaration (nested : Nested) : Reader (Stmt Mark) := do
  let start ← take
  let (name, noName) ← require .identifier
  let (ty?, badType) ← typeAfterColon?
  let (_, noEqual) ← require .equal
  let value ← nested.expression
  return .declaration ⟨← spanFrom start.span, noName ++ badType ++ noEqual⟩ name.text ty? value

/-- Reads a statement that starts with a name: an assignment or a call. -/
def named (nested : Nested) : Reader (Stmt Mark) := do
  let name ← take
  if ← accept .equal then
    let value ← nested.expression
    return .assignment ⟨← spanFrom name.span, []⟩ name.text value
  else
    let value ← call nested name
    return .call ⟨value.span, []⟩ value

/-- Reads a parameter; without an annotation it is an `object`. -/
def parameter : Reader (Parameter × List Diagnostic) := do
  let (name, noName) ← require .identifier
  let (ty?, badType) ← typeAfterColon?
  return (⟨name.text, ty?.getD .object⟩, noName ++ badType)

def parameters : Reader (List Parameter × List Diagnostic) := do
  if (← peek) = .rightParen then return ([], [])
  let read ← separated parameter (← remaining)
  return (read.map Prod.fst, read.flatMap Prod.snd)

/-- Reads a function.  Without an annotation it returns nothing. -/
def function (block : BlockReader) : Reader (Stmt Mark) := do
  let start ← take
  let (name, noName) ← require .identifier
  let (_, noOpening) ← require .leftParen
  let (params, badParams) ← parameters
  let (_, noClosing) ← require .rightParen
  let (ty?, badType) ← typeAfterColon?
  let (body, badBody) ← block
  return .function
    ⟨← spanFrom start.span, noName ++ noOpening ++ badParams ++ noClosing ++ badType ++ badBody⟩
    name.text params (ty?.getD .void) body

/-- Reads `if (condition) block`, and an `else` with a block or with another `if`, which `elseIf`
reads. -/
def conditionalWith (nested : Nested) (block : BlockReader) (elseIf : Reader (Stmt Mark)) :
    Reader (Stmt Mark) := do
  let start ← take
  let (_, noOpening) ← require .leftParen
  let condition ← nested.expression
  let (_, noClosing) ← require .rightParen
  let (thenBody, badThen) ← block
  let errors := noOpening ++ noClosing ++ badThen
  if ← accept .elseWord then
    let (elseBody, badElse) ← if (← peek) = .ifWord then do pure ([← elseIf], [])
      else block
    return .ifThenElse ⟨← spanFrom start.span, errors ++ badElse⟩ condition thenBody elseBody
  else return .ifThen ⟨← spanFrom start.span, errors⟩ condition thenBody

/-- Reads an `if` with at most `bound` others after its `else`s. -/
def conditional (nested : Nested) (block : BlockReader) : (bound : Nat) → Reader (Stmt Mark)
  | 0 => conditionalWith nested block strayStatement
  | bound + 1 => conditionalWith nested block (conditional nested block bound)

def loop (nested : Nested) (block : BlockReader) : Reader (Stmt Mark) := do
  let start ← take
  let (_, noOpening) ← require .leftParen
  let (name, noName) ← require .identifier
  let (_, noIn) ← require .inWord
  let iterable ← nested.expression
  let (_, noClosing) ← require .rightParen
  let (body, badBody) ← block
  return .loop
    ⟨← spanFrom start.span, noOpening ++ noName ++ noIn ++ noClosing ++ badBody⟩
    name.text iterable body

def print (nested : Nested) : Reader (Stmt Mark) := do
  let start ← take
  let (_, noOpening) ← require .leftParen
  let value ← nested.expression
  let (_, noClosing) ← require .rightParen
  return .print ⟨← spanFrom start.span, noOpening ++ noClosing⟩ value

/-- Whether a `return` has no value when a token of this kind follows it. -/
def endsReturn : TokenKind → Bool
  | .rightBrace | .endOfInput | .varWord | .functionWord | .ifWord | .forWord | .printWord
  | .returnWord => true
  | _ => false

def returning (nested : Nested) : Reader (Stmt Mark) := do
  let start ← take
  let value ← if endsReturn (← peek) then pure none else some <$> nested.expression
  return .returning ⟨← spanFrom start.span, []⟩ value

/-- Reads one statement.  `block inFunction` reads a block, inside a function or not. -/
def statementWith (nested : Nested) (block : Bool → BlockReader) (inFunction : Bool) :
    Reader (Stmt Mark) := do
  match ← peek with
  | .varWord => declaration nested
  | .functionWord => function (block true)
  | .ifWord => conditional nested (block inFunction) (← remaining)
  | .forWord => loop nested (block inFunction)
  | .printWord => print nested
  | .identifier => named nested
  | .returnWord => if inFunction then returning nested else strayStatement
  | _ => strayStatement

def endsBlock (kind : TokenKind) : Bool :=
  kind = .rightBrace || kind = .endOfInput

/-- Reads a block when `room` levels are left. -/
def block : (room : Nat) → (inFunction : Bool) → BlockReader
  | 0, _ => do return ([], [unexpected (← current)])
  | room + 1, inFunction => do
    let (_, noOpening) ← require .leftBrace
    let body ← repeated endsBlock (statementWith (Nested.ofRoom room) (block room) inFunction)
      (← remaining)
    let (_, noClosing) ← require .rightBrace
    return (body, noOpening ++ noClosing)

def statement (room : Nat) (inFunction : Bool) : Reader (Stmt Mark) :=
  statementWith (Nested.ofRoom room) (block room) inFunction

def expression : Reader (Expr Mark) :=
  (Nested.ofRoom maxNesting).expression

def statements : Reader (List (Stmt Mark)) := do
  repeated (· = .endOfInput) (statement maxNesting false) (← remaining)

end CatScript.Grammar
