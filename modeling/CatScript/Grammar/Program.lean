import CatScript.Grammar.Statement
import CatScript.Token.Stream

/-! # Reading programs

A text is one expression if an expression takes it up whole, and otherwise a list of statements. -/
set_option autoImplicit false
namespace CatScript.Grammar
open Reader

/-- The mark of a program that starts at `start`: it runs to the token in focus. -/
def programMark (start : Span) : Reader Mark := do
  return ⟨start.through (← current).span, []⟩

def statementProgram : Reader (Program Mark) := do
  let start := (← current).span
  let body ← statements
  return .statements (← programMark start) body

/-- Reads one expression as a program, and leaves what follows it unread. -/
def expressionProgram : Reader (Program Mark) := do
  let start := (← current).span
  let body ← expression
  return .expression (← programMark start) body

/-- Reads a program: one expression if nothing is left after it, else statements from the start. -/
def program : Reader (Program Mark) := do
  let start ← get
  if start.hasMore then
    let read ← expressionProgram
    if (← get).hasMore then
      set start
      statementProgram
    else return read
  else statementProgram

def parse (source : String) : Program Mark :=
  (program.run (Cursor.ofTokens (Token.scan source))).1

def parseExpression (source : String) : Program Mark :=
  (expressionProgram.run (Cursor.ofTokens (Token.scan source))).1

end CatScript.Grammar
