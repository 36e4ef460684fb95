import CatScript.Token.Cursor
import CatScript.Tree.Basic

/-! # Readers

A reader moves a cursor over tokens and gives what it has read.  Readers never fail: what is missing
is reported as a diagnostic and reading goes on. -/
set_option autoImplicit false
namespace CatScript

/-- A step of reading: from a cursor to a result and the cursor after it. -/
abbrev Reader (β : Type) := StateM Cursor β

namespace Reader

def current : Reader Token := do
  return (← get).current

def peek : Reader TokenKind := do
  return (← get).current.kind

def take : Reader Token :=
  modifyGet fun cursor => (cursor.current, cursor.next)

/-- Takes the token in focus if it is of the given kind, and tells whether it was. -/
def accept (kind : TokenKind) : Reader Bool :=
  modifyGet fun cursor =>
    if cursor.current.kind = kind then (true, cursor.next) else (false, cursor)

def unexpected (token : Token) : Diagnostic :=
  ⟨.unexpectedToken, token.span⟩

/-- Takes the token in focus if it is of the given kind; otherwise reports it and leaves it there.
The token is given in both cases. -/
def require (kind : TokenKind) : Reader (Token × List Diagnostic) :=
  modifyGet fun cursor =>
    if cursor.current.kind = kind then ((cursor.current, []), cursor.next)
    else ((cursor.current, [unexpected cursor.current]), cursor)

def spanFrom (start : Span) : Reader Span := do
  return start.through (← get).last.span

/-- How many tokens follow the one in focus: a bound for everything that takes one in each round. -/
def remaining : Reader Nat := do
  return (← get).remaining

/-- One `item`, and another after each comma; `bound` limits the commas. -/
def separated {β : Type} (item : Reader β) : (bound : Nat) → Reader (List β)
  | 0 => do return [← item]
  | bound + 1 => do
    let first ← item
    if ← accept .comma then return first :: (← separated item bound)
    else return [first]

/-- What `item` reads, again and again until the token in focus is one to stop at; `bound` limits
the rounds. -/
def repeated {β : Type} (stop : TokenKind → Bool) (item : Reader β) :
    (bound : Nat) → Reader (List β)
  | 0 => pure []
  | bound + 1 => do
    if stop (← peek) then return []
    let first ← item
    return first :: (← repeated stop item bound)

end Reader
end CatScript
