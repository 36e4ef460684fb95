import CatScript.Token

/-! # Cursors

A cursor is a position in a list of tokens that ends with the end of the input.  Moving on from the
last token stays on it.  `all_next` says that moving keeps the list. -/
set_option autoImplicit false
namespace CatScript

/-- A list of tokens with one of them in focus; `passed` holds the ones before it, the latest
first. -/
structure Cursor where
  passed : List Token
  current : Token
  ahead : List Token
deriving DecidableEq

namespace Cursor

/-- The token that closes a list of tokens without an end of its own. -/
def closing (stop : Nat) : Token :=
  ⟨.endOfInput, "", ⟨stop, stop, 0, 0⟩⟩

def terminated (tokens : List Token) : List Token :=
  match tokens.getLast? with
  | none => [closing 0]
  | some last => if last.kind = .endOfInput then tokens else tokens ++ [closing last.span.stop]

def ofTokens (tokens : List Token) : Cursor :=
  match terminated tokens with
  | [] => ⟨[], closing 0, []⟩
  | first :: rest => ⟨[], first, rest⟩

def all (cursor : Cursor) : List Token :=
  cursor.passed.reverse ++ cursor.current :: cursor.ahead

def next (cursor : Cursor) : Cursor :=
  match cursor.ahead with
  | [] => cursor
  | token :: rest => ⟨cursor.current :: cursor.passed, token, rest⟩

/-- The token before the one in focus, or that one itself at the front. -/
def last (cursor : Cursor) : Token :=
  cursor.passed.head?.getD cursor.current

def reset (cursor : Cursor) : Cursor :=
  match cursor.all with
  | [] => cursor
  | first :: rest => ⟨[], first, rest⟩

def hasMore (cursor : Cursor) : Bool :=
  cursor.current.kind != .endOfInput

def position (cursor : Cursor) : Nat :=
  cursor.passed.length

def remaining (cursor : Cursor) : Nat :=
  cursor.ahead.length

theorem all_next (cursor : Cursor) : cursor.next.all = cursor.all := by
  unfold next
  split <;> simp [all, *]

theorem terminated_ne_nil (tokens : List Token) : terminated tokens ≠ [] := by
  unfold terminated
  split
  · simp
  · rename_i last h
    split
    · intro hnil; simp [hnil] at h
    · simp

theorem all_ofTokens (tokens : List Token) : (ofTokens tokens).all = terminated tokens := by
  unfold ofTokens
  split
  · rename_i h; exact absurd h (terminated_ne_nil tokens)
  · rename_i h; rw [h]; rfl

end Cursor
end CatScript
