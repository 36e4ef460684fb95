import CatScript.Ty
import CatScript.Diagnostic

/-! # Trees

The expressions, statements and programs of the language.  Every node carries a mark of type `α`:
where it stands and what is wrong with it, or what is known of it later. -/
set_option autoImplicit false
namespace CatScript

inductive UnaryOp where
  | negate | not
deriving DecidableEq

/-- An operator on two integers; `add` also joins texts. -/
inductive BinaryOp where
  | add | sub | mul | div
deriving DecidableEq

inductive ComparisonOp where
  | less | lessEqual | greater | greaterEqual
deriving DecidableEq

inductive EqualityOp where
  | equal | notEqual
deriving DecidableEq

/-- An expression.  `broken` stands for a piece of input that is no expression, which it quotes. -/
inductive Expr (α : Type) where
  | identifier (mark : α) (name : String)
  | integer (mark : α) (value : Int64)
  | string (mark : α) (text : String)
  | boolean (mark : α) (value : Bool)
  | null (mark : α)
  | list (mark : α) (items : List (Expr α))
  | parenthesized (mark : α) (inner : Expr α)
  | unary (mark : α) (op : UnaryOp) (operand : Expr α)
  | binary (mark : α) (op : BinaryOp) (left right : Expr α)
  | comparison (mark : α) (op : ComparisonOp) (left right : Expr α)
  | equality (mark : α) (op : EqualityOp) (left right : Expr α)
  | call (mark : α) (name : String) (args : List (Expr α))
  | broken (mark : α) (text : String)

structure Parameter where
  name : String
  ty : Ty
deriving DecidableEq

/-- A statement.  `broken` stands for a piece of input that starts no statement; `bare` is an
expression that stands where a statement belongs, which no source text produces. -/
inductive Stmt (α : Type) where
  | declaration (mark : α) (name : String) (ty? : Option Ty) (value : Expr α)
  | assignment (mark : α) (name : String) (value : Expr α)
  | function (mark : α) (name : String) (params : List Parameter) (returns : Ty)
      (body : List (Stmt α))
  | ifThen (mark : α) (condition : Expr α) (thenBody : List (Stmt α))
  | ifThenElse (mark : α) (condition : Expr α) (thenBody elseBody : List (Stmt α))
  | loop (mark : α) (name : String) (iterable : Expr α) (body : List (Stmt α))
  | print (mark : α) (value : Expr α)
  | call (mark : α) (value : Expr α)
  | returning (mark : α) (value : Option (Expr α))
  | broken (mark : α) (text : String)
  | bare (value : Expr α)

/-- A program: one expression, whose value it prints, or a list of statements. -/
inductive Program (α : Type) where
  | expression (mark : α) (body : Expr α)
  | statements (mark : α) (body : List (Stmt α))

variable {α : Type}

def Expr.mark : Expr α → α
  | identifier mark _ | integer mark _ | string mark _ | boolean mark _ | null mark
  | list mark _ | parenthesized mark _ | unary mark _ _ | binary mark _ _ _
  | comparison mark _ _ _ | equality mark _ _ _ | call mark _ _ | broken mark _ => mark

def Stmt.mark : Stmt α → α
  | declaration mark _ _ _ | assignment mark _ _ | function mark _ _ _ _ | ifThen mark _ _
  | ifThenElse mark _ _ _ | loop mark _ _ _ | print mark _ | call mark _ | returning mark _
  | broken mark _ => mark
  | bare value => value.mark

def Program.mark : Program α → α
  | expression mark _ | statements mark _ => mark

/-- The expression with its own mark changed, its parts untouched. -/
def Expr.adjust (change : α → α) : Expr α → Expr α
  | identifier mark name => identifier (change mark) name
  | integer mark value => integer (change mark) value
  | string mark text => string (change mark) text
  | boolean mark value => boolean (change mark) value
  | null mark => null (change mark)
  | list mark items => list (change mark) items
  | parenthesized mark inner => parenthesized (change mark) inner
  | unary mark op operand => unary (change mark) op operand
  | binary mark op left right => binary (change mark) op left right
  | comparison mark op left right => comparison (change mark) op left right
  | equality mark op left right => equality (change mark) op left right
  | call mark name args => call (change mark) name args
  | broken mark text => broken (change mark) text

theorem Expr.mark_adjust (change : α → α) (e : Expr α) :
    (e.adjust change).mark = change e.mark := by
  cases e <;> rfl

theorem Expr.adjust_self {change : α → α} {e : Expr α} (h : change e.mark = e.mark) :
    e.adjust change = e := by
  cases e <;> simp only [Expr.mark] at h <;> rw [Expr.adjust, h]

/-- What the parser knows of a node: where it stands and what is wrong with it. -/
structure Mark where
  span : Span
  errors : List Diagnostic
deriving DecidableEq

/-- What an arena knows of a node: its place there, where it stands in the source, what is wrong
with it and, once that is known, its type. -/
structure Info where
  id : Nat
  span : Span
  errors : List Diagnostic
  ty : Option Ty
deriving DecidableEq

def Expr.span (e : Expr Mark) : Span := e.mark.span

end CatScript
