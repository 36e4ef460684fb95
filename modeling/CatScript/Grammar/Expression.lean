import CatScript.Grammar.Reader

/-! # Reading expressions

Prefix operators bind tightest, then `*` and `/`, `+` and `-`, the comparisons, and last `==` and
`!=`.  Only the equalities group to the right.  Everything that an expression is made of is read one
nesting level deeper, and `Nested.ofRoom` says what is read when `room` levels are left: nothing but
one stray token when there is none. -/
set_option autoImplicit false
namespace CatScript.Grammar
open Reader

/-- The readers for the parts of an expression, one level deeper than the expression itself. -/
structure Nested where
  expression : Reader (Expr Mark)
  operand : Reader (Expr Mark)

/-- Takes one token that belongs nowhere and keeps its text. -/
def strayExpression : Reader (Expr Mark) := do
  let token ← take
  return .broken ⟨token.span, [unexpected token]⟩ token.text

def decimalValue (digits : List Char) : Nat :=
  digits.foldl (fun value c => 10 * value + (c.toNat - '0'.toNat)) 0

def maxInteger : Nat := 9223372036854775807

/-- The value of an integer literal, if it is not too great. -/
def integer? (digits : String) : Option Int64 :=
  let value := decimalValue digits.toList
  if value ≤ maxInteger then some (Int64.ofNat value) else none

def equalityOp? : TokenKind → Option EqualityOp
  | .equalEqual => some .equal
  | .bangEqual => some .notEqual
  | _ => none

def comparisonOp? : TokenKind → Option ComparisonOp
  | .less => some .less
  | .lessEqual => some .lessEqual
  | .greater => some .greater
  | .greaterEqual => some .greaterEqual
  | _ => none

def additiveOp? : TokenKind → Option BinaryOp
  | .plus => some .add
  | .minus => some .sub
  | _ => none

def factorOp? : TokenKind → Option BinaryOp
  | .star => some .mul
  | .slash => some .div
  | _ => none

def unaryOp? : TokenKind → Option UnaryOp
  | .minus => some .negate
  | .notWord => some .not
  | _ => none

def joined (left right : Expr Mark) : Mark :=
  ⟨left.span.through right.span, []⟩

/-- Reads on after `left`: operators that `op?` knows, each with an `operand`, grouped to the left;
`bound` limits their number. -/
def chain {ω : Type} (op? : TokenKind → Option ω)
    (build : Mark → ω → Expr Mark → Expr Mark → Expr Mark) (operand : Reader (Expr Mark)) :
    (bound : Nat) → Expr Mark → Reader (Expr Mark)
  | 0, left => pure left
  | bound + 1, left => do
    match op? (← peek) with
    | none => return left
    | some op =>
      let _ ← take
      let right ← operand
      chain op? build operand bound (build (joined left right) op left right)

/-- Reads operands joined by operators that group to the left. -/
def leftAssociative {ω : Type} (op? : TokenKind → Option ω)
    (build : Mark → ω → Expr Mark → Expr Mark → Expr Mark) (operand : Reader (Expr Mark)) :
    Reader (Expr Mark) := do
  let left ← operand
  chain op? build operand (← remaining) left

/-- Reads the arguments of a call of `name`, with the opening parenthesis in focus. -/
def call (nested : Nested) (name : Token) : Reader (Expr Mark) := do
  let (opening, missing) ← require .leftParen
  let (args, errors) ← if opening.kind = .leftParen then do
      if ← accept .rightParen then pure ([], [])
      else do
        let args ← separated nested.expression (← remaining)
        if ← accept .rightParen then pure (args, [])
        else pure (args, [⟨.unterminatedArgList, (← current).span⟩])
    else pure ([], [])
  return .call ⟨← spanFrom name.span, missing ++ errors⟩ name.text args

def list (nested : Nested) (opening : Token) : Reader (Expr Mark) := do
  let items ← if (← peek) = .rightBracket then pure []
    else do separated nested.expression (← remaining)
  let errors ← if ← accept .rightBracket then pure []
    else pure [⟨.unterminatedList, (← current).span⟩]
  return .list ⟨← spanFrom opening.span, errors⟩ items

def parenthesized (nested : Nested) (opening : Token) : Reader (Expr Mark) := do
  let inner ← nested.expression
  let (_, errors) ← require .rightParen
  return .parenthesized ⟨← spanFrom opening.span, errors⟩ inner

/-- Reads an expression without operators outside it.  A token that starts none is taken and
reported. -/
def primary (nested : Nested) : Reader (Expr Mark) := do
  let token ← take
  let mark : Mark := ⟨token.span, []⟩
  match token.kind with
  | .identifier =>
    if (← peek) = .leftParen then call nested token
    else return .identifier mark token.text
  | .integer =>
    match integer? token.text with
    | some value => return .integer mark value
    | none => return .integer ⟨token.span, [unexpected token]⟩ 0
  | .string => return .string mark token.text
  | .trueWord => return .boolean mark true
  | .falseWord => return .boolean mark false
  | .nullWord => return .null mark
  | .leftBracket => list nested token
  | .leftParen => parenthesized nested token
  | _ => return .broken ⟨token.span, [unexpected token]⟩ token.text

def unary (nested : Nested) : Reader (Expr Mark) := do
  match unaryOp? (← peek) with
  | none => primary nested
  | some op =>
    let operator ← take
    let operand ← nested.operand
    return .unary ⟨operator.span.through operand.span, []⟩ op operand

def factor (nested : Nested) : Reader (Expr Mark) :=
  leftAssociative factorOp? .binary (unary nested)

def additive (nested : Nested) : Reader (Expr Mark) :=
  leftAssociative additiveOp? .binary (factor nested)

def comparison (nested : Nested) : Reader (Expr Mark) :=
  leftAssociative comparisonOp? .comparison (additive nested)

/-- Reads equalities: what follows the operator is read one level deeper, so they group to the
right. -/
def equality (nested : Nested) : Reader (Expr Mark) := do
  let left ← comparison nested
  match equalityOp? (← peek) with
  | none => return left
  | some op =>
    let _ ← take
    let right ← nested.expression
    return .equality (joined left right) op left right

/-- The readers one level deeper when `room` levels are left. -/
def Nested.ofRoom : (room : Nat) → Nested
  | 0 => ⟨strayExpression, strayExpression⟩
  | room + 1 =>
    let nested := ofRoom room
    ⟨equality nested, unary nested⟩

/-- Reads a type annotation.  An unknown name is reported and read as `object`; `list` alone is a
list of objects.  `bound` limits the nesting of lists. -/
def typeExpression : (bound : Nat) → Reader (Ty × List Diagnostic)
  | 0 => pure (.object, [])
  | bound + 1 => do
    let token ← current
    if token.kind ≠ .identifier then return (.object, [unexpected token])
    let _ ← take
    if token.text = "list" then
      if ← accept .less then
        let (component, errors) ← typeExpression bound
        let (_, missing) ← require .greater
        return (.list component, errors ++ missing)
      else return (.list .object, [])
    else
      match Ty.ofName? token.text with
      | some ty => return (ty, [])
      | none => return (.object, [unexpected token])

def typeAfterColon? : Reader (Option Ty × List Diagnostic) := do
  if ← accept .colon then
    let (ty, errors) ← typeExpression ((← remaining) + 1)
    return (some ty, errors)
  else return (none, [])

end CatScript.Grammar
