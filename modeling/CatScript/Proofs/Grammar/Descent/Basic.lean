import CatScript.Arena.Numbering

/-! # Reading in one pass

The parser as it goes down the text: all its functions share one cursor, one arena that takes every
node as soon as its parts are there, and one counter of nesting levels, which `enter` raises and
`leave` lowers.  Neither tokens nor levels bound a loop or a recursion here.  A function is given
how many calls may be open at once, its own and each round of a loop among them; if it needs more
it has no result, and one that would go on for ever has none for any number.  A function that
breaks a rule of the arena ends with a fault. -/
set_option autoImplicit false
namespace CatScript
open Grammar

/-- What the functions of the parser share.  `deepest` is the greatest depth there has been. -/
structure Session where
  cursor : Cursor
  arena : Arena
  depth : Nat
  deepest : Nat

def Session.ofTokens (tokens : List Token) : Session :=
  ⟨Cursor.ofTokens tokens, Arena.empty, 0, 0⟩

/-- A step of the parser.  There is no result where more calls are needed than are allowed. -/
abbrev Descent := StateT Session (ExceptT Fault Option)

namespace Descent
variable {β : Type}

def stop : Descent β := fun _ => none

def outcome (step : Descent β) (session : Session) : Option (Except Fault Session) :=
  (step session).run.map (Except.map Prod.snd)

def read (reader : Reader β) : Descent β := fun session =>
  let (b, cursor) := reader.run session.cursor
  pure (b, { session with cursor })

def build (work : Arena → Except Fault (β × Arena)) : Descent β := fun session =>
  some ((work session.arena).map fun (b, arena) => (b, { session with arena }))

def push (kind : NodeKind) (mark : Mark) : Descent NodeId :=
  build fun arena => do
    let (id, arena) ← arena.push kind mark.span
    return (id, ← mark.errors.foldlM (fun arena error => arena.report id error) arena)

def spanAt (id : NodeId) : Descent Span :=
  build fun arena => do return ((← arena.node id).span, arena)

def full : Descent Bool := do
  return maxNesting ≤ (← get).depth

def enter : Descent Unit :=
  modify fun session =>
    { session with
      depth := session.depth + 1
      deepest := max session.deepest (session.depth + 1) }

def leave : Descent Unit :=
  modify fun session => { session with depth := session.depth - 1 }

section Expressions

/-- The operators of one level that groups to the left, with the node that each makes of what is
before it and what is after it. -/
abbrev Level := TokenKind → Option (NodeId → NodeId → NodeKind)

def factors : Level := fun kind => (factorOp? kind).map NodeKind.binary

def additives : Level := fun kind => (additiveOp? kind).map NodeKind.binary

def comparisons : Level := fun kind => (comparisonOp? kind).map NodeKind.comparison

def strayExpression : Descent NodeId := do
  let token ← read Reader.take
  push (.brokenExpression token.text) ⟨token.span, [Reader.unexpected token]⟩

mutual

/-- Reads an expression, one level deeper. -/
def expression : (calls : Nat) → Descent NodeId
  | 0 => stop
  | calls + 1 => do
    if ← full then strayExpression
    else
      enter
      let id ← equality calls
      leave
      return id

def operand : (calls : Nat) → Descent NodeId
  | 0 => stop
  | calls + 1 => do
    if ← full then strayExpression
    else
      enter
      let id ← unary calls
      leave
      return id

def equality : (calls : Nat) → Descent NodeId
  | 0 => stop
  | calls + 1 => do
    let left ← operators [comparisons, additives, factors] calls
    match equalityOp? (← read Reader.peek) with
    | none => return left
    | some op =>
      let _ ← read Reader.take
      let right ← expression calls
      let first ← spanAt left
      let last ← spanAt right
      push (.equality op left right) ⟨first.through last, []⟩

/-- Reads operators of the first level, with those of the others between them. -/
def operators : List Level → (calls : Nat) → Descent NodeId
  | _, 0 => stop
  | [], calls + 1 => unary calls
  | level :: tighter, calls + 1 => do
    let left ← operators tighter calls
    chain level tighter left calls

def chain (level : Level) (tighter : List Level) (left : NodeId) : (calls : Nat) → Descent NodeId
  | 0 => stop
  | calls + 1 => do
    match level (← read Reader.peek) with
    | none => return left
    | some join =>
      let _ ← read Reader.take
      let right ← operators tighter calls
      let first ← spanAt left
      let last ← spanAt right
      let id ← push (join left right) ⟨first.through last, []⟩
      chain level tighter id calls

def unary : (calls : Nat) → Descent NodeId
  | 0 => stop
  | calls + 1 => do
    match unaryOp? (← read Reader.peek) with
    | none => primary calls
    | some op =>
      let operator ← read Reader.take
      let inner ← operand calls
      let last ← spanAt inner
      push (.unary op inner) ⟨operator.span.through last, []⟩

def primary : (calls : Nat) → Descent NodeId
  | 0 => stop
  | calls + 1 => do
    let token ← read Reader.take
    let mark : Mark := ⟨token.span, []⟩
    match token.kind with
    | .identifier =>
      if (← read Reader.peek) = .leftParen then call token calls
      else push (.identifier token.text) mark
    | .integer =>
      match integer? token.text with
      | some value => push (.integer value) mark
      | none => push (.integer 0) ⟨token.span, [Reader.unexpected token]⟩
    | .string => push (.string token.text) mark
    | .trueWord => push (.boolean true) mark
    | .falseWord => push (.boolean false) mark
    | .nullWord => push .null mark
    | .leftBracket => list token calls
    | .leftParen => parenthesized token calls
    | _ => push (.brokenExpression token.text) ⟨token.span, [Reader.unexpected token]⟩

def parenthesized (opening : Token) : (calls : Nat) → Descent NodeId
  | 0 => stop
  | calls + 1 => do
    let inner ← expression calls
    let (_, errors) ← read (Reader.require .rightParen)
    push (.parenthesized inner) ⟨← read (Reader.spanFrom opening.span), errors⟩

def items : (calls : Nat) → Descent (List NodeId)
  | 0 => stop
  | calls + 1 => do
    let first ← expression calls
    if ← read (Reader.accept .comma) then
      let rest ← items calls
      return first :: rest
    else return [first]

def list (opening : Token) : (calls : Nat) → Descent NodeId
  | 0 => stop
  | calls + 1 => do
    let ids ← if (← read Reader.peek) = .rightBracket then pure [] else items calls
    let errors ← if ← read (Reader.accept .rightBracket) then pure []
      else pure [⟨.unterminatedList, (← read Reader.current).span⟩]
    push (.list ids) ⟨← read (Reader.spanFrom opening.span), errors⟩

def call (name : Token) : (calls : Nat) → Descent NodeId
  | 0 => stop
  | calls + 1 => do
    let (opening, missing) ← read (Reader.require .leftParen)
    let (args, errors) ← if opening.kind = .leftParen then do
        if ← read (Reader.accept .rightParen) then pure ([], [])
        else do
          let args ← items calls
          if ← read (Reader.accept .rightParen) then pure (args, [])
          else pure (args, [⟨.unterminatedArgList, (← read Reader.current).span⟩])
      else pure ([], [])
    push (.call name.text args) ⟨← read (Reader.spanFrom name.span), missing ++ errors⟩

end

def typeExpression : (calls : Nat) → Descent (Ty × List Diagnostic)
  | 0 => stop
  | calls + 1 => do
    let token ← read Reader.current
    if token.kind ≠ .identifier then return (.object, [Reader.unexpected token])
    let _ ← read Reader.take
    if token.text = "list" then
      if ← read (Reader.accept .less) then
        let (component, errors) ← typeExpression calls
        let (_, missing) ← read (Reader.require .greater)
        return (.list component, errors ++ missing)
      else return (.list .object, [])
    else
      match Ty.ofName? token.text with
      | some ty => return (ty, [])
      | none => return (.object, [Reader.unexpected token])

def typeAfterColon? (calls : Nat) : Descent (Option Ty × List Diagnostic) := do
  if ← read (Reader.accept .colon) then
    let (ty, errors) ← typeExpression calls
    return (some ty, errors)
  else return (none, [])

end Expressions

section Statements

def strayStatement : Descent NodeId := do
  let token ← read Reader.take
  push (.brokenStatement token.text) ⟨token.span, [Reader.unexpected token]⟩

def declaration (calls : Nat) : Descent NodeId := do
  let start ← read Reader.take
  let (name, noName) ← read (Reader.require .identifier)
  let (ty?, badType) ← typeAfterColon? calls
  let (_, noEqual) ← read (Reader.require .equal)
  let value ← expression calls
  push (.declaration name.text ty? value)
    ⟨← read (Reader.spanFrom start.span), noName ++ badType ++ noEqual⟩

def named (calls : Nat) : Descent NodeId := do
  let name ← read Reader.take
  if ← read (Reader.accept .equal) then
    let value ← expression calls
    push (.assignment name.text value) ⟨← read (Reader.spanFrom name.span), []⟩
  else
    let value ← call name calls
    push (.callStatement value) ⟨← spanAt value, []⟩

def parameter (calls : Nat) : Descent (Parameter × List Diagnostic) := do
  let (name, noName) ← read (Reader.require .identifier)
  let (ty?, badType) ← typeAfterColon? calls
  return (⟨name.text, ty?.getD .object⟩, noName ++ badType)

def parameterItems : (calls : Nat) → Descent (List (Parameter × List Diagnostic))
  | 0 => stop
  | calls + 1 => do
    let first ← parameter calls
    if ← read (Reader.accept .comma) then
      let rest ← parameterItems calls
      return first :: rest
    else return [first]

def parameters (calls : Nat) : Descent (List Parameter × List Diagnostic) := do
  if (← read Reader.peek) = .rightParen then return ([], [])
  let found ← parameterItems calls
  return (found.map Prod.fst, found.flatMap Prod.snd)

def print (calls : Nat) : Descent NodeId := do
  let start ← read Reader.take
  let (_, noOpening) ← read (Reader.require .leftParen)
  let value ← expression calls
  let (_, noClosing) ← read (Reader.require .rightParen)
  push (.print value) ⟨← read (Reader.spanFrom start.span), noOpening ++ noClosing⟩

def returning (calls : Nat) : Descent NodeId := do
  let start ← read Reader.take
  let value ← if endsReturn (← read Reader.peek) then pure none else some <$> expression calls
  push (.returning value) ⟨← read (Reader.spanFrom start.span), []⟩

mutual

def statement (inFunction : Bool) : (calls : Nat) → Descent NodeId
  | 0 => stop
  | calls + 1 => do
    match ← read Reader.peek with
    | .varWord => declaration calls
    | .functionWord => function calls
    | .ifWord => conditional inFunction calls
    | .forWord => loop inFunction calls
    | .printWord => print calls
    | .identifier => named calls
    | kind => if kind = .returnWord ∧ inFunction then returning calls else strayStatement

def function : (calls : Nat) → Descent NodeId
  | 0 => stop
  | calls + 1 => do
    let start ← read Reader.take
    let (name, noName) ← read (Reader.require .identifier)
    let (_, noOpening) ← read (Reader.require .leftParen)
    let (params, badParams) ← parameters calls
    let (_, noClosing) ← read (Reader.require .rightParen)
    let (ty?, badType) ← typeAfterColon? calls
    let (body, badBody) ← block true calls
    push (.function name.text params (ty?.getD .void) body)
      ⟨← read (Reader.spanFrom start.span),
        noName ++ noOpening ++ badParams ++ noClosing ++ badType ++ badBody⟩

def conditional (inFunction : Bool) : (calls : Nat) → Descent NodeId
  | 0 => stop
  | calls + 1 => do
    let start ← read Reader.take
    let (_, noOpening) ← read (Reader.require .leftParen)
    let condition ← expression calls
    let (_, noClosing) ← read (Reader.require .rightParen)
    let (thenBody, badThen) ← block inFunction calls
    let errors := noOpening ++ noClosing ++ badThen
    if ← read (Reader.accept .elseWord) then
      let (elseBody, badElse) ← if (← read Reader.peek) = .ifWord then do
          let id ← conditional inFunction calls
          pure ([id], [])
        else block inFunction calls
      push (.ifThenElse condition thenBody elseBody)
        ⟨← read (Reader.spanFrom start.span), errors ++ badElse⟩
    else push (.ifThen condition thenBody) ⟨← read (Reader.spanFrom start.span), errors⟩

def loop (inFunction : Bool) : (calls : Nat) → Descent NodeId
  | 0 => stop
  | calls + 1 => do
    let start ← read Reader.take
    let (_, noOpening) ← read (Reader.require .leftParen)
    let (name, noName) ← read (Reader.require .identifier)
    let (_, noIn) ← read (Reader.require .inWord)
    let iterable ← expression calls
    let (_, noClosing) ← read (Reader.require .rightParen)
    let (body, badBody) ← block inFunction calls
    push (.loop name.text iterable body)
      ⟨← read (Reader.spanFrom start.span), noOpening ++ noName ++ noIn ++ noClosing ++ badBody⟩

def block (inFunction : Bool) : (calls : Nat) → Descent (List NodeId × List Diagnostic)
  | 0 => stop
  | calls + 1 => do
    if ← full then return ([], [Reader.unexpected (← read Reader.current)])
    else
      let (_, noOpening) ← read (Reader.require .leftBrace)
      enter
      let ids ← body endsBlock inFunction calls
      leave
      let (_, noClosing) ← read (Reader.require .rightBrace)
      return (ids, noOpening ++ noClosing)

def body (ends : TokenKind → Bool) (inFunction : Bool) : (calls : Nat) → Descent (List NodeId)
  | 0 => stop
  | calls + 1 => do
    if ends (← read Reader.peek) then return []
    else
      let first ← statement inFunction calls
      let rest ← body ends inFunction calls
      return first :: rest

end

end Statements

section Programs

/-- Appends the program, which runs from `start` to the token in focus, and makes it the root. -/
def finish (kind : NodeKind) (start : Span) : Descent Unit := do
  let root ← push kind (← read (programMark start))
  build fun arena => .ok ((), arena.setRoot root)

def statementProgram (calls : Nat) : Descent Unit := do
  let start := (← read Reader.current).span
  let ids ← body (· = .endOfInput) false calls
  finish (.statementProgram ids) start

def expressionProgram (calls : Nat) : Descent Unit := do
  let start := (← read Reader.current).span
  let id ← expression calls
  finish (.expressionProgram id) start

def more : Descent Bool := do
  return (← get).cursor.hasMore

def checkpoint : Descent Nat := do
  return (← get).arena.size

/-- Drops the nodes from place `size` on and goes back to the first token. -/
def undo (size : Nat) : Descent Unit :=
  modify fun session =>
    { session with arena := session.arena.truncate size, cursor := session.cursor.reset }

def program (calls : Nat) : Descent Unit := do
  let start := (← read Reader.current).span
  if ← more then
    let size ← checkpoint
    let id ← expression calls
    if ← more then
      undo size
      statementProgram calls
    else finish (.expressionProgram id) start
  else statementProgram calls

end Programs
end Descent
end CatScript
