import Mathlib.Tactic.Tauto
import CatScript.Grammar.Statement

/-! # How trees are written

`Program.Spelled fits p tokens` says that the tokens write the program: which tokens a node is made
of and in which order, and that no more levels are nested than a text may nest.  What the mark of a
node has to do with its tokens is up to `fits`; `Mark.Covers` is the relation for trees of source
texts.  `Expr.grouped` says that operators bind as tightly as they should: nothing looser than an
operator stands beside it without parentheses.

Which token stands for an operator, which name for a type and which digits for a number is said here
apart from the parser: by `UnaryOp.kind` and its like, `Ty.Named` and `Decimal`.  The tables that the
parser reads with agree with them. -/
set_option autoImplicit false
namespace CatScript
open Grammar

variable {α β : Type}

section Levels

/-- How tightly an operator binds. -/
def BinaryOp.level : BinaryOp → Nat
  | .add | .sub => 2
  | .mul | .div => 3

/-- How tightly the parts of an expression hang together: from 0 for an equality over 1 for a
comparison, 2 and 3 for the other operators and 4 for a prefix to 5 for everything else. -/
def Expr.level : Expr α → Nat
  | .equality .. => 0
  | .comparison .. => 1
  | .binary _ op _ _ => op.level
  | .unary .. => 4
  | .identifier .. | .integer .. | .string .. | .boolean .. | .null _ | .list .. | .parenthesized ..
  | .call .. | .broken .. => 5

mutual

/-- Whether no part of the expression binds less tightly than its place allows.  Equalities group to
the right, other operators between two values to the left. -/
def Expr.grouped : Expr α → Bool
  | .identifier .. | .integer .. | .string .. | .boolean .. | .null _ | .broken .. => true
  | .list _ items => Expr.groupedAll items
  | .parenthesized _ inner => inner.grouped
  | .unary _ _ operand => 4 ≤ operand.level && operand.grouped
  | .binary _ op left right =>
    op.level ≤ left.level && op.level < right.level && left.grouped && right.grouped
  | .comparison _ _ left right =>
    1 ≤ left.level && 1 < right.level && left.grouped && right.grouped
  | .equality _ _ left right => 0 < left.level && left.grouped && right.grouped
  | .call _ _ args => Expr.groupedAll args

def Expr.groupedAll : List (Expr α) → Bool
  | [] => true
  | e :: rest => e.grouped && Expr.groupedAll rest

end

mutual

def Stmt.grouped : Stmt α → Bool
  | .declaration _ _ _ value | .assignment _ _ value | .print _ value | .call _ value
  | .returning _ (some value) | .bare value => value.grouped
  | .function _ _ _ _ body => Stmt.groupedAll body
  | .ifThen _ condition thenBody => condition.grouped && Stmt.groupedAll thenBody
  | .ifThenElse _ condition thenBody elseBody =>
    condition.grouped && Stmt.groupedAll thenBody && Stmt.groupedAll elseBody
  | .loop _ _ iterable body => iterable.grouped && Stmt.groupedAll body
  | .returning _ none | .broken .. => true

def Stmt.groupedAll : List (Stmt α) → Bool
  | [] => true
  | s :: rest => s.grouped && Stmt.groupedAll rest

end

def Program.grouped : Program α → Bool
  | .expression _ body => body.grouped
  | .statements _ body => Stmt.groupedAll body

section Simple
variable {mark : α} {left right operand : Expr α}

theorem Expr.level_binary (op : BinaryOp) : (Expr.binary mark op left right).level = op.level := rfl

theorem Expr.grouped_unary {op : UnaryOp} : (Expr.unary mark op operand).grouped = true ↔
    4 ≤ operand.level ∧ operand.grouped = true := by
  rw [Expr.grouped, Bool.and_eq_true, decide_eq_true_iff]

theorem Expr.grouped_binary {op : BinaryOp} : (Expr.binary mark op left right).grouped = true ↔
    (op.level ≤ left.level ∧ left.grouped = true) ∧
      op.level < right.level ∧ right.grouped = true := by
  simp only [Expr.grouped, Bool.and_eq_true, decide_eq_true_iff]
  tauto

theorem Expr.grouped_comparison {op : ComparisonOp} :
    (Expr.comparison mark op left right).grouped = true ↔
      (1 ≤ left.level ∧ left.grouped = true) ∧ 1 < right.level ∧ right.grouped = true := by
  simp only [Expr.grouped, Bool.and_eq_true, decide_eq_true_iff]
  tauto

theorem Expr.grouped_equality {op : EqualityOp} :
    (Expr.equality mark op left right).grouped = true ↔
      (0 < left.level ∧ left.grouped = true) ∧ right.grouped = true := by
  simp only [Expr.grouped, Bool.and_eq_true, decide_eq_true_iff]

end Simple
end Levels

/-- The mark spans the tokens: it starts where the first one does and stops where the last one
does. -/
def Mark.Covers (mark : Mark) (tokens : List Token) : Prop :=
  ∃ first last, tokens.head? = some first ∧ tokens.getLast? = some last ∧
    mark.span = { first.span with stop := last.span.stop }

/-- The tokens write some things one after the other, with commas between them. -/
inductive Separated (item : β → List Token → Prop) : List β → List Token → Prop
  | nil : Separated item [] []
  | single {b : β} {tokens : List Token} (hitem : item b tokens) : Separated item [b] tokens
  | cons {b next : β} {rest : List β} {tokens others : List Token} {comma : Token}
      (hitem : item b tokens) (hcomma : comma.kind = .comma)
      (hrest : Separated item (next :: rest) others) :
      Separated item (b :: next :: rest) (tokens ++ comma :: others)

section Words

def UnaryOp.kind : UnaryOp → TokenKind
  | .negate => .minus
  | .not => .notWord

def BinaryOp.kind : BinaryOp → TokenKind
  | .add => .plus
  | .sub => .minus
  | .mul => .star
  | .div => .slash

def ComparisonOp.kind : ComparisonOp → TokenKind
  | .less => .less
  | .lessEqual => .lessEqual
  | .greater => .greater
  | .greaterEqual => .greaterEqual

def EqualityOp.kind : EqualityOp → TokenKind
  | .equal => .equalEqual
  | .notEqual => .bangEqual

/-- The digits stand for the value in the decimal system. -/
def Decimal (digits : String) (value : Int64) : Prop :=
  value.toInt = Nat.ofDigitChars 10 digits.toList 0

inductive Ty.Named : Ty → String → Prop
  | int : Named .int "int"
  | string : Named .string "string"
  | boolean : Named .boolean "bool"
  | object : Named .object "object"

/-! The tables that the parser reads with say the same. -/

theorem unaryOp?_eq_some {kind : TokenKind} {op : UnaryOp} :
    unaryOp? kind = some op ↔ kind = op.kind := by
  constructor
  · intro h
    cases kind <;> cases h <;> rfl
  · rintro rfl
    cases op <;> rfl

theorem binaryOp?_eq_some {kind : TokenKind} {op : BinaryOp} :
    additiveOp? kind = some op ∨ factorOp? kind = some op ↔ kind = op.kind := by
  constructor
  · rintro (h | h) <;> cases kind <;> cases h <;> rfl
  · rintro rfl
    cases op <;> first | exact .inl rfl | exact .inr rfl

theorem comparisonOp?_eq_some {kind : TokenKind} {op : ComparisonOp} :
    comparisonOp? kind = some op ↔ kind = op.kind := by
  constructor
  · intro h
    cases kind <;> cases h <;> rfl
  · rintro rfl
    cases op <;> rfl

theorem equalityOp?_eq_some {kind : TokenKind} {op : EqualityOp} :
    equalityOp? kind = some op ↔ kind = op.kind := by
  constructor
  · intro h
    cases kind <;> cases h <;> rfl
  · rintro rfl
    cases op <;> rfl

theorem integer?_eq_some {digits : String} {value : Int64} :
    integer? digits = some value ↔ Decimal digits value := by
  have hvalue : decimalValue digits.toList = Nat.ofDigitChars 10 digits.toList 0 := rfl
  unfold integer? Decimal
  rw [hvalue]
  generalize Nat.ofDigitChars 10 digits.toList 0 = n
  by_cases hmax : n ≤ maxInteger
  · have hlt : n < 2 ^ 63 := Nat.lt_of_le_of_lt hmax (by decide)
    rw [if_pos hmax, Option.some.injEq, ← Int64.toInt_inj, Int64.toInt_ofNat_of_lt hlt]
    exact eq_comm
  · rw [if_neg hmax]
    refine ⟨nofun, fun h => absurd ?_ hmax⟩
    have hlt := value.toInt_lt
    unfold maxInteger
    omega

theorem Ty.ofName?_eq_some {name : String} {ty : Ty} :
    Ty.ofName? name = some ty ↔ ty.Named name := by
  constructor
  · intro h
    unfold Ty.ofName? at h
    split at h <;> cases h
    · exact .int
    · exact .string
    · exact .boolean
    · exact .object
  · rintro ⟨⟩ <;> rfl

end Words

/-- The tokens name the type. -/
inductive Ty.Spelled : Ty → List Token → Prop
  | name {ty : Ty} {token : Token} (hkind : token.kind = .identifier)
      (hname : ty.Named token.text) : Spelled ty [token]
  | anyList {token : Token} (hkind : token.kind = .identifier) (htext : token.text = "list") :
      Spelled (.list .object) [token]
  | list {component : Ty} {token opening closing : Token} {tokens : List Token}
      (hkind : token.kind = .identifier) (htext : token.text = "list")
      (hopening : opening.kind = .less) (hcomponent : Spelled component tokens)
      (hclosing : closing.kind = .greater) :
      Spelled (.list component) (token :: opening :: (tokens ++ [closing]))

/-- The tokens annotate something with the type, or there is neither an annotation nor a token. -/
inductive Annotates : Option Ty → List Token → Prop
  | none : Annotates none []
  | some {ty : Ty} {colon : Token} {tokens : List Token} (hcolon : colon.kind = .colon)
      (hty : ty.Spelled tokens) : Annotates (some ty) (colon :: tokens)

/-- The tokens write the parameter; without an annotation it is an `object`. -/
inductive Parameter.Spelled : Parameter → List Token → Prop
  | named {name : Token} {ty? : Option Ty} {tokens : List Token} (hname : name.kind = .identifier)
      (hty : Annotates ty? tokens) : Spelled ⟨name.text, ty?.getD .object⟩ (name :: tokens)

mutual

/-- The tokens write the expression, and nothing in it nests deeper than `room` levels. -/
inductive Expr.Spelled (fits : α → List Token → Prop) : Nat → Expr α → List Token → Prop
  | identifier {room : Nat} {mark : α} {token : Token} (hkind : token.kind = .identifier)
      (hmark : fits mark [token]) : Expr.Spelled fits room (.identifier mark token.text) [token]
  | integer {room : Nat} {mark : α} {token : Token} {value : Int64} (hkind : token.kind = .integer)
      (hvalue : Decimal token.text value) (hmark : fits mark [token]) :
      Expr.Spelled fits room (.integer mark value) [token]
  | string {room : Nat} {mark : α} {token : Token} (hkind : token.kind = .string)
      (hmark : fits mark [token]) : Expr.Spelled fits room (.string mark token.text) [token]
  | trueWord {room : Nat} {mark : α} {token : Token} (hkind : token.kind = .trueWord)
      (hmark : fits mark [token]) : Expr.Spelled fits room (.boolean mark true) [token]
  | falseWord {room : Nat} {mark : α} {token : Token} (hkind : token.kind = .falseWord)
      (hmark : fits mark [token]) : Expr.Spelled fits room (.boolean mark false) [token]
  | nullWord {room : Nat} {mark : α} {token : Token} (hkind : token.kind = .nullWord)
      (hmark : fits mark [token]) : Expr.Spelled fits room (.null mark) [token]
  | list {room : Nat} {mark : α} {items : List (Expr α)} {opening closing : Token}
      {tokens : List Token} (hopening : opening.kind = .leftBracket)
      (hitems : Expr.SpelledAll fits room items tokens) (hclosing : closing.kind = .rightBracket)
      (hmark : fits mark (opening :: (tokens ++ [closing]))) :
      Expr.Spelled fits room (.list mark items) (opening :: (tokens ++ [closing]))
  | parenthesized {room : Nat} {mark : α} {inner : Expr α} {opening closing : Token}
      {tokens : List Token} (hopening : opening.kind = .leftParen)
      (hinner : Expr.Spelled fits room inner tokens) (hclosing : closing.kind = .rightParen)
      (hmark : fits mark (opening :: (tokens ++ [closing]))) :
      Expr.Spelled fits (room + 1) (.parenthesized mark inner) (opening :: (tokens ++ [closing]))
  | unary {room : Nat} {mark : α} {op : UnaryOp} {operand : Expr α} {operator : Token}
      {tokens : List Token} (hop : operator.kind = op.kind)
      (hoperand : Expr.Spelled fits room operand tokens) (hmark : fits mark (operator :: tokens)) :
      Expr.Spelled fits (room + 1) (.unary mark op operand) (operator :: tokens)
  | binary {room : Nat} {mark : α} {op : BinaryOp} {left right : Expr α} {operator : Token}
      {tokens others : List Token}
      (hop : operator.kind = op.kind)
      (hleft : Expr.Spelled fits room left tokens) (hright : Expr.Spelled fits room right others)
      (hmark : fits mark (tokens ++ operator :: others)) :
      Expr.Spelled fits room (.binary mark op left right) (tokens ++ operator :: others)
  | comparison {room : Nat} {mark : α} {op : ComparisonOp} {left right : Expr α} {operator : Token}
      {tokens others : List Token} (hop : operator.kind = op.kind)
      (hleft : Expr.Spelled fits room left tokens) (hright : Expr.Spelled fits room right others)
      (hmark : fits mark (tokens ++ operator :: others)) :
      Expr.Spelled fits room (.comparison mark op left right) (tokens ++ operator :: others)
  | equality {room : Nat} {mark : α} {op : EqualityOp} {left right : Expr α} {operator : Token}
      {tokens others : List Token} (hop : operator.kind = op.kind)
      (hleft : Expr.Spelled fits (room + 1) left tokens)
      (hright : Expr.Spelled fits room right others)
      (hmark : fits mark (tokens ++ operator :: others)) :
      Expr.Spelled fits (room + 1) (.equality mark op left right) (tokens ++ operator :: others)
  | call {room : Nat} {mark : α} {args : List (Expr α)} {name opening closing : Token}
      {tokens : List Token} (hname : name.kind = .identifier) (hopening : opening.kind = .leftParen)
      (hargs : Expr.SpelledAll fits room args tokens) (hclosing : closing.kind = .rightParen)
      (hmark : fits mark (name :: opening :: (tokens ++ [closing]))) :
      Expr.Spelled fits room (.call mark name.text args) (name :: opening :: (tokens ++ [closing]))

inductive Expr.SpelledAll (fits : α → List Token → Prop) :
    Nat → List (Expr α) → List Token → Prop
  | nil {room : Nat} : Expr.SpelledAll fits room [] []
  | single {room : Nat} {e : Expr α} {tokens : List Token} (he : Expr.Spelled fits room e tokens) :
      Expr.SpelledAll fits (room + 1) [e] tokens
  | cons {room : Nat} {e next : Expr α} {rest : List (Expr α)} {comma : Token}
      {tokens others : List Token} (he : Expr.Spelled fits room e tokens)
      (hcomma : comma.kind = .comma)
      (hrest : Expr.SpelledAll fits (room + 1) (next :: rest) others) :
      Expr.SpelledAll fits (room + 1) (e :: next :: rest) (tokens ++ comma :: others)

end

mutual

/-- The tokens write the statement, inside a function or not, and nothing in it nests deeper than
`room` levels. -/
inductive Stmt.Spelled (fits : α → List Token → Prop) :
    Nat → Bool → Stmt α → List Token → Prop
  | declaration {room : Nat} {inFunction : Bool} {mark : α} {ty? : Option Ty} {value : Expr α}
      {start name equal : Token} {typed tokens : List Token} (hstart : start.kind = .varWord)
      (hname : name.kind = .identifier) (hty : Annotates ty? typed)
      (hequal : equal.kind = .equal) (hvalue : value.Spelled fits room tokens)
      (hmark : fits mark (start :: name :: (typed ++ equal :: tokens))) :
      Stmt.Spelled fits (room + 1) inFunction (.declaration mark name.text ty? value)
        (start :: name :: (typed ++ equal :: tokens))
  | assignment {room : Nat} {inFunction : Bool} {mark : α} {value : Expr α} {name equal : Token}
      {tokens : List Token} (hname : name.kind = .identifier) (hequal : equal.kind = .equal)
      (hvalue : value.Spelled fits room tokens) (hmark : fits mark (name :: equal :: tokens)) :
      Stmt.Spelled fits (room + 1) inFunction (.assignment mark name.text value)
        (name :: equal :: tokens)
  | function {room : Nat} {inFunction : Bool} {mark : α} {params : List Parameter}
      {ty? : Option Ty} {body : List (Stmt α)} {start name opening closing : Token}
      {tokens typed block : List Token} (hstart : start.kind = .functionWord)
      (hname : name.kind = .identifier) (hopening : opening.kind = .leftParen)
      (hparams : Separated Parameter.Spelled params tokens) (hclosing : closing.kind = .rightParen)
      (hty : Annotates ty? typed) (hbody : Stmt.SpelledBlock fits room true body block)
      (hmark : fits mark
        (start :: name :: opening :: (tokens ++ closing :: (typed ++ block)))) :
      Stmt.Spelled fits room inFunction
        (.function mark name.text params (ty?.getD .void) body)
        (start :: name :: opening :: (tokens ++ closing :: (typed ++ block)))
  | ifThen {room : Nat} {inFunction : Bool} {mark : α} {condition : Expr α}
      {thenBody : List (Stmt α)} {start opening closing : Token} {tokens block : List Token}
      (hstart : start.kind = .ifWord) (hopening : opening.kind = .leftParen)
      (hcondition : condition.Spelled fits room tokens) (hclosing : closing.kind = .rightParen)
      (hthen : Stmt.SpelledBlock fits (room + 1) inFunction thenBody block)
      (hmark : fits mark (start :: opening :: (tokens ++ closing :: block))) :
      Stmt.Spelled fits (room + 1) inFunction (.ifThen mark condition thenBody)
        (start :: opening :: (tokens ++ closing :: block))
  | ifThenElse {room : Nat} {inFunction : Bool} {mark : α} {condition : Expr α}
      {thenBody elseBody : List (Stmt α)} {start opening closing other : Token}
      {tokens block others : List Token} (hstart : start.kind = .ifWord)
      (hopening : opening.kind = .leftParen) (hcondition : condition.Spelled fits room tokens)
      (hclosing : closing.kind = .rightParen)
      (hthen : Stmt.SpelledBlock fits (room + 1) inFunction thenBody block)
      (hother : other.kind = .elseWord)
      (helse : Stmt.SpelledBlock fits (room + 1) inFunction elseBody others)
      (hmark : fits mark (start :: opening :: (tokens ++ closing :: (block ++ other :: others)))) :
      Stmt.Spelled fits (room + 1) inFunction (.ifThenElse mark condition thenBody elseBody)
        (start :: opening :: (tokens ++ closing :: (block ++ other :: others)))
  | elseIf {room : Nat} {inFunction : Bool} {mark : α} {condition : Expr α}
      {thenBody : List (Stmt α)} {alternative : Stmt α} {start opening closing other next : Token}
      {tokens block others : List Token} (hstart : start.kind = .ifWord)
      (hopening : opening.kind = .leftParen) (hcondition : condition.Spelled fits room tokens)
      (hclosing : closing.kind = .rightParen)
      (hthen : Stmt.SpelledBlock fits (room + 1) inFunction thenBody block)
      (hother : other.kind = .elseWord) (hnext : next.kind = .ifWord)
      (helse : Stmt.Spelled fits (room + 1) inFunction alternative (next :: others))
      (hmark : fits mark
        (start :: opening :: (tokens ++ closing :: (block ++ other :: next :: others)))) :
      Stmt.Spelled fits (room + 1) inFunction (.ifThenElse mark condition thenBody [alternative])
        (start :: opening :: (tokens ++ closing :: (block ++ other :: next :: others)))
  | loop {room : Nat} {inFunction : Bool} {mark : α} {iterable : Expr α} {body : List (Stmt α)}
      {start opening name inWord closing : Token} {tokens block : List Token}
      (hstart : start.kind = .forWord) (hopening : opening.kind = .leftParen)
      (hname : name.kind = .identifier) (hin : inWord.kind = .inWord)
      (hiterable : iterable.Spelled fits room tokens) (hclosing : closing.kind = .rightParen)
      (hbody : Stmt.SpelledBlock fits (room + 1) inFunction body block)
      (hmark : fits mark
        (start :: opening :: name :: inWord :: (tokens ++ closing :: block))) :
      Stmt.Spelled fits (room + 1) inFunction (.loop mark name.text iterable body)
        (start :: opening :: name :: inWord :: (tokens ++ closing :: block))
  | print {room : Nat} {inFunction : Bool} {mark : α} {value : Expr α}
      {start opening closing : Token} {tokens : List Token} (hstart : start.kind = .printWord)
      (hopening : opening.kind = .leftParen) (hvalue : value.Spelled fits room tokens)
      (hclosing : closing.kind = .rightParen)
      (hmark : fits mark (start :: opening :: (tokens ++ [closing]))) :
      Stmt.Spelled fits (room + 1) inFunction (.print mark value)
        (start :: opening :: (tokens ++ [closing]))
  | call {room : Nat} {inFunction : Bool} {mark inner : α} {name : String} {args : List (Expr α)}
      {tokens : List Token} (hvalue : (Expr.call inner name args).Spelled fits room tokens)
      (hmark : fits mark tokens) :
      Stmt.Spelled fits room inFunction (.call mark (.call inner name args)) tokens
  | bareReturn {room : Nat} {mark : α} {start : Token} (hstart : start.kind = .returnWord)
      (hmark : fits mark [start]) : Stmt.Spelled fits room true (.returning mark none) [start]
  | returning {room : Nat} {mark : α} {value : Expr α} {start : Token} {tokens : List Token}
      (hstart : start.kind = .returnWord) (hvalue : value.Spelled fits room tokens)
      (hmark : fits mark (start :: tokens)) :
      Stmt.Spelled fits (room + 1) true (.returning mark (some value)) (start :: tokens)

inductive Stmt.SpelledAll (fits : α → List Token → Prop) :
    Nat → Bool → List (Stmt α) → List Token → Prop
  | nil {room : Nat} {inFunction : Bool} : Stmt.SpelledAll fits room inFunction [] []
  | cons {room : Nat} {inFunction : Bool} {s : Stmt α} {rest : List (Stmt α)}
      {tokens others : List Token} (hs : Stmt.Spelled fits room inFunction s tokens)
      (hrest : Stmt.SpelledAll fits room inFunction rest others) :
      Stmt.SpelledAll fits room inFunction (s :: rest) (tokens ++ others)

/-- The tokens write the statements in braces, one level deeper. -/
inductive Stmt.SpelledBlock (fits : α → List Token → Prop) :
    Nat → Bool → List (Stmt α) → List Token → Prop
  | braces {room : Nat} {inFunction : Bool} {body : List (Stmt α)} {opening closing : Token}
      {tokens : List Token} (hopening : opening.kind = .leftBrace)
      (hbody : Stmt.SpelledAll fits room inFunction body tokens)
      (hclosing : closing.kind = .rightBrace) :
      Stmt.SpelledBlock fits (room + 1) inFunction body (opening :: (tokens ++ [closing]))

end

/-- The tokens write the program, and nothing in it nests deeper than a text may nest. -/
inductive Program.Spelled (fits : α → List Token → Prop) : Program α → List Token → Prop
  | expression {mark : α} {body : Expr α} {tokens : List Token}
      (hbody : body.Spelled fits (maxNesting - 1) tokens) :
      Spelled fits (.expression mark body) tokens
  | statements {mark : α} {body : List (Stmt α)} {tokens : List Token}
      (hbody : Stmt.SpelledAll fits maxNesting false body tokens) :
      Spelled fits (.statements mark body) tokens

end CatScript
