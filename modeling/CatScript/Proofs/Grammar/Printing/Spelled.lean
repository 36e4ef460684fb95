import CatScript.Proofs.Grammar.Printing.Words

/-! # Words spell the tree

Tokens that say the words of a tree spell it, in as many levels as the tree nests. -/
set_option autoImplicit false
namespace CatScript
open Grammar

variable {α β : Type}

/-- Any mark fits any tokens. -/
def AnyMark (_ : α) (_ : List Token) : Prop := True

section Words
variable {token : Token} {tokens : List Token} {kind left right : TokenKind} {name : String}
  {words : List Word}

theorem kind_of_fixed (h : token.word = .fixed kind) : token.kind = kind :=
  congrArg Word.kind h

theorem name_of_word (h : token.word = .name name) : token.kind = .identifier ∧ token.text = name :=
  ⟨congrArg Word.kind h, congrArg Word.text h⟩

theorem fixed_of_words (h : tokens.map Token.word = .fixed kind :: words) :
    ∃ token rest, tokens = token :: rest ∧ token.kind = kind ∧ rest.map Token.word = words := by
  obtain ⟨token, rest, htokens, htoken, hrest⟩ := List.map_eq_cons_iff.1 h
  exact ⟨token, rest, htokens, kind_of_fixed htoken, hrest⟩

theorem name_of_words (h : tokens.map Token.word = .name name :: words) :
    ∃ token rest, tokens = token :: rest ∧ rest.map Token.word = words ∧
      token.kind = .identifier ∧ token.text = name := by
  obtain ⟨token, rest, htokens, htoken, hrest⟩ := List.map_eq_cons_iff.1 h
  exact ⟨token, rest, htokens, hrest, name_of_word htoken⟩

theorem enclosed_of_words
    (h : tokens.map Token.word = .fixed left :: (words ++ [.fixed right])) :
    ∃ opening inside closing, tokens = opening :: (inside ++ [closing]) ∧ opening.kind = left ∧
      inside.map Token.word = words ∧ closing.kind = right := by
  obtain ⟨opening, _, rfl, hopening, h⟩ := fixed_of_words h
  obtain ⟨inside, _, rfl, hinside, h⟩ := List.map_eq_append_iff.1 h
  obtain ⟨closing, rfl, hclosing⟩ := List.map_eq_singleton_iff.1 h
  exact ⟨opening, inside, closing, rfl, hopening, hinside, kind_of_fixed hclosing⟩

/-- Where there is room for one level more, there is room for the levels inside it. -/
theorem inner_of_le {levels room : Nat} (h : levels + 1 ≤ room) :
    ∃ inner, room = inner + 1 ∧ levels ≤ inner := by
  obtain ⟨inner, rfl⟩ := Nat.exists_eq_add_of_le' (Nat.le_trans (Nat.le_add_left 1 _) h)
  exact ⟨inner, rfl, Nat.le_of_succ_le_succ h⟩

theorem decimal_of_nonneg {value : Int64} (h : 0 ≤ value) : Decimal (Text.decimal value) value := by
  obtain ⟨n, hn, hdigits⟩ := decimal_toList h
  unfold Decimal
  rw [hdigits, Nat.ofDigitChars_toDigits (by decide) (by decide), hn]

end Words

section Types
variable {tokens : List Token}

theorem Ty.spelled_of_words {ty : Ty} : ∀ {tokens : List Token}, ty.isNamed = true →
    tokens.map Token.word = ty.words → ty.Spelled tokens := by
  induction ty with
  | list component ih =>
    intro tokens hnamed hwords
    obtain ⟨token, _, rfl, hwords, hkind, htext⟩ := name_of_words hwords
    obtain ⟨opening, inside, closing, rfl, hopening, hinside, hclosing⟩ := enclosed_of_words hwords
    exact .list hkind htext hopening (ih hnamed hinside) hclosing
  | _ =>
    intro tokens hnamed hwords
    obtain ⟨token, rfl, htoken⟩ := List.map_eq_singleton_iff.1 hwords
    obtain ⟨hkind, htext⟩ := name_of_word htoken
    refine .name hkind ?_
    rw [htext]
    first | exact Ty.ofName?_eq_some.1 rfl | cases hnamed

theorem annotates_of_words {ty? : Option Ty} (hnamed : ty?.all Ty.isNamed = true)
    (hwords : tokens.map Token.word = annotated ty?) : Annotates ty? tokens := by
  cases ty? with
  | none =>
    obtain rfl := List.map_eq_nil_iff.1 hwords
    exact .none
  | some ty =>
    obtain ⟨colon, rest, rfl, hcolon, hwords⟩ := fixed_of_words hwords
    exact .some hcolon (Ty.spelled_of_words hnamed hwords)

theorem Parameter.spelled_of_words {param : Parameter} (hnamed : param.ty.isNamed = true)
    (hwords : tokens.map Token.word = param.words) : param.Spelled tokens := by
  obtain ⟨name, rest, rfl, hwords, hkind, htext⟩ := name_of_words hwords
  have hty : Annotates (some param.ty) rest := annotates_of_words hnamed hwords
  have hspelled := Parameter.Spelled.named hkind hty
  rwa [htext] at hspelled

theorem separated_of_listed {words : β → List Word} {spelled : β → List Token → Prop}
    {items : List β}
    (hitem : ∀ b ∈ items, ∀ tokens : List Token, tokens.map Token.word = words b →
      spelled b tokens) :
    ∀ {tokens : List Token}, tokens.map Token.word = listed words items →
      Separated spelled items tokens := by
  induction items with
  | nil =>
    intro tokens hwords
    obtain rfl := List.map_eq_nil_iff.1 hwords
    exact .nil
  | cons b rest ih =>
    intro tokens hwords
    obtain ⟨first, others, rfl, hfirst, hwords⟩ := List.map_eq_append_iff.1 hwords
    have hb := hitem b List.mem_cons_self first hfirst
    cases rest with
    | nil =>
      obtain rfl := List.map_eq_nil_iff.1 hwords
      rw [List.append_nil]
      exact .single hb
    | cons next rest =>
      obtain ⟨comma, more, rfl, hcomma, hwords⟩ := fixed_of_words hwords
      exact .cons hb hcomma
        (ih (fun b hmem => hitem b (List.mem_cons_of_mem _ hmem)) hwords)

end Types

section Expressions

/-- Whatever says the words of the expression spells it, where there is room for its levels. -/
def Expr.Sayable (e : Expr α) : Prop :=
  ∀ ⦃room : Nat⦄ ⦃tokens : List Token⦄, e.isWritable = true → e.nesting ≤ room →
    tokens.map Token.word = e.words → e.Spelled AnyMark room tokens

def Expr.AllSayable (items : List (Expr α)) : Prop :=
  ∀ ⦃room : Nat⦄ ⦃tokens : List Token⦄, Expr.areWritable items = true →
    Expr.nestingAll items ≤ room → tokens.map Token.word = Expr.wordsAll items →
    Expr.SpelledAll AnyMark room items tokens

namespace Expr.Sayable
variable {mark : α} {e left right : Expr α} {items : List (Expr α)}

theorem identifier {name : String} : (Expr.identifier mark name).Sayable := by
  intro room tokens _ _ hwords
  obtain ⟨token, rfl, htoken⟩ := List.map_eq_singleton_iff.1 hwords
  obtain ⟨hkind, rfl⟩ := name_of_word htoken
  exact .identifier hkind trivial

theorem integer {value : Int64} : (Expr.integer mark value).Sayable := by
  intro room tokens hwritable _ hwords
  obtain ⟨token, rfl, htoken⟩ := List.map_eq_singleton_iff.1 hwords
  refine .integer (congrArg Word.kind htoken) ?_ trivial
  have htext : token.text = Text.decimal value := congrArg Word.text htoken
  rw [htext]
  exact decimal_of_nonneg (of_decide_eq_true hwritable)

theorem string {text : String} : (Expr.string mark text).Sayable := by
  intro room tokens _ _ hwords
  obtain ⟨token, rfl, htoken⟩ := List.map_eq_singleton_iff.1 hwords
  obtain rfl : token.text = text := congrArg Word.text htoken
  exact .string (congrArg Word.kind htoken) trivial

theorem boolean {value : Bool} : (Expr.boolean mark value).Sayable := by
  intro room tokens _ _ hwords
  obtain ⟨token, rfl, htoken⟩ := List.map_eq_singleton_iff.1 hwords
  cases value with
  | true => exact .trueWord (kind_of_fixed htoken) trivial
  | false => exact .falseWord (kind_of_fixed htoken) trivial

theorem null : (Expr.null mark).Sayable := by
  intro room tokens _ _ hwords
  obtain ⟨token, rfl, htoken⟩ := List.map_eq_singleton_iff.1 hwords
  exact .nullWord (kind_of_fixed htoken) trivial

theorem list (hitems : Expr.AllSayable items) : (Expr.list mark items).Sayable := by
  intro room tokens hwritable hroom hwords
  obtain ⟨opening, inside, closing, rfl, hopening, hinside, hclosing⟩ := enclosed_of_words hwords
  exact .list hopening (hitems hwritable hroom hinside) hclosing trivial

theorem parenthesized (he : e.Sayable) : (Expr.parenthesized mark e).Sayable := by
  intro room tokens hwritable hroom hwords
  obtain ⟨opening, inside, closing, rfl, hopening, hinside, hclosing⟩ := enclosed_of_words hwords
  obtain ⟨room, rfl, hinner⟩ := inner_of_le hroom
  exact .parenthesized hopening (he hwritable hinner hinside) hclosing trivial

theorem unary {op : UnaryOp} (he : e.Sayable) : (Expr.unary mark op e).Sayable := by
  intro room tokens hwritable hroom hwords
  obtain ⟨operator, _, rfl, hoperator, hwords⟩ := fixed_of_words hwords
  obtain ⟨room, rfl, hinner⟩ := inner_of_le hroom
  exact .unary hoperator (he hwritable hinner hwords) trivial

theorem binary {op : BinaryOp} (hleft : left.Sayable) (hright : right.Sayable) :
    (Expr.binary mark op left right).Sayable := by
  intro room tokens hwritable hroom hwords
  obtain ⟨tokens, _, rfl, hsaid, hwords⟩ := List.map_eq_append_iff.1 hwords
  obtain ⟨operator, others, rfl, hoperator, hothers⟩ := fixed_of_words hwords
  rw [Expr.isWritable, Bool.and_eq_true] at hwritable
  rw [Expr.nesting, Nat.max_le] at hroom
  exact .binary hoperator (hleft hwritable.1 hroom.1 hsaid) (hright hwritable.2 hroom.2 hothers)
    trivial

theorem comparison {op : ComparisonOp} (hleft : left.Sayable) (hright : right.Sayable) :
    (Expr.comparison mark op left right).Sayable := by
  intro room tokens hwritable hroom hwords
  obtain ⟨tokens, _, rfl, hsaid, hwords⟩ := List.map_eq_append_iff.1 hwords
  obtain ⟨operator, others, rfl, hoperator, hothers⟩ := fixed_of_words hwords
  rw [Expr.isWritable, Bool.and_eq_true] at hwritable
  rw [Expr.nesting, Nat.max_le] at hroom
  exact .comparison hoperator (hleft hwritable.1 hroom.1 hsaid)
    (hright hwritable.2 hroom.2 hothers) trivial

/-- The right side of an equality is one level deeper. -/
theorem equality {op : EqualityOp} (hleft : left.Sayable) (hright : right.Sayable) :
    (Expr.equality mark op left right).Sayable := by
  intro room tokens hwritable hroom hwords
  obtain ⟨tokens, _, rfl, hsaid, hwords⟩ := List.map_eq_append_iff.1 hwords
  obtain ⟨operator, others, rfl, hoperator, hothers⟩ := fixed_of_words hwords
  rw [Expr.isWritable, Bool.and_eq_true] at hwritable
  rw [Expr.nesting, Nat.max_le] at hroom
  obtain ⟨hbefore, hroom⟩ := hroom
  obtain ⟨room, rfl, hinner⟩ := inner_of_le hroom
  exact .equality hoperator (hleft hwritable.1 hbefore hsaid)
    (hright hwritable.2 hinner hothers) trivial

theorem call {name : String} (hargs : Expr.AllSayable items) :
    (Expr.call mark name items).Sayable := by
  intro room tokens hwritable hroom hwords
  obtain ⟨callee, _, rfl, hrest, hkind, rfl⟩ := name_of_words hwords
  obtain ⟨opening, inside, closing, rfl, hopening, hinside, hclosing⟩ := enclosed_of_words hrest
  rw [Expr.isWritable, Bool.and_eq_true] at hwritable
  exact .call hkind hopening (hargs hwritable.2 hroom hinside) hclosing trivial

end Expr.Sayable

theorem Expr.AllSayable.nil : Expr.AllSayable ([] : List (Expr α)) := by
  intro room tokens _ _ hwords
  obtain rfl := List.map_eq_nil_iff.1 hwords
  exact .nil

theorem Expr.AllSayable.cons {e : Expr α} {rest : List (Expr α)} (he : e.Sayable)
    (hrest : Expr.AllSayable rest) : Expr.AllSayable (e :: rest) := by
  intro room tokens hwritable hroom hwords
  obtain ⟨first, others, rfl, hfirst, hwords⟩ := List.map_eq_append_iff.1 hwords
  rw [Expr.areWritable, Bool.and_eq_true] at hwritable
  rw [Expr.nestingAll, Nat.max_le] at hroom
  obtain ⟨hroom, hothers⟩ := hroom
  obtain ⟨room, rfl, hinner⟩ := inner_of_le hroom
  have he := he hwritable.1 hinner hfirst
  cases rest with
  | nil =>
    obtain rfl := List.map_eq_nil_iff.1 hwords
    rw [List.append_nil]
    exact .single he
  | cons next rest =>
    obtain ⟨comma, more, rfl, hcomma, hwords⟩ := fixed_of_words hwords
    exact .cons he hcomma (hrest hwritable.2 hothers hwords)

mutual

theorem Expr.sayable : (e : Expr α) → e.Sayable
  | .identifier .. => .identifier
  | .integer .. => .integer
  | .string .. => .string
  | .boolean .. => .boolean
  | .null _ => .null
  | .list _ items => .list (Expr.allSayable items)
  | .parenthesized _ e => .parenthesized e.sayable
  | .unary _ _ e => .unary e.sayable
  | .binary _ _ left right => .binary left.sayable right.sayable
  | .comparison _ _ left right => .comparison left.sayable right.sayable
  | .equality _ _ left right => .equality left.sayable right.sayable
  | .call _ _ args => .call (Expr.allSayable args)
  | .broken .. => fun _ _ hwritable => by cases hwritable

theorem Expr.allSayable : (items : List (Expr α)) → Expr.AllSayable items
  | [] => .nil
  | e :: rest => .cons e.sayable (Expr.allSayable rest)

end
end Expressions

section Statements

def Stmt.Sayable (chained : Bool) (s : Stmt α) : Prop :=
  ∀ ⦃room : Nat⦄ ⦃inFunction : Bool⦄ ⦃tokens : List Token⦄, s.isWritable inFunction = true →
    s.nesting chained ≤ room → tokens.map Token.word = s.words chained →
    s.Spelled AnyMark room inFunction tokens

def Stmt.AllSayable (chained : Bool) (body : List (Stmt α)) : Prop :=
  ∀ ⦃room : Nat⦄ ⦃inFunction : Bool⦄ ⦃tokens : List Token⦄,
    Stmt.areWritable inFunction body = true → Stmt.nestingAll chained body ≤ room →
    tokens.map Token.word = Stmt.wordsAll chained body →
    Stmt.SpelledAll AnyMark room inFunction body tokens

variable {chained inFunction : Bool} {mark : α} {e : Expr α} {body other : List (Stmt α)}
  {room : Nat} {tokens : List Token} {name : String}

theorem Stmt.AllSayable.block (hbody : Stmt.AllSayable chained body)
    (hwritable : Stmt.areWritable inFunction body = true)
    (hroom : Stmt.nestingAll chained body + 1 ≤ room)
    (hwords : tokens.map Token.word = braced (Stmt.wordsAll chained body)) :
    Stmt.SpelledBlock AnyMark room inFunction body tokens := by
  obtain ⟨opening, inside, closing, rfl, hopening, hinside, hclosing⟩ := enclosed_of_words hwords
  obtain ⟨room, rfl, hinner⟩ := inner_of_le hroom
  exact .braces hopening (hbody hwritable hinner hinside) hclosing

/-- An `if` alone is spelled as the statement it is. -/
theorem lone_if_spelled (h : Stmt.SpelledAll AnyMark room inFunction body tokens)
    (hlone : isLoneIf body = true) : ∃ s next others, body = [s] ∧ tokens = next :: others ∧
      next.kind = .ifWord ∧ s.Spelled AnyMark room inFunction (next :: others) := by
  match body, h with
  | [s], .cons hs .nil =>
    obtain ⟨next, others, rfl, hnext⟩ := hs.start
    refine ⟨s, next, others, rfl, List.append_nil _, ?_, hs⟩
    rw [hnext]
    exact of_decide_eq_true hlone

namespace Stmt.Sayable

theorem declaration {declared : Option Ty} :
    (Stmt.declaration mark name declared e).Sayable chained := by
  intro room inFunction tokens hwritable hroom hwords
  obtain ⟨start, _, rfl, hstart, hwords⟩ := fixed_of_words hwords
  obtain ⟨target, _, rfl, hrest, hkind, rfl⟩ := name_of_words hwords
  obtain ⟨types, _, rfl, htypes, hwords⟩ := List.map_eq_append_iff.1 hrest
  obtain ⟨equal, _, rfl, hequal, hvalue⟩ := fixed_of_words hwords
  obtain ⟨room, rfl, hinner⟩ := inner_of_le hroom
  rw [Stmt.isWritable, Bool.and_eq_true, Bool.and_eq_true] at hwritable
  exact .declaration hstart hkind (annotates_of_words hwritable.1.2 htypes) hequal
    (e.sayable hwritable.2 hinner hvalue) trivial

theorem assignment : (Stmt.assignment mark name e).Sayable chained := by
  intro room inFunction tokens hwritable hroom hwords
  obtain ⟨target, _, rfl, hrest, hkind, rfl⟩ := name_of_words hwords
  obtain ⟨equal, _, rfl, hequal, hvalue⟩ := fixed_of_words hrest
  obtain ⟨room, rfl, hinner⟩ := inner_of_le hroom
  rw [Stmt.isWritable, Bool.and_eq_true] at hwritable
  exact .assignment hkind hequal (e.sayable hwritable.2 hinner hvalue) trivial

theorem function {params : List Parameter} {returns : Ty} (hbody : Stmt.AllSayable chained body) :
    (Stmt.function mark name params returns body).Sayable chained := by
  intro room inFunction tokens hwritable hroom hwords
  obtain ⟨start, _, rfl, hstart, hwords⟩ := fixed_of_words hwords
  obtain ⟨callee, _, rfl, hrest, hkind, rfl⟩ := name_of_words hwords
  obtain ⟨opening, _, rfl, hopening, hwords⟩ := fixed_of_words hrest
  obtain ⟨inside, _, rfl, hinside, hwords⟩ := List.map_eq_append_iff.1 hwords
  obtain ⟨closing, _, rfl, hclosing, hwords⟩ := fixed_of_words hwords
  obtain ⟨types, _, rfl, htypes, hblock⟩ := List.map_eq_append_iff.1 hwords
  rw [Stmt.isWritable, Bool.and_eq_true, Bool.and_eq_true, Bool.and_eq_true] at hwritable
  obtain ⟨⟨⟨-, hparams⟩, hreturns⟩, hwritable⟩ := hwritable
  have hparams : Separated Parameter.Spelled params inside :=
    separated_of_listed (fun param hmem tokens => Parameter.spelled_of_words
      (Bool.and_eq_true_iff.1 (List.all_eq_true.1 hparams param hmem)).2) hinside
  have hblock := hbody.block hwritable hroom hblock
  -- A function that returns nothing has no annotation.
  by_cases hvoid : returns = .void
  · subst hvoid
    exact .function hstart hkind hopening hparams hclosing (annotates_of_words rfl htypes) hblock
      trivial
  · rw [if_neg hvoid] at htypes
    have hnamed : returns.isNamed = true := by simpa [hvoid] using hreturns
    have htypes : Annotates (some returns) types := annotates_of_words hnamed htypes
    exact .function hstart hkind hopening hparams hclosing htypes hblock trivial

theorem ifThen (hbody : Stmt.AllSayable chained body) :
    (Stmt.ifThen mark e body).Sayable chained := by
  intro room inFunction tokens hwritable hroom hwords
  obtain ⟨start, _, rfl, hstart, hwords⟩ := fixed_of_words hwords
  obtain ⟨opening, _, rfl, hopening, hwords⟩ := fixed_of_words hwords
  obtain ⟨inside, _, rfl, hcondition, hwords⟩ := List.map_eq_append_iff.1 hwords
  obtain ⟨closing, _, rfl, hclosing, hblock⟩ := fixed_of_words hwords
  rw [Stmt.isWritable, Bool.and_eq_true] at hwritable
  rw [Stmt.nesting, Nat.max_le] at hroom
  obtain ⟨hlevels, hlevelsBody⟩ := hroom
  have hblock := hbody.block hwritable.2 hlevelsBody hblock
  obtain ⟨room, rfl, hinner⟩ := inner_of_le hlevels
  exact .ifThen hstart hopening (e.sayable hwritable.1 hinner hcondition) hclosing hblock trivial

theorem ifThenElse (hbody : Stmt.AllSayable chained body) (hother : Stmt.AllSayable chained other) :
    (Stmt.ifThenElse mark e body other).Sayable chained := by
  intro room inFunction tokens hwritable hroom hwords
  obtain ⟨start, _, rfl, hstart, hwords⟩ := fixed_of_words hwords
  obtain ⟨opening, _, rfl, hopening, hwords⟩ := fixed_of_words hwords
  obtain ⟨inside, _, rfl, hcondition, hwords⟩ := List.map_eq_append_iff.1 hwords
  obtain ⟨closing, _, rfl, hclosing, hwords⟩ := fixed_of_words hwords
  obtain ⟨block, _, rfl, hblock, hwords⟩ := List.map_eq_append_iff.1 hwords
  obtain ⟨elseToken, _, rfl, helseToken, helse⟩ := fixed_of_words hwords
  rw [Stmt.isWritable, Bool.and_eq_true, Bool.and_eq_true] at hwritable
  rw [Stmt.nesting, Nat.max_le, Nat.max_le] at hroom
  obtain ⟨⟨hlevels, hlevelsThen⟩, hlevelsElse⟩ := hroom
  have hblock := hbody.block hwritable.1.2 hlevelsThen hblock
  obtain ⟨room, rfl, hinner⟩ := inner_of_le hlevels
  have hcondition := e.sayable hwritable.1.1 hinner hcondition
  split at helse
  · next hlone =>
    -- The `if` after `else` stands there without braces, at the level of this statement.
    rw [if_pos hlone] at hlevelsElse
    obtain ⟨s, next, others, rfl, rfl, hnext, hs⟩ :=
      lone_if_spelled (hother hwritable.2 hlevelsElse helse) (Bool.and_eq_true_iff.1 hlone).2
    exact .elseIf hstart hopening hcondition hclosing hblock helseToken hnext hs trivial
  · next hlone =>
    rw [if_neg hlone] at hlevelsElse
    exact .ifThenElse hstart hopening hcondition hclosing hblock helseToken
      (hother.block hwritable.2 hlevelsElse helse) trivial

theorem loop (hbody : Stmt.AllSayable chained body) :
    (Stmt.loop mark name e body).Sayable chained := by
  intro room inFunction tokens hwritable hroom hwords
  obtain ⟨start, _, rfl, hstart, hwords⟩ := fixed_of_words hwords
  obtain ⟨opening, _, rfl, hopening, hwords⟩ := fixed_of_words hwords
  obtain ⟨item, _, rfl, hrest, hkind, rfl⟩ := name_of_words hwords
  obtain ⟨inWord, _, rfl, hin, hwords⟩ := fixed_of_words hrest
  obtain ⟨inside, _, rfl, hiterable, hwords⟩ := List.map_eq_append_iff.1 hwords
  obtain ⟨closing, _, rfl, hclosing, hblock⟩ := fixed_of_words hwords
  rw [Stmt.isWritable, Bool.and_eq_true, Bool.and_eq_true] at hwritable
  rw [Stmt.nesting, Nat.max_le] at hroom
  obtain ⟨hlevels, hlevelsBody⟩ := hroom
  have hblock := hbody.block hwritable.2 hlevelsBody hblock
  obtain ⟨room, rfl, hinner⟩ := inner_of_le hlevels
  exact .loop hstart hopening hkind hin (e.sayable hwritable.1.2 hinner hiterable) hclosing hblock
    trivial

theorem print : (Stmt.print mark e).Sayable chained := by
  intro room inFunction tokens hwritable hroom hwords
  obtain ⟨start, _, rfl, hstart, hwords⟩ := fixed_of_words hwords
  obtain ⟨opening, inside, closing, rfl, hopening, hinside, hclosing⟩ := enclosed_of_words hwords
  obtain ⟨room, rfl, hinner⟩ := inner_of_le hroom
  exact .print hstart hopening (e.sayable hwritable hinner hinside) hclosing trivial

theorem call : (Stmt.call mark e).Sayable chained := by
  intro room inFunction tokens hwritable hroom hwords
  rw [Stmt.isWritable, Bool.and_eq_true] at hwritable
  have hvalue := e.sayable hwritable.2 hroom hwords
  cases e with
  | call _ name args => exact .call hvalue trivial
  | _ => cases hwritable.1

theorem leave : (Stmt.returning mark none).Sayable chained := by
  intro room inFunction tokens hwritable hroom hwords
  obtain ⟨start, rfl, hstart⟩ := List.map_eq_singleton_iff.1 hwords
  obtain rfl : inFunction = true := hwritable
  exact .bareReturn (kind_of_fixed hstart) trivial

theorem returning : (Stmt.returning mark (some e)).Sayable chained := by
  intro room inFunction tokens hwritable hroom hwords
  obtain ⟨start, _, rfl, hstart, hvalue⟩ := fixed_of_words hwords
  obtain ⟨room, rfl, hinner⟩ := inner_of_le hroom
  rw [Stmt.isWritable, Bool.and_eq_true] at hwritable
  obtain ⟨rfl, hwritable⟩ := hwritable
  exact .returning hstart (e.sayable hwritable hinner hvalue) trivial

end Stmt.Sayable

theorem Stmt.AllSayable.nil : Stmt.AllSayable chained ([] : List (Stmt α)) := by
  intro room inFunction tokens _ _ hwords
  obtain rfl := List.map_eq_nil_iff.1 hwords
  exact .nil

theorem Stmt.AllSayable.cons {s : Stmt α} {rest : List (Stmt α)} (hs : s.Sayable chained)
    (hrest : Stmt.AllSayable chained rest) : Stmt.AllSayable chained (s :: rest) := by
  intro room inFunction tokens hwritable hroom hwords
  obtain ⟨first, others, rfl, hfirst, hwords⟩ := List.map_eq_append_iff.1 hwords
  rw [Stmt.areWritable, Bool.and_eq_true] at hwritable
  rw [Stmt.nestingAll, Nat.max_le] at hroom
  exact .cons (hs hwritable.1 hroom.1 hfirst) (hrest hwritable.2 hroom.2 hwords)

mutual

theorem Stmt.sayable : (s : Stmt α) → s.Sayable chained
  | .declaration .. => .declaration
  | .assignment .. => .assignment
  | .function _ _ _ _ body => .function (Stmt.allSayable body)
  | .ifThen _ _ body => .ifThen (Stmt.allSayable body)
  | .ifThenElse _ _ body other => .ifThenElse (Stmt.allSayable body) (Stmt.allSayable other)
  | .loop _ _ _ body => .loop (Stmt.allSayable body)
  | .print .. => .print
  | .call .. => .call
  | .returning _ none => .leave
  | .returning _ (some _) => .returning
  | .broken .. | .bare _ => fun _ _ _ hwritable => by cases hwritable

theorem Stmt.allSayable : (body : List (Stmt α)) → Stmt.AllSayable chained body
  | [] => .nil
  | s :: rest => .cons s.sayable (Stmt.allSayable rest)

end
end Statements

/-- Tokens that say the words of a program spell it. -/
theorem Program.spelled_of_words {chained : Bool} {p : Program α} {tokens : List Token}
    (hwritable : p.isWritable = true) (hroom : p.nesting chained ≤ maxNesting)
    (hwords : tokens.map Token.word = p.words chained) : p.Spelled AnyMark tokens := by
  cases p with
  | expression _ body =>
    exact .expression (body.sayable hwritable (Nat.le_sub_one_of_lt hroom) hwords)
  | statements _ body => exact .statements (Stmt.allSayable body hwritable hroom hwords)

end CatScript
