import CatScript.Proofs.Grammar.Complete.Reader
import CatScript.Proofs.Grammar.Written.Expression
import CatScript.Proofs.Tree.Whole

/-! # What is written is read as an expression

An expression whose operators are grouped as they bind is read back from the tokens that spell it,
and nothing is reported.  How far a reader goes depends on what follows: `TokenKind.binding` says
how tightly a token hangs on to an expression before it, and a reader of one level stops at all that
binds less tightly than its operators. -/
set_option autoImplicit false
namespace CatScript
open Grammar Reader

variable {α : Type} {fits : α → List Token → Prop}

/-- How tightly a token hangs on to the expression before it: an opening parenthesis makes a name a
call, an operator makes it an operand of its level. -/
def TokenKind.binding : TokenKind → Nat
  | .leftParen => 5
  | .star | .slash => 4
  | .plus | .minus => 3
  | .less | .lessEqual | .greater | .greaterEqual => 2
  | .equalEqual | .bangEqual => 1
  | _ => 0

def TokenKind.opens : TokenKind → Bool
  | .identifier | .integer | .string | .trueWord | .falseWord | .nullWord | .notWord | .minus
  | .leftBracket | .leftParen => true
  | _ => false

theorem TokenKind.opens_of_unaryOp {kind : TokenKind} {op : UnaryOp} (h : unaryOp? kind = some op) :
    kind.opens = true := by
  cases kind <;> cases h <;> rfl

def Opens (tokens : List Token) : Prop :=
  ∃ token rest, tokens = token :: rest ∧ token.kind.opens = true

theorem Opens.append {tokens : List Token} (h : Opens tokens) (others : List Token) :
    Opens (tokens ++ others) := by
  obtain ⟨token, rest, rfl, hopens⟩ := h
  exact ⟨token, rest ++ others, rfl, hopens⟩

theorem Expr.Spelled.opens : ∀ {e : Expr α} {room : Nat} {tokens : List Token},
    e.Spelled fits room tokens → Opens tokens
  | _, _, _, .identifier hkind _ | _, _, _, .integer hkind _ _ | _, _, _, .string hkind _
  | _, _, _, .trueWord hkind _ | _, _, _, .falseWord hkind _ | _, _, _, .nullWord hkind _
  | _, _, _, .list hkind _ _ _ | _, _, _, .parenthesized hkind _ _ _
  | _, _, _, .call hkind _ _ _ _ => ⟨_, _, rfl, by rw [hkind]; rfl⟩
  | _, _, _, .unary hop _ _ =>
    ⟨_, _, rfl, TokenKind.opens_of_unaryOp (unaryOp?_eq_some.2 hop)⟩
  | _, _, _, .binary _ hleft _ _ | _, _, _, .comparison _ hleft _ _
  | _, _, _, .equality _ hleft _ _ => hleft.opens.append _

/-- What is read is the expression, apart from the marks, and nothing is reported. -/
def Expr.CleanCopy (e : Expr α) (read : Expr Mark) : Prop :=
  read.map (fun _ => ()) = e.map (fun _ => ()) ∧ Clean read.marks

/-- The reader reads the expression from the tokens and stops at what `follow` allows. -/
def Reads (reader : Reader (Expr Mark)) (follow : TokenKind → Prop) (e : Expr α)
    (tokens : List Token) : Prop :=
  ∀ next rest, follow next.kind → Gives reader (tokens ++ next :: rest) (next :: rest) e.CleanCopy

section Chains
variable {ω : Type} {op? : TokenKind → Option ω}
  {build : Mark → ω → Expr Mark → Expr Mark → Expr Mark} {operand : Reader (Expr Mark)}
  {level : Nat} {e left right : Expr α} {tokens others : List Token} {operator : Token} {op : ω}

/-- The expression is read from the tokens up to a point where the chain may still go on. -/
def Chained (op? : TokenKind → Option ω) (build : Mark → ω → Expr Mark → Expr Mark → Expr Mark)
    (operand : Reader (Expr Mark)) (level : Nat) (e : Expr α) (tokens : List Token) : Prop :=
  ∀ next rest, next.kind.binding ≤ level + 1 → ∀ cursor : Cursor,
    cursor.upcoming = tokens ++ next :: rest → ∃ bound read behind,
      (leftAssociative op? build operand).run cursor =
        (chain op? build operand bound read).run behind ∧
      behind.upcoming = next :: rest ∧ rest.length ≤ bound ∧ e.CleanCopy read

theorem chained_of_operand (h : Reads operand (·.binding ≤ level + 1) e tokens) :
    Chained op? build operand level e tokens := by
  intro next rest hnext cursor hcursor
  obtain ⟨hbehind, hread⟩ := h next rest hnext cursor hcursor
  refine ⟨(operand.run cursor).2.remaining, (operand.run cursor).1, (operand.run cursor).2, rfl,
    hbehind, ?_, hread⟩
  exact Nat.le_of_eq (congrArg List.length (Cursor.ahead_of_upcoming hbehind).2).symm

variable (hbinding : ∀ {kind op}, op? kind = some op → kind.binding = level + 1)
include hbinding

theorem chained_step (hleft : Chained op? build operand level left tokens)
    (hop : op? operator.kind = some op)
    (hright : Reads operand (·.binding ≤ level + 1) right others)
    (hcopy : ∀ mark read more, mark.errors = [] → left.CleanCopy read → right.CleanCopy more →
      e.CleanCopy (build mark op read more)) :
    Chained op? build operand level e (tokens ++ operator :: others) := by
  intro next rest hnext cursor hcursor
  rw [List.append_assoc, List.cons_append] at hcursor
  obtain ⟨bound, read, behind, hrun, hbehind, hbound, hread⟩ :=
    hleft operator (others ++ next :: rest) (Nat.le_of_eq (hbinding hop)) cursor hcursor
  cases bound with
  | zero => simp at hbound
  | succ bound =>
    obtain ⟨hcurrent, -⟩ := Cursor.ahead_of_upcoming hbehind
    have hnextUpcoming : behind.next.upcoming = others ++ next :: rest :=
      Gives.upcoming_next (by simp) hbehind
    obtain ⟨hlast, hmore⟩ := hright next rest hnext behind.next hnextUpcoming
    refine ⟨bound, build (joined read (operand.run behind.next).1) op read
      (operand.run behind.next).1, (operand.run behind.next).2, ?_, hlast, ?_,
      hcopy _ _ _ rfl hread hmore⟩
    · have hpeek : peek.run behind = (operator.kind, behind) := by rw [← hcurrent]; rfl
      rw [hrun, chain, StateT.run_bind, hpeek]
      show StateT.run _ behind = _
      rw [hop]
      rfl
    · simp only [List.length_append, List.length_cons] at hbound
      omega

theorem reads_of_chained (h : Chained op? build operand level e tokens) :
    Reads (leftAssociative op? build operand) (·.binding ≤ level) e tokens := by
  intro next rest hnext cursor hcursor
  obtain ⟨bound, read, behind, hrun, hbehind, -, hread⟩ :=
    h next rest (Nat.le_succ_of_le hnext) cursor hcursor
  have hnone : op? next.kind = none := by
    cases hop : op? next.kind with
    | none => rfl
    | some op =>
      have heq := hbinding hop
      omega
  have hstop : Gives (chain op? build operand bound read) (next :: rest) (next :: rest)
      (· = read) := by
    cases bound with
    | zero => exact .pure rfl
    | succ bound =>
      refine Gives.peek.step ?_
      rw [hnone]
      exact .pure rfl
  obtain ⟨houtput, heq⟩ := hstop behind hbehind
  rw [hrun, heq]
  exact ⟨houtput, hread⟩

end Chains

section Copies
variable {mark : Mark} {own : α} {left right : Expr α} {read more : Expr Mark}

theorem Expr.CleanCopy.parenthesized (herrors : mark.errors = []) (h : left.CleanCopy read) :
    (Expr.parenthesized own left).CleanCopy (.parenthesized mark read) := by
  refine ⟨?_, clean_cons.2 ⟨herrors, h.2⟩⟩
  rw [Expr.map, Expr.map, h.1]

theorem Expr.CleanCopy.unary {op : UnaryOp} (herrors : mark.errors = []) (h : left.CleanCopy read) :
    (Expr.unary own op left).CleanCopy (.unary mark op read) := by
  refine ⟨?_, clean_cons.2 ⟨herrors, h.2⟩⟩
  rw [Expr.map, Expr.map, h.1]

theorem Expr.CleanCopy.binary {op : BinaryOp} (herrors : mark.errors = [])
    (hleft : left.CleanCopy read) (hright : right.CleanCopy more) :
    (Expr.binary own op left right).CleanCopy (.binary mark op read more) := by
  refine ⟨?_, clean_cons.2 ⟨herrors, clean_append.2 ⟨hleft.2, hright.2⟩⟩⟩
  rw [Expr.map, Expr.map, hleft.1, hright.1]

theorem Expr.CleanCopy.comparison {op : ComparisonOp} (herrors : mark.errors = [])
    (hleft : left.CleanCopy read) (hright : right.CleanCopy more) :
    (Expr.comparison own op left right).CleanCopy (.comparison mark op read more) := by
  refine ⟨?_, clean_cons.2 ⟨herrors, clean_append.2 ⟨hleft.2, hright.2⟩⟩⟩
  rw [Expr.map, Expr.map, hleft.1, hright.1]

theorem Expr.CleanCopy.equality {op : EqualityOp} (herrors : mark.errors = [])
    (hleft : left.CleanCopy read) (hright : right.CleanCopy more) :
    (Expr.equality own op left right).CleanCopy (.equality mark op read more) := by
  refine ⟨?_, clean_cons.2 ⟨herrors, clean_append.2 ⟨hleft.2, hright.2⟩⟩⟩
  rw [Expr.map, Expr.map, hleft.1, hright.1]

theorem Expr.mapAll_of_copies {items : List (Expr α)} {reads : List (Expr Mark)}
    (h : List.Forall₂ Expr.CleanCopy items reads) :
    Expr.mapAll (fun _ => ()) reads = Expr.mapAll (fun _ => ()) items ∧
      Clean (Expr.marksAll reads) := by
  induction h with
  | nil => exact ⟨rfl, fun _ hmem => absurd hmem List.not_mem_nil⟩
  | cons he _ ih =>
    refine ⟨?_, clean_append.2 ⟨he.2, ih.2⟩⟩
    rw [Expr.mapAll, Expr.mapAll, he.1, ih.1]

theorem Expr.CleanCopy.list {items : List (Expr α)} {reads : List (Expr Mark)}
    (herrors : mark.errors = []) (h : List.Forall₂ Expr.CleanCopy items reads) :
    (Expr.list own items).CleanCopy (.list mark reads) := by
  obtain ⟨hmap, hclean⟩ := Expr.mapAll_of_copies h
  refine ⟨?_, clean_cons.2 ⟨herrors, hclean⟩⟩
  rw [Expr.map, Expr.map, hmap]

theorem Expr.CleanCopy.call {name : String} {args : List (Expr α)} {reads : List (Expr Mark)}
    (herrors : mark.errors = []) (h : List.Forall₂ Expr.CleanCopy args reads) :
    (Expr.call own name args).CleanCopy (.call mark name reads) := by
  obtain ⟨hmap, hclean⟩ := Expr.mapAll_of_copies h
  refine ⟨?_, clean_cons.2 ⟨herrors, hclean⟩⟩
  rw [Expr.map, Expr.map, hmap]

end Copies

section Levels
variable {nested : Nested} {e : Expr α} {tokens : List Token}

/-- How the readers of the levels read an expression from the tokens: each level that is not tighter
than the expression does. -/
structure Parsed (nested : Nested) (e : Expr α) (tokens : List Token) : Prop where
  unary : 4 ≤ e.level → Reads (unary nested) (·.binding ≤ 4) e tokens
  factor : 3 ≤ e.level → Chained factorOp? Expr.binary (Grammar.unary nested) 3 e tokens
  additive : 2 ≤ e.level → Chained additiveOp? Expr.binary (Grammar.factor nested) 2 e tokens
  comparison : 1 ≤ e.level →
    Chained comparisonOp? Expr.comparison (Grammar.additive nested) 1 e tokens
  equality : Reads (Grammar.equality nested) (·.binding ≤ 0) e tokens

theorem factor_binding {kind : TokenKind} {op : BinaryOp} (h : factorOp? kind = some op) :
    kind.binding = 3 + 1 := by
  cases kind <;> cases h <;> rfl

theorem additive_binding {kind : TokenKind} {op : BinaryOp} (h : additiveOp? kind = some op) :
    kind.binding = 2 + 1 := by
  cases kind <;> cases h <;> rfl

theorem factor_level {kind : TokenKind} {op : BinaryOp} (h : factorOp? kind = some op) :
    op.level = 3 := by
  cases kind <;> cases h <;> rfl

theorem additive_level {kind : TokenKind} {op : BinaryOp} (h : additiveOp? kind = some op) :
    op.level = 2 := by
  cases kind <;> cases h <;> rfl

theorem comparison_binding {kind : TokenKind} {op : ComparisonOp}
    (h : comparisonOp? kind = some op) : kind.binding = 1 + 1 := by
  cases kind <;> cases h <;> rfl

theorem equality_binding {kind : TokenKind} {op : EqualityOp} (h : equalityOp? kind = some op) :
    kind.binding = 0 + 1 := by
  cases kind <;> cases h <;> rfl

theorem reads_equality
    (h : Chained comparisonOp? Expr.comparison (Grammar.additive nested) 1 e tokens) :
    Reads (Grammar.equality nested) (·.binding ≤ 0) e tokens := by
  intro next rest hnext
  refine (reads_of_chained comparison_binding h next rest (Nat.le_succ_of_le hnext)).bind
    fun read hread => Gives.peek.step ?_
  have hnone : equalityOp? next.kind = none := by
    cases hop : equalityOp? next.kind with
    | none => rfl
    | some op =>
      have heq := equality_binding hop
      omega
  rw [hnone]
  exact .pure hread

theorem Parsed.of_comparison (hlevel : e.level ≤ 1)
    (h : Chained comparisonOp? Expr.comparison (Grammar.additive nested) 1 e tokens) :
    Parsed nested e tokens :=
  ⟨fun _ => by omega, fun _ => by omega, fun _ => by omega, fun _ => h, reads_equality h⟩

theorem Parsed.of_additive (hlevel : e.level ≤ 2)
    (h : Chained additiveOp? Expr.binary (Grammar.factor nested) 2 e tokens) :
    Parsed nested e tokens := by
  have hcomparison : Chained comparisonOp? Expr.comparison (Grammar.additive nested) 1 e tokens :=
    chained_of_operand (reads_of_chained additive_binding h)
  exact ⟨fun _ => by omega, fun _ => by omega, fun _ => h, fun _ => hcomparison,
    reads_equality hcomparison⟩

theorem Parsed.of_factor (hlevel : e.level ≤ 3)
    (h : Chained factorOp? Expr.binary (Grammar.unary nested) 3 e tokens) :
    Parsed nested e tokens := by
  have hadditive : Chained additiveOp? Expr.binary (Grammar.factor nested) 2 e tokens :=
    chained_of_operand (reads_of_chained factor_binding h)
  have hcomparison : Chained comparisonOp? Expr.comparison (Grammar.additive nested) 1 e tokens :=
    chained_of_operand (reads_of_chained additive_binding hadditive)
  exact ⟨fun _ => by omega, fun _ => h, fun _ => hadditive, fun _ => hcomparison,
    reads_equality hcomparison⟩

theorem Parsed.of_unary (h : Reads (Grammar.unary nested) (·.binding ≤ 4) e tokens) :
    Parsed nested e tokens := by
  have hfactor : Chained factorOp? Expr.binary (Grammar.unary nested) 3 e tokens :=
    chained_of_operand h
  have hadditive : Chained additiveOp? Expr.binary (Grammar.factor nested) 2 e tokens :=
    chained_of_operand (reads_of_chained factor_binding hfactor)
  have hcomparison : Chained comparisonOp? Expr.comparison (Grammar.additive nested) 1 e tokens :=
    chained_of_operand (reads_of_chained additive_binding hadditive)
  exact ⟨fun _ => h, fun _ => hfactor, fun _ => hadditive, fun _ => hcomparison,
    reads_equality hcomparison⟩

theorem Parsed.of_equality (hlevel : e.level = 0)
    (h : Reads (Grammar.equality nested) (·.binding ≤ 0) e tokens) : Parsed nested e tokens :=
  ⟨fun _ => by omega, fun _ => by omega, fun _ => by omega, fun _ => by omega, h⟩

theorem Parsed.of_primary {token : Token} {rest : List Token} (hfirst : unaryOp? token.kind = none)
    (h : Reads (Grammar.primary nested) (·.binding ≤ 4) e (token :: rest)) :
    Parsed nested e (token :: rest) := by
  refine .of_unary fun next behind hnext => Gives.peek.step ?_
  rw [hfirst]
  exact h next behind hnext

end Levels

section Parts
variable {nested : Nested} {own : α} {items : List (Expr α)} {tokens rest : List Token}
  {opening closing : Token}

theorem parts_read (h : Separated (Reads nested.expression (·.binding ≤ 0)) items tokens)
    (hne : items ≠ []) (hclosing : closing.kind ≠ .comma) (hbinding : closing.kind.binding ≤ 0)
    (bound : Nat) (hbound : bound + 1 = (tokens ++ closing :: rest).length) :
    Gives (separated nested.expression bound) (tokens ++ closing :: rest) (closing :: rest)
      (List.Forall₂ Expr.CleanCopy items) := by
  have hlength := length_le_of_separated h
  simp only [List.length_append, List.length_cons] at hbound
  refine .separated h hne hclosing (fun e _ tokens follow rest he hfollow => ?_) bound (by omega)
  refine he follow rest ?_
  rcases hfollow with rfl | hfollow
  · exact hbinding
  · rw [hfollow]
    exact Nat.le_refl 0

theorem list_read (h : Separated (Reads nested.expression (·.binding ≤ 0)) items tokens)
    (hopens : items ≠ [] → Opens tokens) (hclosing : closing.kind = .rightBracket)
    (hrest : rest ≠ []) :
    Gives (Grammar.list nested opening) (tokens ++ closing :: rest) rest
      (Expr.list own items).CleanCopy := by
  have hclose : ∀ reads : List (Expr Mark), List.Forall₂ Expr.CleanCopy items reads →
      Gives (do
        let errors ← if ← accept .rightBracket then pure []
          else pure [⟨.unterminatedList, (← current).span⟩]
        return .list ⟨← spanFrom opening.span, errors⟩ reads) (closing :: rest) rest
        (Expr.list own items).CleanCopy := by
    intro reads hreads
    refine (Gives.accept hrest hclosing).step (Gives.step (.pure rfl) ?_)
    exact Gives.spanFrom.bind fun span _ => .pure (.list rfl hreads)
  by_cases hne : items = []
  · subst hne
    cases h
    refine Gives.peek.step ?_
    rw [if_pos hclosing]
    exact Gives.step (.pure rfl) (hclose [] .nil)
  · obtain ⟨token, others, rfl, htoken⟩ := hopens hne
    refine Gives.peek.step ?_
    rw [if_neg (by intro hkind; rw [hkind] at htoken; cases htoken)]
    refine Gives.remaining.bind fun bound hbound => ?_
    refine (parts_read h hne (by rw [hclosing]; decide) (by rw [hclosing]; decide) bound
      hbound).bind fun reads hreads => ?_
    exact hclose reads hreads

theorem call_read (own : α) {name : Token}
    (h : Separated (Reads nested.expression (·.binding ≤ 0)) items tokens)
    (hopens : items ≠ [] → Opens tokens) (hopening : opening.kind = .leftParen)
    (hclosing : closing.kind = .rightParen) (hrest : rest ≠ []) :
    Gives (Grammar.call nested name) (opening :: (tokens ++ closing :: rest)) rest
      (Expr.call own name.text items).CleanCopy := by
  have hclose : ∀ reads : List (Expr Mark), List.Forall₂ Expr.CleanCopy items reads →
      Gives (do return .call ⟨← spanFrom name.span, []⟩ name.text reads) rest rest
        (Expr.call own name.text items).CleanCopy := fun reads hreads =>
    Gives.spanFrom.bind fun span _ => .pure (.call rfl hreads)
  refine (Gives.require (by simp) hopening).step ?_
  dsimp only
  rw [if_pos hopening]
  by_cases hne : items = []
  · subst hne
    cases h
    exact (Gives.accept hrest hclosing).step (hclose [] .nil)
  · obtain ⟨token, others, rfl, htoken⟩ := hopens hne
    refine (Gives.refuse (by intro hkind; rw [hkind] at htoken; cases htoken)).step ?_
    refine Gives.remaining.bind fun bound hbound => ?_
    refine (parts_read h hne (by rw [hclosing]; decide) (by rw [hclosing]; decide) bound
      hbound).bind fun reads hreads => ?_
    exact (Gives.accept hrest hclosing).step (hclose reads hreads)

theorem opens_of_spelledAll {room : Nat} (h : Expr.SpelledAll fits room items tokens)
    (hne : items ≠ []) : Opens tokens := by
  cases h with
  | nil => exact absurd rfl hne
  | single he => exact he.opens
  | cons he hcomma hrest => exact he.opens.append _

end Parts

theorem Expr.CleanCopy.leaf {e : Expr α} {copy : Expr Mark} {token : Token}
    (hmap : copy.map (fun _ => ()) = e.map (fun _ => ()))
    (hmarks : copy.marks = [⟨token.span, []⟩]) : e.CleanCopy copy := by
  refine ⟨hmap, ?_⟩
  rw [hmarks]
  exact clean_cons.2 ⟨rfl, fun _ hmem => absurd hmem List.not_mem_nil⟩

mutual

/-- An expression that is grouped is read from the tokens that spell it. -/
theorem Expr.Spelled.parsed : ∀ {e : Expr α} {room : Nat} {tokens : List Token},
    e.Spelled fits room tokens → e.grouped = true → Parsed (Nested.ofRoom room) e tokens
  | _, _, _, .identifier hkind _, _ => by
    refine .of_primary (by rw [hkind]; rfl) fun next rest hnext => (Gives.take (by simp)).step ?_
    rw [hkind]
    refine Gives.peek.step ?_
    rw [if_neg (by intro hparen; rw [hparen] at hnext; exact absurd hnext (by decide))]
    exact .pure (.leaf rfl rfl)
  | _, _, _, .integer hkind hvalue _, _ => by
    refine .of_primary (by rw [hkind]; rfl) fun next rest hnext => (Gives.take (by simp)).step ?_
    rw [hkind]
    dsimp only
    rw [integer?_eq_some.2 hvalue]
    exact .pure (.leaf rfl rfl)
  | _, _, _, .string hkind _, _ => by
    refine .of_primary (by rw [hkind]; rfl) fun next rest hnext => (Gives.take (by simp)).step ?_
    rw [hkind]
    exact .pure (.leaf rfl rfl)
  | _, _, _, .trueWord hkind _, _ => by
    refine .of_primary (by rw [hkind]; rfl) fun next rest hnext => (Gives.take (by simp)).step ?_
    rw [hkind]
    exact .pure (.leaf rfl rfl)
  | _, _, _, .falseWord hkind _, _ => by
    refine .of_primary (by rw [hkind]; rfl) fun next rest hnext => (Gives.take (by simp)).step ?_
    rw [hkind]
    exact .pure (.leaf rfl rfl)
  | _, _, _, .nullWord hkind _, _ => by
    refine .of_primary (by rw [hkind]; rfl) fun next rest hnext => (Gives.take (by simp)).step ?_
    rw [hkind]
    exact .pure (.leaf rfl rfl)
  | _, _, _, .list hopening hitems hclosing _, hgrouped => by
    refine .of_primary (by rw [hopening]; rfl) fun next rest _ => ?_
    rw [List.cons_append, List.append_assoc]
    refine (Gives.take (by simp)).step ?_
    rw [hopening]
    exact list_read (hitems.parsed hgrouped) (opens_of_spelledAll hitems) hclosing (by simp)
  | _, _, _, .parenthesized hopening hinner hclosing _, hgrouped => by
    refine .of_primary (by rw [hopening]; rfl) fun next rest _ => ?_
    rw [List.cons_append, List.append_assoc]
    refine (Gives.take (by simp)).step ?_
    rw [hopening]
    refine ((hinner.parsed hgrouped).equality _ (next :: rest) (by rw [hclosing]; decide)).bind
      fun read hread => (Gives.require (by simp) hclosing).step ?_
    exact Gives.spanFrom.bind fun span _ => .pure (.parenthesized rfl hread)
  | _, _, _, .unary hop hoperand _, hgrouped => by
    obtain ⟨hlevel, hgrouped⟩ := Expr.grouped_unary.1 hgrouped
    refine .of_unary fun next rest hnext => Gives.peek.step ?_
    rw [unaryOp?_eq_some.2 hop]
    refine (Gives.take (by simp)).step ?_
    refine ((hoperand.parsed hgrouped).unary hlevel next rest hnext).bind fun read hread => ?_
    exact .pure (.unary rfl hread)
  | .binary _ op _ _, _, _, .binary hop hleft hright _, hgrouped => by
    obtain ⟨⟨hlevel, hgrouped⟩, hlevel', hgrouped'⟩ := Expr.grouped_binary.1 hgrouped
    rcases binaryOp?_eq_some.2 hop with hop | hop
    · have hop2 : op.level = 2 := additive_level hop
      rw [hop2] at hlevel hlevel'
      have hright := reads_of_chained factor_binding ((hright.parsed hgrouped').factor hlevel')
      refine .of_additive (Nat.le_of_eq hop2) ?_
      exact chained_step additive_binding ((hleft.parsed hgrouped).additive hlevel) hop hright
        fun mark read more => .binary
    · have hop3 : op.level = 3 := factor_level hop
      rw [hop3] at hlevel hlevel'
      refine .of_factor (Nat.le_of_eq hop3) ?_
      exact chained_step factor_binding ((hleft.parsed hgrouped).factor hlevel) hop
        ((hright.parsed hgrouped').unary hlevel') fun mark read more => .binary
  | _, _, _, .comparison hkind hleft hright _, hgrouped => by
    have hop := comparisonOp?_eq_some.2 hkind
    obtain ⟨⟨hlevel, hgrouped⟩, hlevel', hgrouped'⟩ := Expr.grouped_comparison.1 hgrouped
    have hright := reads_of_chained additive_binding ((hright.parsed hgrouped').additive hlevel')
    refine .of_comparison (Nat.le_refl 1) ?_
    exact chained_step comparison_binding ((hleft.parsed hgrouped).comparison hlevel) hop hright
      fun mark read more => .comparison
  | _, _, _, .equality hkind hleft hright _, hgrouped => by
    have hop := equalityOp?_eq_some.2 hkind
    obtain ⟨⟨hlevel, hgrouped⟩, hgrouped'⟩ := Expr.grouped_equality.1 hgrouped
    refine .of_equality rfl fun next rest hnext => ?_
    rw [List.append_assoc]
    refine (reads_of_chained comparison_binding ((hleft.parsed hgrouped).comparison hlevel) _ _
      (Nat.le_of_eq (equality_binding hop))).bind fun read hread => Gives.peek.step ?_
    rw [hop]
    refine (Gives.take (by simp)).step ?_
    refine ((hright.parsed hgrouped').equality next rest hnext).bind fun more hmore => ?_
    exact .pure (.equality rfl hread hmore)
  | _, _, _, .call hname hopening hargs hclosing _, hgrouped => by
    refine .of_primary (by rw [hname]; rfl) fun next rest _ => ?_
    rw [List.cons_append, List.cons_append, List.append_assoc]
    refine (Gives.take (by simp)).step ?_
    rw [hname]
    refine Gives.peek.step ?_
    rw [if_pos hopening]
    exact call_read _ (hargs.parsed hgrouped) (opens_of_spelledAll hargs) hopening hclosing (by simp)

theorem Expr.SpelledAll.parsed : ∀ {items : List (Expr α)} {room : Nat} {tokens : List Token},
    Expr.SpelledAll fits room items tokens → Expr.groupedAll items = true →
    Separated (Reads (Nested.ofRoom room).expression (·.binding ≤ 0)) items tokens
  | _, _, _, .nil, _ => .nil
  | _, _, _, .single he, hgrouped => by
    rw [Expr.groupedAll, Bool.and_eq_true] at hgrouped
    exact .single (he.parsed hgrouped.1).equality
  | _, _, _, .cons he hcomma hrest, hgrouped => by
    rw [Expr.groupedAll, Bool.and_eq_true] at hgrouped
    exact .cons (he.parsed hgrouped.1).equality hcomma (hrest.parsed hgrouped.2)

end

theorem Expr.Spelled.read_nested {e : Expr α} {room : Nat} {tokens : List Token}
    (h : e.Spelled fits room tokens) (hgrouped : e.grouped = true) :
    Reads (Nested.ofRoom (room + 1)).expression (·.binding ≤ 0) e tokens :=
  (h.parsed hgrouped).equality

end CatScript
