import CatScript.Proofs.Grammar.Complete.Expression
import CatScript.Proofs.Grammar.Written.Statement

/-! # What is written is read as statements

Statements are read back from the tokens that spell them.  A statement shows by its first token what
it is; only a `return` without a value depends on what follows it: with a name after it, it would
read that name as its value. -/
set_option autoImplicit false
namespace CatScript
open Grammar Reader

variable {α : Type} {fits : α → List Token → Prop}

section Starts

def Stmt.startKind : Stmt α → TokenKind
  | .declaration .. => .varWord
  | .assignment .. | .call .. => .identifier
  | .function .. => .functionWord
  | .ifThen .. | .ifThenElse .. => .ifWord
  | .loop .. => .forWord
  | .print .. => .printWord
  | .returning .. => .returnWord
  | .broken .. | .bare _ => .error

def Stmt.isBareReturn : Stmt α → Bool
  | .returning _ none => true
  | _ => false

mutual

/-- Whether no `return` without a value in the statement has an assignment or a call after it. -/
def Stmt.settled : Stmt α → Bool
  | .function _ _ _ _ body | .ifThen _ _ body | .loop _ _ _ body => Stmt.settledAll body
  | .ifThenElse _ _ thenBody elseBody => Stmt.settledAll thenBody && Stmt.settledAll elseBody
  | .declaration .. | .assignment .. | .print .. | .call .. | .returning .. | .broken ..
  | .bare _ => true

def Stmt.settledAll : List (Stmt α) → Bool
  | [] => true
  | s :: rest =>
    !(s.isBareReturn && rest.head?.any (·.startKind = .identifier)) && s.settled &&
      Stmt.settledAll rest

end

/-- What may come after a statement: what ends a `return`, or a name where the statement is no
`return` without a value. -/
def Stmt.Follows (s : Stmt α) (kind : TokenKind) : Prop :=
  endsReturn kind = true ∨ kind = .identifier ∧ s.isBareReturn = false

variable {s : Stmt α} {kind : TokenKind}

theorem Stmt.Follows.binding (h : s.Follows kind) : kind.binding ≤ 0 := by
  rcases h with h | ⟨rfl, -⟩
  · cases kind <;> first | exact Nat.le_refl 0 | cases h
  · exact Nat.le_refl 0

theorem Stmt.Follows.ne_else (h : s.Follows kind) : kind ≠ .elseWord := by
  rintro rfl
  rcases h with h | ⟨h, -⟩ <;> cases h

theorem endsReturn_of_opens (h : kind.opens = true) : endsReturn kind = false := by
  cases kind <;> first | rfl | cases h

theorem endsReturn_of_endsBlock (h : endsBlock kind = true) : endsReturn kind = true := by
  cases kind <;> first | rfl | cases h

theorem isBareReturn_of_if (h : s.startKind = .ifWord) : s.isBareReturn = false := by
  cases s <;> first | rfl | cases h

theorem Stmt.Spelled.start {room : Nat} {inFunction : Bool} {tokens : List Token}
    (h : s.Spelled fits room inFunction tokens) :
    ∃ token rest, tokens = token :: rest ∧ token.kind = s.startKind := by
  cases h with
  | call hvalue _ =>
    cases hvalue with
    | call hname _ _ _ _ => exact ⟨_, _, rfl, hname⟩
  | declaration hstart _ _ _ _ _ | assignment hstart _ _ _ | function hstart _ _ _ _ _ _ _
  | ifThen hstart _ _ _ _ _ | ifThenElse hstart _ _ _ _ _ _ _ | elseIf hstart _ _ _ _ _ _ _ _
  | loop hstart _ _ _ _ _ _ _ | print hstart _ _ _ _ | bareReturn hstart _
  | returning hstart _ _ => exact ⟨_, _, rfl, hstart⟩

theorem Stmt.Spelled.peek {room : Nat} {inFunction : Bool} {tokens : List Token}
    (h : s.Spelled fits room inFunction tokens) (rest : List Token) :
    Gives peek (tokens ++ rest) (tokens ++ rest) (· = s.startKind) := by
  obtain ⟨first, more, rfl, hfirst⟩ := h.start
  rw [← hfirst]
  exact .peek

theorem Stmt.Spelled.startKind_eq {room : Nat} {inFunction : Bool} {token : Token}
    {tokens : List Token} (h : s.Spelled fits room inFunction (token :: tokens))
    (hkind : token.kind = kind) : s.startKind = kind := by
  obtain ⟨first, rest, heq, hfirst⟩ := h.start
  cases heq
  rw [← hfirst, hkind]

/-- A statement starts with a keyword that ends a `return`, or with a name. -/
theorem Stmt.Spelled.start_follows {room : Nat} {inFunction : Bool} {tokens : List Token}
    (h : s.Spelled fits room inFunction tokens) :
    (endsReturn s.startKind = true ∨ s.startKind = .identifier) ∧
      endsBlock s.startKind = false := by
  cases h <;> first | exact ⟨.inl rfl, rfl⟩ | exact ⟨.inr rfl, rfl⟩

end Starts

section Types
variable {next : Token} {rest tokens : List Token}

theorem typeExpression_read {ty : Ty} (h : ty.Spelled tokens) :
    ∀ {next : Token} {rest : List Token}, next.kind ≠ .less → ∀ bound, tokens.length ≤ bound →
      Gives (typeExpression bound) (tokens ++ next :: rest) (next :: rest) (· = (ty, [])) := by
  induction h with
  | name hkind hname =>
    intro next rest _ bound hbound
    obtain ⟨bound, rfl⟩ := Nat.exists_eq_add_of_le' hbound
    refine Gives.current.step ?_
    rw [if_neg (not_not_intro hkind)]
    refine (Gives.take (by simp)).step ?_
    rw [← Ty.ofName?_eq_some] at hname
    rw [if_neg (by intro htext; rw [htext] at hname; cases hname), hname]
    exact .pure rfl
  | anyList hkind htext =>
    intro next rest hnext bound hbound
    obtain ⟨bound, rfl⟩ := Nat.exists_eq_add_of_le' hbound
    refine Gives.current.step ?_
    rw [if_neg (not_not_intro hkind)]
    refine (Gives.take (by simp)).step ?_
    rw [if_pos htext]
    exact (Gives.refuse hnext).step (.pure rfl)
  | list hkind htext hopening _ hclosing ih =>
    intro next rest _ bound hbound
    obtain ⟨bound, rfl⟩ := Nat.exists_eq_add_of_le' (Nat.le_trans (Nat.le_add_left 1 _) hbound)
    simp only [List.length_cons, List.length_append, List.length_nil] at hbound
    rw [List.cons_append, List.cons_append, List.append_assoc]
    refine Gives.current.step ?_
    rw [if_neg (not_not_intro hkind)]
    refine (Gives.take (by simp)).step ?_
    rw [if_pos htext]
    refine (Gives.accept (by simp) hopening).step ?_
    refine (ih (by rw [hclosing]; decide) bound (by omega)).step ?_
    exact (Gives.require (by simp) hclosing).step (.pure rfl)

theorem typeAfterColon_read {ty? : Option Ty} (h : Annotates ty? tokens)
    (hcolon : next.kind ≠ .colon) (hless : next.kind ≠ .less) :
    Gives typeAfterColon? (tokens ++ next :: rest) (next :: rest) (· = (ty?, [])) := by
  cases h with
  | none => exact (Gives.refuse hcolon).step (.pure rfl)
  | some hkind hty =>
    rw [List.cons_append]
    refine (Gives.accept (by simp) hkind).step (Gives.remaining.bind fun bound hbound => ?_)
    simp only [List.length_append, List.length_cons] at hbound
    exact (typeExpression_read hty hless _ (by omega)).step (.pure rfl)

theorem parameter_read {param : Parameter} (h : param.Spelled tokens) (hcolon : next.kind ≠ .colon)
    (hless : next.kind ≠ .less) :
    Gives parameter (tokens ++ next :: rest) (next :: rest) (· = (param, [])) := by
  cases h with
  | named hname hty =>
    refine (Gives.require (by simp) hname).step ?_
    exact (typeAfterColon_read hty hcolon hless).step (.pure rfl)

theorem starts_of_separated {params : List Parameter}
    (h : Separated Parameter.Spelled params tokens) (hne : params ≠ []) :
    ∃ name others, tokens = name :: others ∧ name.kind = .identifier := by
  cases h with
  | nil => exact absurd rfl hne
  | single hparam =>
    cases hparam with
    | named hname _ => exact ⟨_, _, rfl, hname⟩
  | cons hparam _ _ =>
    cases hparam with
    | named hname _ => exact ⟨_, _, rfl, hname⟩

theorem parameters_read {params : List Parameter} (h : Separated Parameter.Spelled params tokens)
    (hnext : next.kind = .rightParen) :
    Gives parameters (tokens ++ next :: rest) (next :: rest) (· = (params, [])) := by
  by_cases hne : params = []
  · subst hne
    cases h
    refine Gives.peek.step ?_
    rw [if_pos hnext]
    exact .pure rfl
  · have hpeek :
        Gives peek (tokens ++ next :: rest) (tokens ++ next :: rest) (· = .identifier) := by
      obtain ⟨name, others, rfl, hname⟩ := starts_of_separated h hne
      rw [← hname]
      exact .peek
    refine hpeek.step ?_
    rw [if_neg (by decide)]
    refine Gives.remaining.bind fun bound hbound => ?_
    have hlength := length_le_of_separated h
    simp only [List.length_append, List.length_cons] at hbound
    have hitem : ∀ param ∈ params, ∀ (tokens : List Token) (follow : Token) (rest : List Token),
        param.Spelled tokens → follow = next ∨ follow.kind = .comma →
        Gives parameter (tokens ++ follow :: rest) (follow :: rest) (· = (param, [])) := by
      intro param _ tokens follow rest hparam hfollow
      have hkind : follow.kind = .rightParen ∨ follow.kind = .comma :=
        hfollow.imp_left fun heq => by rw [heq, hnext]
      refine parameter_read hparam ?_ ?_ <;>
        rcases hkind with hkind | hkind <;> rw [hkind] <;> decide
    refine (Gives.separated h hne (by rw [hnext]; decide) hitem bound (by omega)).bind
      fun read hread => .pure ?_
    have hread : read = params.map fun param => (param, []) := by
      rw [← List.forall₂_eq_eq_eq, List.forall₂_map_right_iff]
      exact hread.flip
    rw [hread, List.map_map, List.flatMap_map]
    exact Prod.ext (List.map_id params) (List.flatMap_eq_nil_iff.2 fun _ _ => rfl)

end Types

def Stmt.CleanCopy (s : Stmt α) (read : Stmt Mark) : Prop :=
  read.map (fun _ => ()) = s.map (fun _ => ()) ∧ Clean read.marks

theorem Stmt.mapAll_of_copies {body : List (Stmt α)} {reads : List (Stmt Mark)}
    (h : List.Forall₂ Stmt.CleanCopy body reads) :
    Stmt.mapAll (fun _ => ()) reads = Stmt.mapAll (fun _ => ()) body ∧
      Clean (Stmt.marksAll reads) := by
  induction h with
  | nil => exact ⟨rfl, fun _ hmem => absurd hmem List.not_mem_nil⟩
  | cons hs _ ih =>
    refine ⟨?_, clean_append.2 ⟨hs.2, ih.2⟩⟩
    rw [Stmt.mapAll, Stmt.mapAll, hs.1, ih.1]

def ReadsStmt (reader : Reader (Stmt Mark)) (s : Stmt α) (tokens : List Token) : Prop :=
  ∀ next rest, s.Follows next.kind →
    Gives reader (tokens ++ next :: rest) (next :: rest) s.CleanCopy

def ReadsBlock (reader : BlockReader) (body : List (Stmt α)) (tokens : List Token) : Prop :=
  ∀ rest, rest ≠ [] → Gives reader (tokens ++ rest) rest fun read =>
    read.2 = [] ∧ List.Forall₂ Stmt.CleanCopy body read.1

section Simple
variable {nested : Nested} {own : α} {value : Expr α} {tokens : List Token}
  (hvalue : Reads nested.expression (·.binding ≤ 0) value tokens)
include hvalue

theorem declaration_read {ty? : Option Ty} {start name equal : Token} {typed : List Token}
    (hname : name.kind = .identifier) (hty : Annotates ty? typed)
    (hequal : equal.kind = .equal) :
    ReadsStmt (Grammar.declaration nested) (.declaration own name.text ty? value)
      (start :: name :: (typed ++ equal :: tokens)) := by
  intro next rest hnext
  rw [List.cons_append, List.cons_append, List.append_assoc]
  refine (Gives.take (by simp)).step ((Gives.require (by simp) hname).step ?_)
  refine (typeAfterColon_read hty (by rw [hequal]; decide) (by rw [hequal]; decide)).step ?_
  refine (Gives.require (by simp) hequal).step ?_
  refine (hvalue next rest hnext.binding).bind fun read hread => ?_
  refine Gives.spanFrom.bind fun span _ => .pure ⟨?_, clean_cons.2 ⟨rfl, hread.2⟩⟩
  rw [Stmt.map, Stmt.map, hread.1]

theorem assignment_read {name equal : Token} (hequal : equal.kind = .equal) :
    ReadsStmt (named nested) (.assignment own name.text value) (name :: equal :: tokens) := by
  intro next rest hnext
  refine (Gives.take (by simp)).step ((Gives.accept (by simp) hequal).step ?_)
  refine (hvalue next rest hnext.binding).bind fun read hread => ?_
  refine Gives.spanFrom.bind fun span _ => .pure ⟨?_, clean_cons.2 ⟨rfl, hread.2⟩⟩
  rw [Stmt.map, Stmt.map, hread.1]

theorem print_read {start opening closing : Token} (hopening : opening.kind = .leftParen)
    (hclosing : closing.kind = .rightParen) :
    ReadsStmt (Grammar.print nested) (.print own value)
      (start :: opening :: (tokens ++ [closing])) := by
  intro next rest hnext
  rw [List.cons_append, List.cons_append, List.append_assoc]
  refine (Gives.take (by simp)).step ((Gives.require (by simp) hopening).step ?_)
  refine (hvalue closing (next :: rest) (by rw [hclosing]; decide)).bind fun read hread => ?_
  refine (Gives.require (by simp) hclosing).step ?_
  refine Gives.spanFrom.bind fun span _ => .pure ⟨?_, clean_cons.2 ⟨rfl, hread.2⟩⟩
  rw [Stmt.map, Stmt.map, hread.1]

theorem returning_read {start : Token} (hopens : Opens tokens) :
    ReadsStmt (Grammar.returning nested) (.returning own (some value)) (start :: tokens) := by
  intro next rest hnext
  have hpeek : Gives peek (tokens ++ next :: rest) (tokens ++ next :: rest)
      (endsReturn · = false) := by
    obtain ⟨first, others, rfl, hfirst⟩ := hopens
    exact Gives.peek.mono fun kind hkind => hkind ▸ endsReturn_of_opens hfirst
  refine (Gives.take (by simp)).step (hpeek.bind fun kind hkind => ?_)
  rw [if_neg (by rw [hkind]; decide)]
  refine Gives.bind (P := fun copy? => ∃ copy, copy? = some copy ∧ value.CleanCopy copy)
    ((hvalue next rest hnext.binding).map fun read hread => ⟨read, rfl, hread⟩) ?_
  rintro _ ⟨read, rfl, hread⟩
  refine Gives.spanFrom.bind fun span _ => .pure ⟨?_, clean_cons.2 ⟨rfl, hread.2⟩⟩
  rw [Stmt.map, Stmt.map, hread.1]

end Simple

theorem bareReturn_read {nested : Nested} {own : α} {start : Token} :
    ReadsStmt (Grammar.returning nested) (Stmt.returning own none) [start] := by
  intro next rest hnext
  have hends : endsReturn next.kind = true := by
    rcases hnext with hends | ⟨-, hbare⟩
    · exact hends
    · cases hbare
  refine (Gives.take (by simp)).step (Gives.peek.step ?_)
  rw [if_pos hends]
  refine Gives.step (.pure rfl) (Gives.spanFrom.bind fun span _ => .pure ⟨rfl, ?_⟩)
  exact clean_cons.2 ⟨rfl, fun _ hmem => absurd hmem List.not_mem_nil⟩

theorem callStatement_read {nested : Nested} {own inner : α} {args : List (Expr α)}
    {name opening closing : Token} {tokens : List Token} (hopening : opening.kind = .leftParen)
    (hargs : Separated (Reads nested.expression (·.binding ≤ 0)) args tokens)
    (hopens : args ≠ [] → Opens tokens) (hclosing : closing.kind = .rightParen) :
    ReadsStmt (named nested) (.call own (.call inner name.text args))
      (name :: opening :: (tokens ++ [closing])) := by
  intro next rest hnext
  rw [List.cons_append, List.cons_append, List.append_assoc]
  refine (Gives.take (by simp)).step ((Gives.refuse (by rw [hopening]; decide)).step ?_)
  refine (call_read inner hargs hopens hopening hclosing (by simp)).bind fun read hread => .pure ?_
  refine ⟨?_, clean_cons.2 ⟨rfl, hread.2⟩⟩
  rw [Stmt.map, Stmt.map, hread.1]

section Blocks
variable {nested : Nested} {block : BlockReader} {own : α} {body : List (Stmt α)}
  {start opening closing : Token} {tokens inside : List Token}

theorem function_read {name : Token} {params : List Parameter} {ty? : Option Ty}
    {typed : List Token} (hname : name.kind = .identifier)
    (hopening : opening.kind = .leftParen)
    (hparams : Separated Parameter.Spelled params tokens) (hclosing : closing.kind = .rightParen)
    (hty : Annotates ty? typed) (hbody : ReadsBlock block body inside)
    (hbrace : ∃ brace rest, inside = brace :: rest ∧ brace.kind = .leftBrace) :
    ReadsStmt (Grammar.function block) (.function own name.text params (ty?.getD .void) body)
      (start :: name :: opening :: (tokens ++ closing :: (typed ++ inside))) := by
  intro next rest hnext
  obtain ⟨brace, more, rfl, hbrace⟩ := hbrace
  simp only [List.cons_append, List.append_assoc]
  refine (Gives.take (by simp)).step ((Gives.require (by simp) hname).step ?_)
  refine (Gives.require (by simp) hopening).step ?_
  refine (parameters_read hparams hclosing).step ?_
  refine (Gives.require (by simp) hclosing).step ?_
  refine (typeAfterColon_read hty (by rw [hbrace]; decide) (by rw [hbrace]; decide)).step ?_
  refine (hbody (next :: rest) (by simp)).bind ?_
  rintro ⟨reads, _⟩ ⟨rfl, hreads⟩
  obtain ⟨hmap, hclean⟩ := Stmt.mapAll_of_copies hreads
  refine Gives.spanFrom.bind fun span _ => .pure ⟨?_, clean_cons.2 ⟨rfl, hclean⟩⟩
  rw [Stmt.map, Stmt.map, hmap]

theorem loop_read {name inWord : Token} {iterable : Expr α} (hopening : opening.kind = .leftParen)
    (hname : name.kind = .identifier) (hin : inWord.kind = .inWord)
    (hiterable : Reads nested.expression (·.binding ≤ 0) iterable tokens)
    (hclosing : closing.kind = .rightParen) (hbody : ReadsBlock block body inside) :
    ReadsStmt (Grammar.loop nested block) (.loop own name.text iterable body)
      (start :: opening :: name :: inWord :: (tokens ++ closing :: inside)) := by
  intro next rest hnext
  simp only [List.cons_append, List.append_assoc]
  refine (Gives.take (by simp)).step ((Gives.require (by simp) hopening).step ?_)
  refine (Gives.require (by simp) hname).step ((Gives.require (by simp) hin).step ?_)
  refine (hiterable _ _ (by rw [hclosing]; decide)).bind fun read hread => ?_
  refine (Gives.require (by simp) hclosing).step ?_
  refine (hbody (next :: rest) (by simp)).bind ?_
  rintro ⟨reads, _⟩ ⟨rfl, hreads⟩
  obtain ⟨hmap, hclean⟩ := Stmt.mapAll_of_copies hreads
  refine Gives.spanFrom.bind fun span _ => .pure ⟨?_, clean_cons.2 ⟨rfl, ?_⟩⟩
  · rw [Stmt.map, Stmt.map, hread.1, hmap]
  · exact clean_append.2 ⟨hread.2, hclean⟩

section Conditionals
variable {condition : Expr α} {elseIf : Reader (Stmt Mark)}
  (hopening : opening.kind = .leftParen)
  (hcondition : Reads nested.expression (·.binding ≤ 0) condition tokens)
  (hclosing : closing.kind = .rightParen) (hthen : ReadsBlock block body inside)
include hopening hcondition hclosing hthen

/-- All `if`s are read in the same way up to the end of their first block. -/
theorem conditional_read {after output : List Token} {P : Stmt Mark → Prop} (hafter : after ≠ [])
    (h : ∀ read reads, condition.CleanCopy read → List.Forall₂ Stmt.CleanCopy body reads →
      Gives (do
        if ← accept .elseWord then
          let (elseBody, badElse) ← if (← peek) = .ifWord then do pure ([← elseIf], []) else block
          return Stmt.ifThenElse ⟨← spanFrom start.span, badElse⟩ read reads elseBody
        else return Stmt.ifThen ⟨← spanFrom start.span, []⟩ read reads) after output P) :
    Gives (conditionalWith nested block elseIf)
      (start :: opening :: (tokens ++ closing :: (inside ++ after))) output P := by
  refine (Gives.take (by simp)).step ((Gives.require (by simp) hopening).step ?_)
  refine (hcondition _ _ (by rw [hclosing]; decide)).bind fun read hread => ?_
  refine (Gives.require (by simp [hafter]) hclosing).step ?_
  refine (hthen after hafter).bind ?_
  rintro ⟨reads, _⟩ ⟨rfl, hreads⟩
  exact h read reads hread hreads

theorem ifThen_read :
    ReadsStmt (conditionalWith nested block elseIf) (.ifThen own condition body)
      (start :: opening :: (tokens ++ closing :: inside)) := by
  intro next rest hnext
  rw [List.cons_append, List.cons_append, List.append_assoc, List.cons_append]
  refine conditional_read hopening hcondition hclosing hthen (by simp)
    fun read reads hread hreads => ?_
  obtain ⟨hmap, hclean⟩ := Stmt.mapAll_of_copies hreads
  refine (Gives.refuse hnext.ne_else).step (Gives.spanFrom.bind fun span _ => .pure ⟨?_, ?_⟩)
  · rw [Stmt.map, Stmt.map, hread.1, hmap]
  · exact clean_cons.2 ⟨rfl, clean_append.2 ⟨hread.2, hclean⟩⟩

theorem ifThenElse_read {other : Token} {elseBody : List (Stmt α)} {others : List Token}
    (hother : other.kind = .elseWord) (helse : ReadsBlock block elseBody others)
    (hbrace : ∃ brace rest, others = brace :: rest ∧ brace.kind = .leftBrace) :
    ReadsStmt (conditionalWith nested block elseIf) (.ifThenElse own condition body elseBody)
      (start :: opening :: (tokens ++ closing :: (inside ++ other :: others))) := by
  intro next rest hnext
  have hpeek : Gives peek (others ++ next :: rest) (others ++ next :: rest) (· = .leftBrace) := by
    obtain ⟨brace, more, rfl, hbrace⟩ := hbrace
    rw [← hbrace]
    exact .peek
  simp only [List.cons_append, List.append_assoc]
  refine conditional_read hopening hcondition hclosing hthen (by simp)
    fun read reads hread hreads => ?_
  refine (Gives.accept (by simp) hother).step (hpeek.step ?_)
  rw [if_neg (by decide)]
  refine (helse (next :: rest) (by simp)).bind ?_
  rintro ⟨more, _⟩ ⟨rfl, hmore⟩
  obtain ⟨hmap, hclean⟩ := Stmt.mapAll_of_copies hreads
  obtain ⟨hmap', hclean'⟩ := Stmt.mapAll_of_copies hmore
  refine Gives.spanFrom.bind fun span _ => .pure ⟨?_, clean_cons.2 ⟨rfl, ?_⟩⟩
  · rw [Stmt.map, Stmt.map, hread.1, hmap, hmap']
  · exact clean_append.2 ⟨clean_append.2 ⟨hread.2, hclean⟩, hclean'⟩

theorem elseIf_read {other first : Token} {alternative : Stmt α} {others : List Token}
    (hother : other.kind = .elseWord) (hfirst : first.kind = .ifWord)
    (hbare : alternative.isBareReturn = false)
    (helse : ReadsStmt elseIf alternative (first :: others)) :
    ReadsStmt (conditionalWith nested block elseIf) (.ifThenElse own condition body [alternative])
      (start :: opening :: (tokens ++ closing :: (inside ++ other :: first :: others))) := by
  intro next rest hnext
  simp only [List.cons_append, List.append_assoc]
  refine conditional_read hopening hcondition hclosing hthen (by simp)
    fun read reads hread hreads => ?_
  refine (Gives.accept (by simp) hother).step (Gives.peek.step ?_)
  rw [if_pos hfirst]
  refine (helse next rest (hnext.imp_right fun h => ⟨h.1, hbare⟩)).bind fun more hmore => ?_
  obtain ⟨hmap, hclean⟩ := Stmt.mapAll_of_copies hreads
  obtain ⟨hmap', hclean'⟩ := Stmt.mapAll_of_copies (.cons hmore .nil)
  refine Gives.step (.pure rfl) (Gives.spanFrom.bind fun span _ => .pure ⟨?_, ?_⟩)
  · rw [Stmt.map, Stmt.map, hread.1, hmap, hmap']
  · exact clean_cons.2 ⟨rfl, clean_append.2 ⟨clean_append.2 ⟨hread.2, hclean⟩, hclean'⟩⟩

end Conditionals
end Blocks

section Lists
variable {room : Nat} {inFunction : Bool} {body : List (Stmt α)} {tokens : List Token}

theorem Stmt.SpelledAll.length_le : ∀ {body : List (Stmt α)} {tokens : List Token},
    Stmt.SpelledAll fits room inFunction body tokens → body.length ≤ tokens.length
  | _, _, .nil => Nat.le_refl 0
  | _, _, .cons hs hrest => by
    obtain ⟨token, more, rfl, -⟩ := hs.start
    have hle := hrest.length_le
    simp only [List.length_cons, List.length_append] at hle ⊢
    omega

theorem Stmt.SpelledBlock.brace (h : Stmt.SpelledBlock fits room inFunction body tokens) :
    ∃ brace rest, tokens = brace :: rest ∧ brace.kind = .leftBrace := by
  cases h with
  | braces hopening _ _ => exact ⟨_, _, rfl, hopening⟩

theorem first_follows {s : Stmt α} {next : Token} (rest : List Token)
    (h : Stmt.SpelledAll fits room inFunction body tokens)
    (hsettled : (s.isBareReturn && body.head?.any (·.startKind = .identifier)) = false)
    (hnext : endsReturn next.kind = true) :
    ∃ first more, tokens ++ next :: rest = first :: more ∧ s.Follows first.kind := by
  cases h with
  | nil => exact ⟨next, rest, rfl, .inl hnext⟩
  | cons hs hrest =>
    obtain ⟨first, more, rfl, hfirst⟩ := hs.start
    refine ⟨first, _, rfl, ?_⟩
    rw [hfirst]
    refine hs.start_follows.1.imp_right fun hname => ⟨hname, ?_⟩
    simpa [hname] using hsettled

end Lists

/-- How a statement is read: anywhere, and after an `else` if it is an `if`. -/
structure Stmt.ReadBack (room : Nat) (inFunction : Bool) (s : Stmt α) (tokens : List Token) :
    Prop where
  anywhere : ReadsStmt (statement room inFunction) s tokens
  afterElse : s.startKind = .ifWord → ∀ bound, tokens.length ≤ bound + 1 →
    ReadsStmt (conditional (Nested.ofRoom room) (block room inFunction) bound) s tokens

theorem Stmt.ReadBack.of_peek {room : Nat} {inFunction : Bool} {s : Stmt α} {start : Token}
    {tokens : List Token} (hne : s.startKind ≠ .ifWord)
    (h : ∀ next rest, s.Follows next.kind → Gives (statement room inFunction)
      (start :: (tokens ++ next :: rest)) (next :: rest) s.CleanCopy) :
    s.ReadBack room inFunction (start :: tokens) := by
  refine ⟨h, fun hif => ?_⟩
  exact absurd hif hne

theorem Stmt.ReadBack.of_conditional {room : Nat} {inFunction : Bool} {s : Stmt α} {start : Token}
    {tokens : List Token} (hstart : start.kind = .ifWord)
    (h : ∀ bound, (start :: tokens).length ≤ bound + 1 →
      ReadsStmt (conditional (Nested.ofRoom room) (block room inFunction) bound) s
        (start :: tokens)) : s.ReadBack room inFunction (start :: tokens) := by
  refine ⟨fun next rest hnext => ?_, fun _ => h⟩
  rw [List.cons_append]
  refine Gives.peek.step ?_
  rw [hstart]
  refine Gives.remaining.bind fun bound hbound => ?_
  refine h bound ?_ next rest hnext
  simp only [List.length_cons, List.length_append] at hbound ⊢
  omega

mutual

/-- A statement is read from the tokens that spell it. -/
theorem Stmt.Spelled.readBack : ∀ {s : Stmt α} {room : Nat} {inFunction : Bool}
    {tokens : List Token}, s.Spelled fits room inFunction tokens → s.grouped = true →
    s.settled = true → s.ReadBack room inFunction tokens := by
  intro s room inFunction tokens h hgrouped hsettled
  cases h with
  | declaration hstart hname hty hequal hvalue _ =>
    refine .of_peek TokenKind.noConfusion fun next rest hnext => Gives.peek.step ?_
    rw [hstart]
    exact declaration_read (hvalue.read_nested hgrouped) hname hty hequal next rest hnext
  | assignment hname hequal hvalue _ =>
    refine .of_peek TokenKind.noConfusion fun next rest hnext => Gives.peek.step ?_
    rw [hname]
    exact assignment_read (hvalue.read_nested hgrouped) hequal next rest hnext
  | function hstart hname hopening hparams hclosing hty hbody _ =>
    refine .of_peek TokenKind.noConfusion fun next rest hnext => Gives.peek.step ?_
    rw [hstart]
    exact function_read hname hopening hparams hclosing hty (hbody.readBack hgrouped hsettled)
      hbody.brace next rest hnext
  | ifThen hstart hopening hcondition hclosing hthen _ =>
    rw [Stmt.grouped, Bool.and_eq_true] at hgrouped
    obtain ⟨hgrouped, hgrouped'⟩ := hgrouped
    have hcondition := hcondition.read_nested hgrouped
    have hthen := hthen.readBack hgrouped' hsettled
    refine .of_conditional hstart fun bound _ => ?_
    cases bound <;> exact ifThen_read hopening hcondition hclosing hthen
  | ifThenElse hstart hopening hcondition hclosing hthen hother helse _ =>
    rw [Stmt.grouped, Bool.and_eq_true, Bool.and_eq_true] at hgrouped
    rw [Stmt.settled, Bool.and_eq_true] at hsettled
    obtain ⟨⟨hgrouped, hgroupedThen⟩, hgroupedElse⟩ := hgrouped
    obtain ⟨hsettledThen, hsettledElse⟩ := hsettled
    have hbrace := helse.brace
    have hcondition := hcondition.read_nested hgrouped
    have hthen := hthen.readBack hgroupedThen hsettledThen
    have helse := helse.readBack hgroupedElse hsettledElse
    refine .of_conditional hstart fun bound _ => ?_
    cases bound <;> exact ifThenElse_read hopening hcondition hclosing hthen hother helse hbrace
  | elseIf hstart hopening hcondition hclosing hthen hother hnext helse _ =>
    rw [Stmt.grouped, Bool.and_eq_true, Bool.and_eq_true] at hgrouped
    rw [Stmt.settled, Bool.and_eq_true] at hsettled
    obtain ⟨⟨hgrouped, hgroupedThen⟩, hgroupedElse⟩ := hgrouped
    obtain ⟨hsettledThen, hsettledElse⟩ := hsettled
    have hcondition := hcondition.read_nested hgrouped
    have hthen := hthen.readBack hgroupedThen hsettledThen
    rw [Stmt.groupedAll, Bool.and_eq_true] at hgroupedElse
    rw [Stmt.settledAll, Bool.and_eq_true, Bool.and_eq_true] at hsettledElse
    have hif := helse.startKind_eq hnext
    have helse := (helse.readBack hgroupedElse.1 hsettledElse.1.2).afterElse hif
    refine .of_conditional hstart fun bound hbound => ?_
    simp only [List.length_cons, List.length_append] at hbound
    cases bound with
    | zero => omega
    | succ bound =>
      refine elseIf_read hopening hcondition hclosing hthen hother hnext (isBareReturn_of_if hif)
        (helse bound ?_)
      simp only [List.length_cons]
      omega
  | loop hstart hopening hname hin hiterable hclosing hbody _ =>
    rw [Stmt.grouped, Bool.and_eq_true] at hgrouped
    obtain ⟨hgrouped, hgrouped'⟩ := hgrouped
    refine .of_peek TokenKind.noConfusion fun next rest hnext => Gives.peek.step ?_
    rw [hstart]
    exact loop_read hopening hname hin (hiterable.read_nested hgrouped) hclosing
      (hbody.readBack hgrouped' hsettled) next rest hnext
  | print hstart hopening hvalue hclosing _ =>
    refine .of_peek TokenKind.noConfusion fun next rest hnext => Gives.peek.step ?_
    rw [hstart]
    exact print_read (hvalue.read_nested hgrouped) hopening hclosing next rest hnext
  | call hvalue _ =>
    cases hvalue with
    | call hname hopening hargs hclosing _ =>
      refine .of_peek TokenKind.noConfusion fun next rest hnext => Gives.peek.step ?_
      rw [hname]
      exact callStatement_read hopening (hargs.parsed hgrouped) (opens_of_spelledAll hargs)
        hclosing next rest hnext
  | bareReturn hstart _ =>
    refine .of_peek TokenKind.noConfusion fun next rest hnext => Gives.peek.step ?_
    rw [hstart]
    exact bareReturn_read next rest hnext
  | returning hstart hvalue _ =>
    refine .of_peek TokenKind.noConfusion fun next rest hnext => Gives.peek.step ?_
    rw [hstart]
    exact returning_read (hvalue.read_nested hgrouped) hvalue.opens next rest hnext

theorem Stmt.SpelledAll.readBack : ∀ {body : List (Stmt α)} {room : Nat} {inFunction : Bool}
    {tokens : List Token}, Stmt.SpelledAll fits room inFunction body tokens →
    Stmt.groupedAll body = true → Stmt.settledAll body = true →
    ∀ {stop : TokenKind → Bool}, (∀ kind, stop kind = true → endsBlock kind = true) →
    ∀ {next : Token} (rest : List Token), stop next.kind = true → ∀ bound, body.length ≤ bound →
      Gives (repeated stop (statement room inFunction) bound) (tokens ++ next :: rest)
        (next :: rest) (List.Forall₂ Stmt.CleanCopy body) := by
  intro body room inFunction tokens h hgrouped hsettled stop hstop next rest hnext bound hbound
  cases h with
  | nil =>
    cases bound with
    | zero => exact .pure .nil
    | succ bound =>
      refine Gives.peek.step ?_
      rw [if_pos hnext]
      exact .pure .nil
  | @cons _ _ s _ _ others hs hrest =>
    cases bound with
    | zero => simp at hbound
    | succ bound =>
      rw [Stmt.groupedAll, Bool.and_eq_true] at hgrouped
      rw [Stmt.settledAll, Bool.and_eq_true, Bool.and_eq_true, Bool.not_eq_true'] at hsettled
      have hends : endsReturn next.kind = true := endsReturn_of_endsBlock (hstop _ hnext)
      obtain ⟨first, more, hfirst, hfollows⟩ := first_follows rest hrest hsettled.1.1 hends
      have hnot : ¬stop s.startKind = true := fun hstops => by
        have hends' := hstop _ hstops
        rw [hs.start_follows.2] at hends'
        cases hends'
      rw [List.append_assoc]
      refine (hs.peek (others ++ next :: rest)).step ?_
      rw [if_neg hnot, hfirst]
      refine ((hs.readBack hgrouped.1 hsettled.1.2).anywhere first more hfollows).bind
        fun read hread => ?_
      rw [← hfirst]
      exact (hrest.readBack hgrouped.2 hsettled.2 hstop rest hnext bound
        (Nat.le_of_succ_le_succ hbound)).bind fun reads hreads => .pure (.cons hread hreads)

theorem Stmt.SpelledBlock.readBack : ∀ {body : List (Stmt α)} {room : Nat} {inFunction : Bool}
    {tokens : List Token}, Stmt.SpelledBlock fits room inFunction body tokens →
    Stmt.groupedAll body = true → Stmt.settledAll body = true →
    ReadsBlock (block room inFunction) body tokens := by
  intro body room inFunction tokens h hgrouped hsettled
  cases h with
  | braces hopening hbody hclosing =>
    intro rest hrest
    have hlength := hbody.length_le
    rw [List.cons_append, List.append_assoc]
    refine (Gives.require (by simp) hopening).step (Gives.remaining.bind fun bound hbound => ?_)
    simp only [List.length_append, List.length_cons, List.length_nil] at hbound
    refine (hbody.readBack hgrouped hsettled (fun _ h => h) rest (by rw [hclosing]; rfl) bound
      (by omega)).bind fun reads hreads => ?_
    exact (Gives.require hrest hclosing).step (.pure ⟨rfl, hreads⟩)

end
end CatScript
