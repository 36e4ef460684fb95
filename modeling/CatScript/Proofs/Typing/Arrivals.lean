import CatScript.Proofs.Typing.Resolution

/-! # Where typing arrives

Typing goes through the statements of a program with symbols that change on the way: a declaration
adds to the innermost scope, and a block starts in a scope of its own (`Typing.Opens`).  So it
arrives at every statement and nowhere else (`Typing.exists_arrives`, `Typing.Arrives.stands`), and
with the symbols that know what is declared before it (`Typing.Arrives.knows`).  All scopes but the
outermost one have the parameters, the variables of loops and the variables that are declared in
blocks and functions (`Symbols.Nests`). -/
set_option autoImplicit false
namespace CatScript

/-- What a name is bound to in a scope that is not the outermost one. -/
def Scopes.inner? {α : Type} (scopes : Scopes α) (name : String) : Option α :=
  scopes.nested.findSome? (·.find? name)

/-- The scopes but the outermost one have what is declared before the spot in the lists of statements
around it but the outermost one. -/
structure Symbols.Nests (symbols : Symbols) (spot : Spot) : Prop where
  placed : spot ≠ []
  base : symbols.scopes.nested = [] ↔ spot.dropLast = []
  found : ∀ name, Spot.find? spot.dropLast name = (symbols.scopes.inner? name).map some

namespace Symbols.Nests
variable {symbols : Symbols} {spot : Spot} {stretch now : Stretch} {name : String} {ty : Ty}

theorem inner?_declare {scopes : Scopes Ty} (h : scopes.nested ≠ []) (name : String) (ty : Ty)
    (other : String) : (scopes.declare name ty).inner? other =
      if name = other then some ty else scopes.inner? other := by
  obtain ⟨outermost, nested⟩ := scopes
  cases nested with
  | nil => exact absurd rfl h
  | cons scope rest =>
    show List.findSome? _ (scope.bind name ty :: rest) = _
    rw [List.findSome?_cons, Scope.find?_bind]
    by_cases hname : name = other
    · rw [if_pos hname, if_pos hname]
    · rw [if_neg hname, if_neg hname]
      rfl

theorem pass (h : symbols.Nests (stretch :: spot)) (hnow : now.declared = stretch.declared) :
    symbols.Nests (now :: spot) := by
  obtain ⟨-, hbase, hfound⟩ := h
  cases spot with
  | nil => exact ⟨List.cons_ne_nil _ _, hbase, hfound⟩
  | cons outer rest =>
    rw [List.dropLast_cons_of_ne_nil (List.cons_ne_nil _ _)] at hbase hfound
    refine ⟨List.cons_ne_nil _ _, ?_, fun name => ?_⟩
    · rw [List.dropLast_cons_of_ne_nil (List.cons_ne_nil _ _), hbase]
      simp
    · rw [List.dropLast_cons_of_ne_nil (List.cons_ne_nil _ _), Spot.find?_cons, hnow,
        ← Spot.find?_cons]
      exact hfound name

theorem declare (h : symbols.Nests (stretch :: spot))
    (hnow : now.declared = stretch.declared ++ [(name, some ty)]) (hnew : name ∉ stretch.names) :
    (symbols.declare name ty).Nests (now :: spot) := by
  obtain ⟨-, hbase, hfound⟩ := h
  cases spot with
  | nil =>
    have hnested : symbols.scopes.nested = [] := hbase.2 rfl
    have hsame : (symbols.declare name ty).scopes.nested = symbols.scopes.nested := by
      rw [Symbols.declare, Scopes.declare, hnested]
    refine ⟨List.cons_ne_nil _ _, by rw [hsame]; exact hbase, fun other => ?_⟩
    rw [Scopes.inner?, hsame]
    exact hfound other
  | cons outer rest =>
    rw [List.dropLast_cons_of_ne_nil (List.cons_ne_nil _ _)] at hbase hfound
    have hne : symbols.scopes.nested ≠ [] := by simp [hbase]
    refine ⟨List.cons_ne_nil _ _, ?_, fun other => ?_⟩
    · rw [List.dropLast_cons_of_ne_nil (List.cons_ne_nil _ _)]
      refine iff_of_false (fun hnil => ?_) (List.cons_ne_nil _ _)
      cases hscopes : symbols.scopes.nested with
      | nil => exact hne hscopes
      | cons scope more =>
        rw [Symbols.declare, Scopes.declare, hscopes] at hnil
        cases hnil
    · rw [List.dropLast_cons_of_ne_nil (List.cons_ne_nil _ _), Spot.find?_cons, hnow,
        Scope.find?_append, Symbols.declare, inner?_declare hne]
      by_cases hname : name = other
      · subst hname
        rw [Scope.find?_eq_none_iff.2 hnew, if_pos rfl, Scope.find?_cons, if_pos rfl]
        rfl
      · rw [if_neg hname, ← hfound other, Spot.find?_cons, Scope.find?_cons, if_neg hname,
          Scope.find?_nil, Option.or_none]

theorem enter (h : symbols.Nests spot) : symbols.enter.Nests (⟨[], []⟩ :: spot) := by
  refine ⟨List.cons_ne_nil _ _, ?_, fun name => ?_⟩
  · rw [List.dropLast_cons_of_ne_nil h.placed]
    exact iff_of_false (List.cons_ne_nil _ _) (List.cons_ne_nil _ _)
  · rw [List.dropLast_cons_of_ne_nil h.placed, Spot.find?_cons]
    exact h.found name

/-- The variable of a loop may have a scope of its own around that of the body. -/
theorem enterLoop (h : symbols.Nests spot) (name : String) (ty : Ty) :
    (symbols.enter.declare name ty).enter.Nests (⟨[(name, some ty)], []⟩ :: spot) := by
  refine ⟨List.cons_ne_nil _ _, ?_, fun other => ?_⟩
  · rw [List.dropLast_cons_of_ne_nil h.placed]
    exact iff_of_false (List.cons_ne_nil _ _) (List.cons_ne_nil _ _)
  · have hne : symbols.enter.scopes.nested ≠ [] := List.cons_ne_nil _ _
    have hinner : (symbols.enter.declare name ty).enter.scopes.inner? other =
        if name = other then some ty else symbols.scopes.inner? other :=
      inner?_declare hne name ty other
    rw [List.dropLast_cons_of_ne_nil h.placed, Spot.find?_cons, h.found other, hinner]
    show (if name = other then some (some ty) else none).or _ = _
    by_cases hname : name = other
    · rw [if_pos hname, if_pos hname]
      rfl
    · rw [if_neg hname, if_neg hname]
      rfl

end Symbols.Nests

theorem Symbols.Knows.nests {symbols : Symbols} {spot : Spot} (h : symbols.Knows spot) :
    symbols.Nests spot := by
  have hlength : spot.length = symbols.scopes.nested.length + 1 := by
    have := h.length_eq
    rwa [List.length_map, Scopes.stack, List.length_append] at this
  have hdrop : spot.dropLast = spot.take symbols.scopes.nested.length := by
    rw [List.dropLast_eq_take, hlength, Nat.add_sub_cancel]
  refine ⟨fun hnil => ?_, ?_, fun name => ?_⟩
  · rw [hnil] at hlength
    cases hlength
  · rw [← List.length_eq_zero_iff, ← List.length_eq_zero_iff (l := spot.dropLast),
      List.length_dropLast, hlength, Nat.add_sub_cancel]
  · have hinner := List.forall₂_take symbols.scopes.nested.length h
    rw [← List.map_take, ← hdrop, Scopes.stack, List.take_left] at hinner
    have hrel := Scopes.findSome?_match hinner name
    rw [Scopes.inner?]
    show ((spot.dropLast.map Stretch.declared).findSome? (Scope.find? · name)) = _
    generalize (spot.dropLast.map Stretch.declared).findSome? (Scope.find? · name) = declared
      at hrel ⊢
    generalize symbols.scopes.nested.findSome? (·.find? name) = found at hrel ⊢
    cases hrel with
    | none => rfl
    | some heq => exact congrArg some heq

namespace Typing

/-- Typing a statement comes to one of its blocks: the names that are bound at the start of the
block, with their types, and what is around it and in sight there. -/
inductive Opens (around : Surroundings) (symbols : Symbols) :
    Stmt Info → List (String × Option Ty) → List (Stmt Info) → Surroundings → Symbols → Prop where
  | function {info : Info} {name : String} {params : List Parameter} {returns : Ty}
      {body : List (Stmt Info)} :
      Opens around symbols (.function info name params returns body)
        (params.map fun param => (param.name, some param.ty)) body (.ofFunction returns)
        (bindParameters symbols.enter params).1
  | ifThen {info : Info} {condition : Expr Info} {body : List (Stmt Info)} :
      Opens around symbols (.ifThen info condition body) [] body around.inside symbols.enter
  | thenBody {info : Info} {condition : Expr Info} {thenBody elseBody : List (Stmt Info)} :
      Opens around symbols (.ifThenElse info condition thenBody elseBody) [] thenBody around.inside
        symbols.enter
  | elseBody {info : Info} {condition : Expr Info} {thenBody elseBody : List (Stmt Info)} :
      Opens around symbols (.ifThenElse info condition thenBody elseBody) [] elseBody around.inside
        symbols.enter
  | loop {info : Info} {name : String} {iterable : Expr Info} {body : List (Stmt Info)}
      {items : Typed} {ty : Ty} : expression symbols iterable = .ok items →
      (items.ty.bind Ty.component?).getD .object = ty →
      Opens around symbols (.loop info name iterable body) [(name, some ty)] body around.inside
        (symbols.enter.declare name ty)

/-- Typing the program comes to a statement with the given symbols in sight.  The spot is that of
the statement once it is typed. -/
inductive Arrives (p : Program Info) : Spot → Surroundings → Symbols → Stmt Info → Prop where
  | top {mark : Info} {body before after typed : List (Stmt Info)} {symbols : Symbols}
      {s : Stmt Info} : p = .statements mark body → (register .empty body).2 = before ++ s :: after →
      statements (.ofProgram (.ok none)) (register .empty body).1 before = .ok (symbols, typed) →
      Arrives p [⟨[], typed⟩] (.ofProgram (.ok none)) symbols s
  | inside {spot : Spot} {around inside : Surroundings} {symbols start middle : Symbols}
      {outer s : Stmt Info} {bound : List (String × Option Ty)}
      {before after typed : List (Stmt Info)} : Arrives p spot around symbols outer →
      Opens around symbols outer bound (before ++ s :: after) inside start →
      statements inside start before = .ok (middle, typed) →
      Arrives p (⟨bound, typed⟩ :: spot) inside middle s

/-- What typing a statement does to the names in sight: it opens the blocks of the statement, and
after it there is at most one name more. -/
structure Passes (around : Surroundings) (symbols : Symbols) (s : Stmt Info) (after : Symbols)
    (typed : Stmt Info) : Prop where
  blocks : ∀ block ∈ typed.blocks, ∃ body inside start last,
    Opens around symbols s block.1 body inside start ∧
      statements inside start body = .ok (last, block.2)
  after : (typed.declares = [] ∧ after = symbols) ∨
    ∃ name ty, typed.declares = [(name, some ty)] ∧
      after = if symbols.declaredHere name then symbols else symbols.declare name ty

section Steps
variable {around : Surroundings} {symbols after : Symbols} {s typed : Stmt Info}

theorem Passes.still (hblocks : typed.blocks = []) (hdeclares : typed.declares = []) :
    Passes around symbols s symbols typed := by
  refine ⟨?_, .inl ⟨hdeclares, rfl⟩⟩
  rw [hblocks]
  exact List.forall_mem_nil _

theorem statement_passes (h : statement around symbols s = .ok (after, typed)) :
    Passes around symbols s after typed := by
  cases statement_step h with
  | declaration => exact ⟨List.forall_mem_nil _, .inr ⟨_, _, rfl, rfl⟩⟩
  | assignment | stray | print | call | leave | broken | bare => exact .still rfl rfl
  | function hbody =>
    refine ⟨List.forall_mem_singleton.2 ?_, .inl ⟨rfl, rfl⟩⟩
    exact ⟨_, _, _, _, .function, hbody⟩
  | ifThen _ hthen =>
    refine ⟨List.forall_mem_singleton.2 ?_, .inl ⟨rfl, rfl⟩⟩
    exact ⟨_, _, _, _, .ifThen, hthen⟩
  | ifThenElse _ hthen helse =>
    refine ⟨List.forall_mem_cons.2 ⟨?_, List.forall_mem_singleton.2 ?_⟩, .inl ⟨rfl, rfl⟩⟩
    · exact ⟨_, _, _, _, .thenBody, hthen⟩
    · exact ⟨_, _, _, _, .elseBody, helse⟩
  | loop hiterable hty hbody =>
    refine ⟨List.forall_mem_singleton.2 ?_, .inl ⟨rfl, rfl⟩⟩
    exact ⟨_, _, _, _, .loop hiterable hty.symm, hbody⟩
  | @returning info _ first expected =>
    cases hkept : (Typing.returning expected info (some first)).2 <;> exact .still rfl rfl

variable {spot : Spot} {bound : List (String × Option Ty)}

theorem Passes.knows {before : List (Stmt Info)} (h : Passes around symbols s after typed)
    (hknows : symbols.Knows (⟨bound, before⟩ :: spot)) :
    after.Knows (⟨bound, before ++ [typed]⟩ :: spot) :=
  hknows.step h.after

theorem statements_knows {body : List (Stmt Info)} {last : Symbols} {now : List (Stmt Info)} :
    {symbols : Symbols} → {before : List (Stmt Info)} →
    symbols.Knows (⟨bound, before⟩ :: spot) → statements around symbols body = .ok (last, now) →
    last.Knows (⟨bound, before ++ now⟩ :: spot) := by
  induction body generalizing now with
  | nil =>
    intro symbols before hknows h
    obtain ⟨rfl, rfl⟩ := statements_nil h
    rw [List.append_nil]
    exact hknows
  | cons s rest ih =>
    intro symbols before hknows h
    obtain ⟨middle, first, others, hfirst, hothers, rfl⟩ := statements_cons h
    have hrest := ih ((statement_passes hfirst).knows hknows) hothers
    rw [List.append_assoc] at hrest
    exact hrest

theorem Opens.knows {body : List (Stmt Info)} {inside : Surroundings} {start : Symbols}
    (h : Opens around symbols s bound body inside start) (hknows : symbols.Knows spot) :
    start.Knows (⟨bound, []⟩ :: spot) := by
  cases h with
  | function => exact hknows.enter.bindParameters _
  | ifThen | thenBody | elseBody => exact hknows.enter
  | loop hitems hty => exact hknows.enterLoop _ _

theorem statements_split {body : List (Stmt Info)} {last : Symbols}
    {before later : List (Stmt Info)} : {symbols : Symbols} →
    statements around symbols body = .ok (last, before ++ typed :: later) →
    ∃ earlier s rest middle next, body = earlier ++ s :: rest ∧
      statements around symbols earlier = .ok (middle, before) ∧
      statement around middle s = .ok (next, typed) := by
  induction body generalizing before with
  | nil =>
    intro symbols h
    exact absurd (statements_nil h).2
      (List.append_ne_nil_of_right_ne_nil _ (List.cons_ne_nil _ _))
  | cons s rest ih =>
    intro symbols h
    obtain ⟨middle, first, others, hfirst, hothers, heq⟩ := statements_cons h
    cases before with
    | nil =>
      cases heq
      exact ⟨[], s, rest, symbols, middle, rfl, by rw [statements]; rfl, hfirst⟩
    | cons one before =>
      cases heq
      obtain ⟨earlier, t, behind, between, next, rfl, hearlier, ht⟩ := ih hothers
      refine ⟨s :: earlier, t, behind, between, next, rfl, ?_, ht⟩
      rw [statements, hfirst]
      simp only [bind, Except.bind, hearlier]
      rfl

theorem statements_front {before later : List (Stmt Info)} {last : Symbols}
    {now : List (Stmt Info)} : {symbols middle : Symbols} → {earlier : List (Stmt Info)} →
    statements around symbols (before ++ s :: later) = .ok (last, now) →
    statements around symbols before = .ok (middle, earlier) →
    ∃ next t rest, now = earlier ++ t :: rest ∧ statement around middle s = .ok (next, t) := by
  induction before generalizing now with
  | nil =>
    intro symbols middle earlier h hbefore
    obtain ⟨rfl, rfl⟩ := statements_nil hbefore
    obtain ⟨next, t, rest, ht, -, rfl⟩ := statements_cons h
    exact ⟨next, t, rest, rfl, ht⟩
  | cons first before ih =>
    intro symbols middle earlier h hbefore
    obtain ⟨between, one, others, hone, hothers, rfl⟩ := statements_cons hbefore
    obtain ⟨_, _, more, hfirst, hmore, rfl⟩ := statements_cons h
    cases hone.symm.trans hfirst
    obtain ⟨next, t, rest, rfl, ht⟩ := ih hmore hothers
    exact ⟨next, t, rest, rfl, ht⟩

theorem Opens.blocks {body : List (Stmt Info)} {inside : Surroundings} {start : Symbols}
    (h : Opens around symbols s bound body inside start)
    (hs : statement around symbols s = .ok (after, typed)) : ∃ inner last,
      (bound, inner) ∈ typed.blocks ∧ statements inside start body = .ok (last, inner) := by
  cases h with
  | function =>
    cases statement_step hs with
    | function hbody => exact ⟨_, _, List.mem_cons_self, hbody⟩
  | ifThen =>
    cases statement_step hs with
    | ifThen _ hthen => exact ⟨_, _, List.mem_cons_self, hthen⟩
  | thenBody =>
    cases statement_step hs with
    | ifThenElse _ hthen _ => exact ⟨_, _, List.mem_cons_self, hthen⟩
  | elseBody =>
    cases statement_step hs with
    | ifThenElse _ _ helse => exact ⟨_, _, List.mem_cons_of_mem _ List.mem_cons_self, helse⟩
  | loop hitems hty =>
    cases statement_step hs with
    | loop hiterable hty' hbody =>
      cases hitems.symm.trans hiterable
      subst hty hty'
      exact ⟨_, _, List.mem_cons_self, hbody⟩

section Functions

theorem Passes.functions (h : Passes around symbols s after typed) :
    after.functions = symbols.functions := by
  rcases h.after with ⟨-, rfl⟩ | ⟨name, ty, -, rfl⟩
  · rfl
  · split <;> rfl

theorem statements_functions {body : List (Stmt Info)} {last : Symbols} {now : List (Stmt Info)} :
    {symbols : Symbols} → statements around symbols body = .ok (last, now) →
    last.functions = symbols.functions := by
  induction body generalizing now with
  | nil =>
    intro symbols h
    rw [(statements_nil h).1]
  | cons s rest ih =>
    intro symbols h
    obtain ⟨middle, first, others, hfirst, hothers, rfl⟩ := statements_cons h
    exact (ih hothers).trans (statement_passes hfirst).functions

theorem bindParameters_functions (params : List Parameter) (symbols : Symbols) :
    (bindParameters symbols params).1.functions = symbols.functions := by
  induction params generalizing symbols with
  | nil => rfl
  | cons param rest ih =>
    rw [bindParameters]
    split
    · exact ih symbols
    · exact ih (symbols.declare param.name param.ty)

theorem Opens.functions {body : List (Stmt Info)} {inside : Surroundings} {start : Symbols}
    (h : Opens around symbols s bound body inside start) :
    start.functions = symbols.functions := by
  cases h with
  | function => exact bindParameters_functions _ _
  | ifThen | thenBody | elseBody | loop => rfl

end Functions

end Steps

variable {p : Program Info} {spot : Spot}

/-- Typing arrives with symbols that know what is declared before the statement. -/
theorem Arrives.knows {around : Surroundings} {symbols : Symbols} {s : Stmt Info}
    (h : Arrives p spot around symbols s) : symbols.Knows spot := by
  induction h with
  | @top mark body before after typed symbols s hp hbody hbefore =>
    have hknows : (register .empty body).1.Knows [⟨[], []⟩] := by
      rw [Symbols.Knows, register_scopes]
      exact Symbols.Knows.empty
    exact statements_knows hknows hbefore
  | inside _ hopens hbefore ih => exact statements_knows (hopens.knows ih) hbefore

/-- Typing arrives at every statement. -/
theorem exists_arrives {typed : Program Info} (h : program (.ok none) p = .ok typed)
    {t : Stmt Info} (ht : typed.Stands spot t) : ∃ around symbols s after,
      Arrives p spot around symbols s ∧ statement around symbols s = .ok (after, t) := by
  induction ht with
  | top hbody =>
    cases program_step h with
    | expression => cases hbody
    | statements hinner =>
      cases hbody
      obtain ⟨earlier, s, rest, middle, next, hsplit, hearlier, hs⟩ := statements_split hinner
      exact ⟨_, middle, s, next, .top rfl hsplit hearlier, hs⟩
  | inside _ hblock ih =>
    obtain ⟨around, symbols, outer, after, houter, hstatement⟩ := ih
    obtain ⟨body, inside, start, last, hopens, hbody⟩ :=
      (statement_passes hstatement).blocks _ hblock
    obtain ⟨earlier, s, rest, middle, next, rfl, hearlier, hs⟩ := statements_split hbody
    exact ⟨inside, middle, s, next, .inside houter hopens hearlier, hs⟩

/-- What comes of a statement that typing arrives at stands at its spot in the typed program. -/
theorem Arrives.stands {typed : Program Info} (htyped : program (.ok none) p = .ok typed)
    {around : Surroundings} {symbols : Symbols} {s : Stmt Info}
    (h : Arrives p spot around symbols s) :
    ∃ after t, statement around symbols s = .ok (after, t) ∧ typed.Stands spot t := by
  induction h with
  | top hp hsplit hbefore =>
    subst hp
    cases program_step htyped with
    | statements hinner =>
      rw [hsplit] at hinner
      obtain ⟨after, t, rest, rfl, ht⟩ := statements_front hinner hbefore
      exact ⟨after, t, ht, .top rfl⟩
  | inside _ hopens hbefore ih =>
    obtain ⟨_, outer, houter, hstands⟩ := ih
    obtain ⟨inner, last, hblock, hinner⟩ := hopens.blocks houter
    obtain ⟨after, t, rest, rfl, ht⟩ := statements_front hinner hbefore
    exact ⟨after, t, ht, .inside hstands hblock⟩

theorem Arrives.functions {around : Surroundings} {symbols : Symbols} {s : Stmt Info}
    (h : Arrives p spot around symbols s) : ∃ mark body, p = .statements mark body ∧
      symbols.functions = (register .empty body).1.functions := by
  induction h with
  | top hp _ hbefore => exact ⟨_, _, hp, statements_functions hbefore⟩
  | inside _ hopens hbefore ih =>
    obtain ⟨mark, body, hp, hfunctions⟩ := ih
    exact ⟨mark, body, hp, (statements_functions hbefore).trans (hopens.functions.trans hfunctions)⟩

end Typing
end CatScript
