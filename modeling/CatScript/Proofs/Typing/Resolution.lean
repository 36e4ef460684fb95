import CatScript.Proofs.Arena.Typed
import CatScript.Proofs.Grammar.Form
import CatScript.Proofs.Typing.Functions
import CatScript.Proofs.Typing.Spots

/-! # Name resolution

Typing resolves names as the text of the program has them (`Arena.names_resolved`): a variable is
unknown where no declaration of it is visible, and has the type of the declaration that its name
refers to everywhere else.  The symbols with which typing comes to a spot are the declarations
before it (`Symbols.Knows`). -/
set_option autoImplicit false
namespace CatScript

def Info.Reports (info : Info) (problem : Problem) : Prop :=
  ∃ diagnostic ∈ info.errors, diagnostic.problem = problem

namespace Info
variable {info : Info} {problem other : Problem}

theorem reports_append (diagnostic : Diagnostic) :
    Reports { info with errors := info.errors ++ [diagnostic] } problem ↔
      info.Reports problem ∨ diagnostic.problem = problem := by
  simp only [Reports, List.mem_append, List.mem_singleton, or_and_right, exists_or,
    exists_eq_left]

theorem reports_flag : (info.flag other).Reports problem ↔ info.Reports problem ∨ other = problem :=
  reports_append _

theorem reports_flagIf (wrong : Bool) : (info.flagIf wrong other).Reports problem ↔
    info.Reports problem ∨ wrong = true ∧ other = problem := by
  unfold flagIf
  cases wrong with
  | true => exact reports_flag.trans (by simp)
  | false => simp

theorem reports_ifAppend (wrong : Bool) {diagnostic : Diagnostic} {ty? : Option Ty}
    (h : diagnostic.problem ≠ problem) :
    Reports { (if wrong then { info with errors := info.errors ++ [diagnostic] } else info) with
      ty := ty? } problem ↔ info.Reports problem := by
  cases wrong with
  | true => exact (reports_append diagnostic).trans ⟨fun hor => hor.resolve_right h, .inl⟩
  | false => exact Iff.rfl

/-- A problem of names or types has not been reported of a node that has just been read. -/
theorem not_reports_of_form (h : OfForm info.errors) (hproblem : problem.isSyntactic = false) :
    ¬info.Reports problem := by
  rintro ⟨diagnostic, hdiagnostic, rfl⟩
  rw [h diagnostic hdiagnostic] at hproblem
  cases hproblem

end Info

section Stack
variable {α : Type}

def Scopes.stack (scopes : Scopes α) : List (Scope α) :=
  scopes.nested ++ [scopes.outermost]

namespace Scopes

theorem stack_eq (scopes : Scopes α) :
    scopes.stack = scopes.innermost :: scopes.stack.tail := by
  obtain ⟨outermost, nested⟩ := scopes
  cases nested <;> rfl

theorem stack_declare (scopes : Scopes α) (name : String) (value : α) :
    (scopes.declare name value).stack =
      scopes.innermost.bind name value :: scopes.stack.tail := by
  obtain ⟨outermost, nested⟩ := scopes
  cases nested <;> rfl

theorem find?_stack (scopes : Scopes α) (name : String) :
    scopes.find? name = scopes.stack.findSome? (·.find? name) := by
  rw [find?, stack, List.findSome?_append]
  cases scopes.nested.findSome? (·.find? name) with
  | some value => rfl
  | none =>
    rw [Option.none_or, List.findSome?_cons]
    cases scopes.outermost.find? name <;> rfl

end Scopes
end Stack

/-- The variables in scope are those that are declared before the spot. -/
def Symbols.Knows (symbols : Symbols) (spot : Spot) : Prop :=
  List.Forall₂ (Scope.Match fun declared ty => declared = some ty) (spot.map Stretch.declared)
    symbols.scopes.stack

namespace Symbols.Knows
variable {symbols : Symbols} {spot : Spot} {name : String} {ty : Ty}

theorem find? (h : symbols.Knows spot) (name : String) :
    spot.find? name = (symbols.typeOf? name).map some := by
  have hrel : Option.Rel (fun declared ty => declared = some ty) (spot.find? name)
      (symbols.typeOf? name) := by
    rw [typeOf?, Scopes.find?_stack]
    exact Scopes.findSome?_match h name
  generalize spot.find? name = declared at hrel ⊢
  generalize symbols.typeOf? name = found at hrel ⊢
  cases hrel with
  | none => rfl
  | some heq => exact congrArg some heq

theorem not_visible_iff (h : symbols.Knows spot) :
    ¬spot.Visible name ↔ symbols.typeOf? name = none := by
  rw [Spot.not_visible_iff, h.find? name, Option.map_eq_none_iff]

theorem refers_iff (h : symbols.Knows spot) {ty? : Option Ty} :
    spot.Refers name ty? ↔ ∃ ty, symbols.typeOf? name = some ty ∧ some ty = ty? := by
  rw [Spot.refers_iff, h.find? name, Option.map_eq_some_iff]

theorem declaredHere_iff (h : symbols.Knows spot) :
    symbols.declaredHere name = true ↔ spot.DeclaredHere name := by
  rw [Knows, Scopes.stack_eq] at h
  cases spot with
  | nil => cases h
  | cons stretch rest =>
    obtain ⟨hmatch, -⟩ := List.forall₂_cons.1 h
    have hnone := hmatch.none_iff name
    rw [Scope.find?_eq_none_iff] at hnone
    have hhere : Spot.DeclaredHere (stretch :: rest) name ↔ name ∈ stretch.names := by
      constructor
      · rintro ⟨_, _, heq, hname⟩
        cases heq
        exact hname
      · exact fun hname => ⟨stretch, rest, rfl, hname⟩
    rw [hhere, declaredHere, Option.isSome_iff_ne_none, ne_eq, ← hnone, not_not]
    rfl

theorem empty : Symbols.empty.Knows [⟨[], []⟩] :=
  List.Forall₂.cons (fun _ => .none) .nil

theorem add {stretch now : Stretch} (h : symbols.Knows (stretch :: spot))
    (hnow : now.declared = stretch.declared ++ [(name, some ty)]) :
    (if symbols.declaredHere name then symbols else symbols.declare name ty).Knows
      (now :: spot) := by
  rw [Knows, Scopes.stack_eq] at h
  obtain ⟨hmatch, hrest⟩ := List.forall₂_cons.1 h
  have hfind : ∀ other, Scope.find? now.declared other =
      (Scope.find? stretch.declared other).or (if name = other then some (some ty) else none) := by
    intro other
    rw [hnow, Scope.find?_append]
    rfl
  cases hhere : symbols.scopes.innermost.find? name with
  | some old =>
    -- The name keeps its first type, and the list finds its first declaration.
    obtain ⟨declared, hdeclared, -⟩ := hmatch.find hhere
    rw [declaredHere, hhere, Option.isSome_some, if_pos rfl, Knows, Scopes.stack_eq]
    refine List.Forall₂.cons (fun other => ?_) hrest
    rw [hfind]
    by_cases hname : name = other
    · have hmatch := hmatch other
      rw [← hname, hdeclared] at hmatch ⊢
      exact hmatch
    · rw [if_neg hname, Option.or_none]
      exact hmatch other
  | none =>
    rw [declaredHere, hhere, Option.isSome_none, if_neg Bool.false_ne_true, Knows, declare,
      Scopes.stack_declare]
    refine List.Forall₂.cons (fun other => ?_) hrest
    rw [hfind, Scope.find?_bind]
    by_cases hname : name = other
    · rw [if_pos hname, if_pos hname, ← hname, (hmatch.none_iff name).2 hhere]
      exact .some rfl
    · rw [if_neg hname, if_neg hname, Option.or_none]
      exact hmatch other

theorem pass {stretch now : Stretch} (h : symbols.Knows (stretch :: spot))
    (hnow : now.declared = stretch.declared) : symbols.Knows (now :: spot) := by
  rw [Knows, List.map_cons, hnow]
  exact h

theorem step {after : Symbols} {typed : Stmt Info} {bound : List (String × Option Ty)}
    {before : List (Stmt Info)} (h : symbols.Knows (⟨bound, before⟩ :: spot))
    (hafter : typed.declares = [] ∧ after = symbols ∨
      ∃ name ty, typed.declares = [(name, some ty)] ∧
        after = if symbols.declaredHere name then symbols else symbols.declare name ty) :
    after.Knows (⟨bound, before ++ [typed]⟩ :: spot) := by
  have hdeclared := Stretch.declared_append bound before typed
  rcases hafter with ⟨hnone, rfl⟩ | ⟨name, ty, hone, rfl⟩
  · rw [hnone, List.append_nil] at hdeclared
    exact h.pass hdeclared
  · rw [hone] at hdeclared
    exact h.add hdeclared

theorem enter (h : symbols.Knows spot) : symbols.enter.Knows (⟨[], []⟩ :: spot) :=
  List.Forall₂.cons (fun _ => .none) h

theorem enterLoop (h : symbols.Knows spot) (name : String) (ty : Ty) :
    (symbols.enter.declare name ty).Knows (⟨[(name, some ty)], []⟩ :: spot) := by
  refine List.Forall₂.cons (fun other => ?_) h
  show Option.Rel _ (if name = other then _ else none) (if name = other then _ else none)
  split
  · exact .some rfl
  · exact .none

/-- The parameters of a function are declared at the start of its body, the first of a name. -/
theorem bindParameters {bound : List (String × Option Ty)} (params : List Parameter)
    (h : symbols.Knows (⟨bound, []⟩ :: spot)) :
    (Typing.bindParameters symbols params).1.Knows
      (⟨bound ++ params.map fun param => (param.name, some param.ty), []⟩ :: spot) := by
  induction params generalizing symbols bound with
  | nil => exact h.pass (by simp)
  | cons param rest ih =>
    have hnow : Stretch.declared ⟨bound ++ [(param.name, some param.ty)], []⟩ =
        Stretch.declared ⟨bound, []⟩ ++ [(param.name, some param.ty)] := by
      simp [Stretch.declared]
    have hrest := ih (h.add hnow)
    rw [List.append_assoc] at hrest
    rw [Typing.bindParameters]
    split <;> rename_i hhere
    · rw [if_pos hhere] at hrest
      exact hrest
    · rw [if_neg hhere] at hrest
      exact hrest

end Symbols.Knows

/-- The node of a variable is as the text has it: the variable is unknown if no declaration of it is
visible at the spot, and has the type of the declaration that its name refers to if there is one. -/
structure Info.ResolvedAt (spot : Spot) (name : String) (info : Info) : Prop where
  unknown : info.Reports .unknownName ↔ ¬spot.Visible name
  known : spot.Visible name →
    ∃ ty, info.ty = some ty ∧ ∀ declared, spot.Refers name declared ↔ declared = some ty

/-- What typing has made of a variable: it is unknown if the symbols do not have it, and has the type
that they have for it if they do. -/
structure Info.FoundIn (symbols : Symbols) (name : String) (info : Info) : Prop where
  unknown : info.Reports .unknownName ↔ symbols.typeOf? name = none
  known : ∀ ty, symbols.typeOf? name = some ty → info.ty = some ty

namespace Info.FoundIn
variable {symbols : Symbols} {name : String} {info : Info} {ty : Ty}

theorem of_some (hty : symbols.typeOf? name = some ty) (hfresh : ¬info.Reports .unknownName)
    (hinfo : info.ty = some ty) : info.FoundIn symbols name := by
  refine ⟨iff_of_false hfresh ?_, fun other hother => ?_⟩
  · rw [hty]
    nofun
  · exact hinfo.trans (hty.symm.trans hother)

theorem of_none (hty : symbols.typeOf? name = none) (hreports : info.Reports .unknownName) :
    info.FoundIn symbols name := by
  refine ⟨iff_of_true hreports hty, fun other hother => ?_⟩
  rw [hty] at hother
  cases hother

theorem resolvedAt {spot : Spot} (h : info.FoundIn symbols name) (hknows : symbols.Knows spot) :
    info.ResolvedAt spot name := by
  refine ⟨h.unknown.trans hknows.not_visible_iff.symm, fun hvisible => ?_⟩
  cases hty : symbols.typeOf? name with
  | none => exact absurd hvisible (hknows.not_visible_iff.2 hty)
  | some ty =>
    refine ⟨ty, h.known ty hty, fun declared => hknows.refers_iff.trans ?_⟩
    rw [hty]
    exact ⟨fun ⟨_, hsome, heq⟩ => heq.symm.trans hsome.symm, fun heq => ⟨ty, rfl, heq.symm⟩⟩

end Info.FoundIn

/-- The node is a part of an expression, and if it is a variable it is as the symbols have it. -/
def Row.Found (symbols : Symbols) (row : Row) : Prop :=
  match row.2 with
  | .identifier name => row.1.FoundIn symbols name
  | .declaration .. | .assignment .. | .loop .. => False
  | _ => True

def AllFound (symbols : Symbols) (rows : List Row) : Prop :=
  ∀ row ∈ rows, row.Found symbols

def Row.SettledAt (spot : Spot) (row : Row) : Prop :=
  match row.2 with
  | .identifier name | .assignment name _ => row.1.ResolvedAt spot name
  | .declaration name _ _ => row.1.Reports .duplicateName ↔ spot.DeclaredHere name
  | .loop name _ _ => row.1.Reports .duplicateName ↔ spot.Visible name
  | _ => True

/-- What is reported of the nodes before typing is of form, except of functions, whose names have
been looked at. -/
def AllRead (rows : List Row) : Prop :=
  ∀ row ∈ rows, OfForm row.1.errors ∨
    ∃ name params returns body, row.2 = .function name params returns body

namespace AllRead
variable {row : Row} {rows more : List Row}

theorem head (h : AllRead (row :: rows))
    (hkind : ∀ name params returns body, row.2 ≠ .function name params returns body) :
    OfForm row.1.errors := by
  rcases h row List.mem_cons_self with hform | ⟨name, params, returns, body, hfunction⟩
  · exact hform
  · exact absurd hfunction (hkind name params returns body)

theorem tail (h : AllRead (row :: rows)) : AllRead rows := by
  intro other hother
  exact h other (List.mem_cons_of_mem row hother)

theorem left (h : AllRead (rows ++ more)) : AllRead rows := by
  intro row hrow
  exact h row (List.mem_append_left more hrow)

theorem right (h : AllRead (rows ++ more)) : AllRead more := by
  intro row hrow
  exact h row (List.mem_append_right rows hrow)

end AllRead

namespace AllFound
variable {symbols : Symbols} {rows more : List Row}

theorem nil : AllFound symbols [] := nofun

theorem append (h : AllFound symbols rows) (h' : AllFound symbols more) :
    AllFound symbols (rows ++ more) := by
  intro row hrow
  rcases List.mem_append.1 hrow with hrow | hrow
  · exact h row hrow
  · exact h' row hrow

theorem cons {row : Row} (hrow : row.Found symbols) (h : AllFound symbols rows) :
    AllFound symbols (row :: rows) :=
  List.forall_mem_cons.2 ⟨hrow, h⟩

theorem flagHead (h : AllFound symbols rows) (wrong : Bool) {problem : Problem}
    (hproblem : problem ≠ .unknownName) :
    AllFound symbols (rows.modifyHead (Prod.map (·.flagIf wrong problem) id)) := by
  cases rows with
  | nil => exact h
  | cons row rest =>
    obtain ⟨hfirst, hrest⟩ := List.forall_mem_cons.1 h
    refine cons ?_ hrest
    obtain ⟨info, kind⟩ := row
    cases kind with
    | identifier name =>
      obtain ⟨hunknown, hknown⟩ := hfirst
      have hflag : (info.flagIf wrong problem).Reports .unknownName ↔ info.Reports .unknownName := by
        rw [Info.reports_flagIf]
        exact ⟨fun hor => hor.elim id fun hand => absurd hand.2 hproblem, .inl⟩
      refine ⟨hflag.trans hunknown, fun ty hty => ?_⟩
      exact ((Info.Grows.refl info).flagIf wrong problem).ty.trans (hknown ty hty)
    | _ => exact hfirst

end AllFound

namespace Typing
open Symbols

def Typed.Found (symbols : Symbols) (typed : Typed) : Prop :=
  AllFound symbols typed.expr.rows

namespace Typed.Found
variable {symbols : Symbols} {typed : Typed}

theorem flagIf (h : Found symbols typed) (wrong : Bool) :
    Found symbols (typed.flagIf wrong .incompatibleTypes) := by
  have hrows : (typed.flagIf wrong .incompatibleTypes).expr.rows =
      typed.expr.rows.modifyHead (Prod.map (·.flagIf wrong .incompatibleTypes) id) :=
    Expr.rows_adjust _ _
  rw [Found, hrows]
  exact AllFound.flagHead h wrong nofun

theorem expect (h : Found symbols typed) (ty : Ty) : Found symbols (typed.expect ty) :=
  h.flagIf _

theorem fit (h : Found symbols typed) (target : Ty) : Found symbols (typed.fit target) :=
  h.flagIf _

theorem asValue (h : Found symbols typed) : Found symbols typed.asValue :=
  h.flagIf _

end Typed.Found

section Lists
variable {symbols : Symbols} {values : List Typed}

theorem allFound_rowsAll (h : ∀ value ∈ values, Typed.Found symbols value) :
    AllFound symbols (Expr.rowsAll (values.map Typed.expr)) := by
  induction values with
  | nil => exact .nil
  | cons value rest ih =>
    obtain ⟨hfirst, hrest⟩ := List.forall_mem_cons.1 h
    exact AllFound.append hfirst (ih hrest)

theorem allFound_fitAll (h : ∀ value ∈ values, Typed.Found symbols value) (params : List Ty) :
    AllFound symbols (Expr.rowsAll (fitAll values params)) := by
  induction values generalizing params with
  | nil => exact .nil
  | cons value rest ih =>
    obtain ⟨hfirst, hrest⟩ := List.forall_mem_cons.1 h
    cases params with
    | nil => exact AllFound.append hfirst (allFound_rowsAll hrest)
    | cons param params => exact AllFound.append (hfirst.fit param) (ih hrest params)

end Lists

mutual

theorem expression_found {symbols : Symbols} : (e : Expr Info) → AllRead e.rows →
    {typed : Typed} → expression symbols e = .ok typed → Typed.Found symbols typed
  | .identifier info name, hread, typed, h => by
    have hfresh : ¬info.Reports .unknownName :=
      Info.not_reports_of_form (hread.head nofun) rfl
    cases expression_step h with
    | known hty => exact AllFound.nil.cons (Info.FoundIn.of_some hty hfresh rfl)
    | unknown hty =>
      exact AllFound.nil.cons (Info.FoundIn.of_none hty (Info.reports_flag.2 (.inr rfl)))
  | .integer .., _, typed, h | .string .., _, typed, h | .boolean .., _, typed, h
  | .null _, _, typed, h | .broken .., _, typed, h => by
    cases expression_step h
    exact AllFound.nil.cons trivial
  | .list info items, hread, typed, h => by
    cases expression_step h with
    | list hitems =>
      have hfound := expressions_found items hread.tail hitems
      refine AllFound.cons trivial (allFound_rowsAll fun value hvalue => ?_)
      obtain ⟨item, hitem, rfl⟩ := List.mem_map.1 hvalue
      exact (hfound item hitem).asValue
  | .parenthesized info inner, hread, typed, h => by
    cases expression_step h with
    | parenthesized hinner => exact AllFound.cons trivial (expression_found inner hread.tail hinner)
  | .unary info op operand, hread, typed, h => by
    cases expression_step h with
    | unary hoperand =>
      exact AllFound.cons trivial ((expression_found operand hread.tail hoperand).expect _)
  | .binary info op left right, hread, typed, h => by
    cases expression_step h with
    | concat ha hb =>
      have hleft := (expression_found left hread.tail.left ha).asValue
      exact AllFound.cons trivial (hleft.append (expression_found right hread.tail.right hb).asValue)
    | arithmetic ha hb =>
      have hleft := (expression_found left hread.tail.left ha).expect .int
      exact AllFound.cons trivial
        (hleft.append ((expression_found right hread.tail.right hb).expect .int))
  | .comparison info op left right, hread, typed, h => by
    cases expression_step h with
    | comparison ha hb =>
      have hleft := (expression_found left hread.tail.left ha).expect .int
      exact AllFound.cons trivial
        (hleft.append ((expression_found right hread.tail.right hb).expect .int))
  | .equality info op left right, hread, typed, h => by
    cases expression_step h with
    | equality ha hb =>
      have hleft := (expression_found left hread.tail.left ha).asValue
      exact AllFound.cons trivial (hleft.append (expression_found right hread.tail.right hb).asValue)
  | .call info name args, hread, typed, h => by
    cases expression_step h with
    | stray hargs =>
      exact AllFound.cons trivial (allFound_rowsAll (expressions_found args hread.tail hargs))
    | call hargs =>
      exact AllFound.cons trivial (allFound_fitAll (expressions_found args hread.tail hargs) _)

theorem expressions_found {symbols : Symbols} : (items : List (Expr Info)) →
    AllRead (Expr.rowsAll items) → {values : List Typed} → expressions symbols items = .ok values →
    ∀ value ∈ values, Typed.Found symbols value
  | [], _, values, h => by
    rw [expressions_nil h]
    exact List.forall_mem_nil _
  | e :: rest, hread, values, h => by
    obtain ⟨first, others, hfirst, hothers, rfl⟩ := expressions_cons h
    exact List.forall_mem_cons.2
      ⟨expression_found e hread.left hfirst, expressions_found rest hread.right hothers⟩

end

section Statements
variable (reported : Info → Prop)

def BodyAt (spot : Spot) (typed : List (Stmt Info)) : Prop :=
  ∃ around symbols last inFunction body, symbols.Knows spot ∧ AllRead (Stmt.rowsAll body) ∧
    Stmt.WholeAll reported inFunction body ∧ statements around symbols body = .ok (last, typed)

structure Settled (spot : Spot) (symbols after : Symbols) (typed : Stmt Info) : Prop where
  own : ∀ row, typed.rows.head? = some row → Row.SettledAt spot row
  values : ∀ e ∈ typed.values, AllFound symbols e.rows
  blocks : ∀ block ∈ typed.blocks, BodyAt reported (⟨block.1, []⟩ :: spot) block.2
  after : (typed.declares = [] ∧ after = symbols) ∨
    ∃ name ty, typed.declares = [(name, some ty)] ∧
      after = if symbols.declaredHere name then symbols else symbols.declare name ty

variable {reported} {spot : Spot} {symbols : Symbols}

theorem Settled.still {typed : Stmt Info} {info : Info} {kind : NodeKind} {rows : List Row}
    (hrows : typed.rows = (info, kind) :: rows) (hkind : Row.SettledAt spot (info, kind))
    (hvalues : ∀ e ∈ typed.values, AllFound symbols e.rows)
    (hblocks : ∀ block ∈ typed.blocks, BodyAt reported (⟨block.1, []⟩ :: spot) block.2)
    (hdeclares : typed.declares = []) : Settled reported spot symbols symbols typed := by
  refine ⟨fun row hrow => ?_, hvalues, hblocks, .inl ⟨hdeclares, rfl⟩⟩
  rw [hrows] at hrow
  cases hrow
  exact hkind

theorem returning_found {expected : Option Ty} {info now : Info} {value : Typed}
    {kept : Option Typed} (h : returning expected info (some value) = (now, kept))
    (hvalue : Typed.Found symbols value) :
    ∃ typed, kept = some typed ∧ Typed.Found symbols typed := by
  cases expected with
  | none =>
    cases h
    exact ⟨_, rfl, hvalue⟩
  | some ty =>
    cases ty with
    | void =>
      cases h
      exact ⟨_, rfl, hvalue⟩
    | _ =>
      cases h
      exact ⟨_, rfl, hvalue.fit _⟩

def Settles (reported : Info → Prop) (s : Stmt Info) : Prop :=
  ∀ ⦃spot : Spot⦄ ⦃symbols : Symbols⦄ ⦃around : Surroundings⦄ ⦃after : Symbols⦄ ⦃inFunction : Bool⦄
    ⦃typed : Stmt Info⦄, symbols.Knows spot → AllRead s.rows → s.Whole reported inFunction →
    statement around symbols s = .ok (after, typed) → Settled reported spot symbols after typed

namespace Settles
variable {info : Info} {name : String} {value condition iterable : Expr Info}
  {body thenBody elseBody : List (Stmt Info)}

theorem declaration {ty? : Option Ty} : Settles reported (.declaration info name ty? value) := by
  intro spot symbols around after inFunction typed hknows hread _ h
  have hfresh : ¬info.Reports .duplicateName :=
    Info.not_reports_of_form (hread.head nofun) rfl
  cases statement_step h with
  | declaration hvalue =>
    have hfound := (expression_found value hread.tail hvalue).asValue
    refine ⟨?_, List.forall_mem_singleton.2 hfound, nofun, .inr ⟨name, _, rfl, rfl⟩⟩
    rintro _ ⟨⟩
    refine Iff.trans ?_ hknows.declaredHere_iff
    refine (Info.reports_flagIf _).trans ?_
    rw [Info.reports_flagIf]
    simp [hfresh]

theorem assignment : Settles reported (.assignment info name value) := by
  intro spot symbols around after inFunction typed hknows hread _ h
  have hfresh : ¬info.Reports .unknownName :=
    Info.not_reports_of_form (hread.head nofun) rfl
  cases statement_step h with
  | @assignment _ _ _ _ ty hvalue hty =>
    have hfound := (expression_found value hread.tail hvalue).fit ty
    refine .still rfl ?_ (List.forall_mem_singleton.2 hfound) nofun rfl
    refine Info.FoundIn.resolvedAt ?_ hknows
    exact Info.FoundIn.of_some hty hfresh rfl
  | stray hvalue hty =>
    have hfound := expression_found value hread.tail hvalue
    refine .still rfl ?_ (List.forall_mem_singleton.2 hfound) nofun rfl
    refine Info.FoundIn.resolvedAt ?_ hknows
    exact Info.FoundIn.of_none hty (Info.reports_flag.2 (.inr rfl))

theorem function {params : List Parameter} {returns : Ty} :
    Settles reported (.function info name params returns body) := by
  intro spot symbols around after inFunction typed hknows hread hwhole h
  cases statement_step h with
  | function hbody =>
    refine .still rfl trivial nofun (List.forall_mem_singleton.2 ?_) rfl
    exact ⟨_, _, _, true, body, hknows.enter.bindParameters params, hread.tail, hwhole.2.2, hbody⟩

theorem ifThen : Settles reported (.ifThen info condition thenBody) := by
  intro spot symbols around after inFunction typed hknows hread hwhole h
  cases statement_step h with
  | ifThen hcondition hthen =>
    have hfound := (expression_found condition hread.tail.left hcondition).expect .boolean
    refine .still rfl trivial (List.forall_mem_singleton.2 hfound)
      (List.forall_mem_singleton.2 ?_) rfl
    exact ⟨_, _, _, _, thenBody, hknows.enter, hread.tail.right, hwhole.2, hthen⟩

theorem ifThenElse : Settles reported (.ifThenElse info condition thenBody elseBody) := by
  intro spot symbols around after inFunction typed hknows hread hwhole h
  cases statement_step h with
  | ifThenElse hcondition hthen helse =>
    have hfound := (expression_found condition hread.tail.left.left hcondition).expect .boolean
    refine .still rfl trivial (List.forall_mem_singleton.2 hfound)
      (List.forall_mem_cons.2 ⟨?_, List.forall_mem_singleton.2 ?_⟩) rfl
    · exact ⟨_, _, _, _, thenBody, hknows.enter, hread.tail.left.right, hwhole.2.1, hthen⟩
    · exact ⟨_, _, _, _, elseBody, hknows.enter, hread.tail.right, hwhole.2.2, helse⟩

theorem loop : Settles reported (.loop info name iterable body) := by
  intro spot symbols around after inFunction typed hknows hread hwhole h
  have hfresh : ¬info.Reports .duplicateName :=
    Info.not_reports_of_form (hread.head nofun) rfl
  cases statement_step h with
  | loop hiterable hty hbody =>
    have hfound := expression_found iterable hread.tail.left hiterable
    refine .still rfl ?_ (List.forall_mem_singleton.2 hfound)
      (List.forall_mem_singleton.2 ?_) rfl
    · have hvisible : spot.Visible name ↔ (symbols.typeOf? name).isSome = true := by
        rw [Option.isSome_iff_ne_none, ne_eq, ← hknows.not_visible_iff, not_not]
      refine Iff.trans ?_ hvisible.symm
      refine Iff.trans (Info.reports_ifAppend _ nofun) ?_
      rw [Info.reports_flagIf]
      simp [hfresh]
    · exact ⟨_, _, _, _, body, hknows.enterLoop name _, hread.tail.right, hwhole.2, hbody⟩

theorem print : Settles reported (.print info value) := by
  intro spot symbols around after inFunction typed _ hread _ h
  cases statement_step h with
  | print hvalue =>
    have hfound := (expression_found value hread.tail hvalue).asValue
    exact .still rfl trivial (List.forall_mem_singleton.2 hfound) nofun rfl

theorem call : Settles reported (.call info value) := by
  intro spot symbols around after inFunction typed _ hread _ h
  cases statement_step h with
  | call hvalue =>
    have hfound := expression_found value hread.tail hvalue
    exact .still rfl trivial (List.forall_mem_singleton.2 hfound) nofun rfl

theorem leave : Settles reported (.returning info none) := by
  intro spot symbols around after inFunction typed _ _ _ h
  cases statement_step h
  exact .still rfl trivial nofun nofun rfl

theorem returning : Settles reported (.returning info (some value)) := by
  intro spot symbols around after inFunction typed _ hread _ h
  cases statement_step h with
  | @returning _ _ first expected hvalue =>
    have hfound := expression_found value hread.tail hvalue
    cases hreturning : Typing.returning expected info (some first) with
    | mk now kept =>
      obtain ⟨typed, rfl, hkept⟩ := returning_found hreturning hfound
      exact .still rfl trivial (List.forall_mem_singleton.2 hkept) nofun rfl

theorem broken {text : String} : Settles reported (.broken info text) := by
  intro spot symbols around after inFunction typed _ _ _ h
  cases statement_step h
  exact .still rfl trivial nofun nofun rfl

end Settles

theorem statement_settles (s : Stmt Info) : Settles reported s := by
  cases s with
  | declaration => exact .declaration
  | assignment => exact .assignment
  | function => exact .function
  | ifThen => exact .ifThen
  | ifThenElse => exact .ifThenElse
  | loop => exact .loop
  | print => exact .print
  | call => exact .call
  | returning mark e =>
    cases e with
    | none => exact .leave
    | some e => exact .returning
  | broken => exact .broken
  | bare =>
    intro _ _ _ _ _ _ _ _ hwhole
    exact hwhole.elim

theorem Settled.knows {after : Symbols} {typed : Stmt Info} {bound : List (String × Option Ty)}
    {before : List (Stmt Info)} (hknows : symbols.Knows (⟨bound, before⟩ :: spot))
    (h : Settled reported (⟨bound, before⟩ :: spot) symbols after typed) :
    after.Knows (⟨bound, before ++ [typed]⟩ :: spot) :=
  hknows.step h.after

variable (reported)

/-- Typing has come to the spot with the variables that are declared before it. -/
def StatementAt (spot : Spot) (typed : Stmt Info) : Prop :=
  ∃ symbols after, symbols.Knows spot ∧ Settled reported spot symbols after typed

variable {reported}

theorem statements_settled {bound : List (String × Option Ty)} {inFunction : Bool}
    {around : Surroundings} {last : Symbols} : (body : List (Stmt Info)) → {symbols : Symbols} →
    {passed : List (Stmt Info)} → symbols.Knows (⟨bound, passed⟩ :: spot) →
    AllRead (Stmt.rowsAll body) → Stmt.WholeAll reported inFunction body →
    {before after : List (Stmt Info)} → {typed : Stmt Info} →
    statements around symbols body = .ok (last, before ++ typed :: after) →
    StatementAt reported (⟨bound, passed ++ before⟩ :: spot) typed
  | [], symbols, passed, _, _, _, before, after, typed, h =>
    absurd (statements_nil h).2 (List.append_ne_nil_of_right_ne_nil _ (List.cons_ne_nil _ _))
  | s :: rest, symbols, passed, hknows, hread, hwhole, before, after, typed, h => by
    obtain ⟨middle, first, others, hfirst, hothers, heq⟩ := statements_cons h
    have hsettled := statement_settles s hknows hread.left hwhole.1 hfirst
    cases before with
    | nil =>
      cases heq
      rw [List.append_nil]
      exact ⟨symbols, middle, hknows, hsettled⟩
    | cons one before =>
      cases heq
      have hrest := statements_settled rest (hsettled.knows hknows) hread.right hwhole.2 hothers
      rw [List.append_assoc] at hrest
      exact hrest

theorem BodyAt.statementAt {bound : List (String × Option Ty)} {before after : List (Stmt Info)}
    {typed : Stmt Info} (h : BodyAt reported (⟨bound, []⟩ :: spot) (before ++ typed :: after)) :
    StatementAt reported (⟨bound, before⟩ :: spot) typed := by
  obtain ⟨around, symbols, last, inFunction, body, hknows, hread, hwhole, htyped⟩ := h
  exact statements_settled body hknows hread hwhole htyped

/-- Typing comes to every statement with the variables that are declared before it. -/
theorem stands_settled {p : Program Info}
    (hp : ∀ mark body, p = .statements mark body → BodyAt reported [⟨[], []⟩] body)
    {typed : Stmt Info} (h : p.Stands spot typed) : StatementAt reported spot typed := by
  induction h with
  | top hbody => exact (hp _ _ hbody).statementAt
  | inside _ hblock ih =>
    obtain ⟨symbols, after, -, hsettled⟩ := ih
    exact (hsettled.blocks _ hblock).statementAt

theorem settledAt_of_found {row : Row} (hknows : symbols.Knows spot) (h : row.Found symbols) :
    row.SettledAt spot := by
  obtain ⟨info, kind⟩ := row
  cases kind with
  | identifier name => exact Info.FoundIn.resolvedAt h hknows
  | declaration | assignment | loop => exact h.elim
  | _ => trivial

/-- Functions are reported before anything else is typed. -/
theorem register_read {body : List (Stmt Info)} (h : AllRead (Stmt.rowsAll body))
    (symbols : Symbols) : AllRead (Stmt.rowsAll (register symbols body).2) := by
  induction body generalizing symbols with
  | nil => exact h
  | cons s rest ih =>
    have hrest := ih h.right
    cases s with
    | function info name params returns body =>
      refine List.forall_mem_cons.2 ⟨.inr ⟨_, _, _, _, rfl⟩, fun row hrow => ?_⟩
      rcases List.mem_append.1 hrow with hrow | hrow
      · exact h.left.tail row hrow
      · exact hrest _ row hrow
    | _ => exact fun row hrow => (List.mem_append.1 hrow).elim (h.left row) (hrest symbols row)

variable (reported) in
theorem has_settled {p : Program Info}
    (hbody : ∀ mark body, p = .statements mark body → BodyAt reported [⟨[], []⟩] body)
    (hexpression : ∀ mark e, p = .expression mark e → AllFound .empty e.rows) {row : Row}
    (h : p.Has spot row) : row.SettledAt spot := by
  cases h with
  | alone heq hrow =>
    exact settledAt_of_found Symbols.Knows.empty (hexpression _ _ heq row hrow)
  | statement hstands hrow =>
    obtain ⟨symbols, after, -, hsettled⟩ := stands_settled hbody hstands
    exact hsettled.own row hrow
  | part hstands he hrow =>
    obtain ⟨symbols, after, hknows, hsettled⟩ := stands_settled hbody hstands
    exact settledAt_of_found hknows (hsettled.values _ he row hrow)

theorem program_settled {p typed : Program Info} (hread : AllRead p.rows)
    (hwhole : p.Whole reported) (h : program (.ok none) p = .ok typed) {row : Row}
    (hrow : typed.Has spot row) : row.SettledAt spot := by
  cases program_step h with
  | expression hbody =>
    refine has_settled reported (fun _ _ heq => ?_) (fun _ e heq => ?_) hrow
    · cases heq
    · cases heq
      exact expression_found _ hread.tail hbody
  | @statements _ body _ _ hbody =>
    have hknows : (register .empty body).1.Knows [⟨[], []⟩] := by
      rw [Symbols.Knows, register_scopes]
      exact Symbols.Knows.empty
    refine has_settled reported (fun _ _ heq => ?_) (fun _ _ heq => ?_) hrow
    · cases heq
      exact ⟨_, _, _, _, _, hknows, register_read hread.tail .empty, register_whole .empty hwhole,
        hbody⟩
    · cases heq

end Statements

end Typing

/-- The names of a program mean what its text makes them mean.  Every node but the root has a spot;
a variable that is used or assigned there is known if and only if a declaration of it is visible,
and has the type of the one that its name refers to; a declaration repeats a name of its own scope,
and a loop any name in sight, if and only if that is reported. -/
structure Program.Resolved (p : Program Info) : Prop where
  placed : ∀ row ∈ p.rows.tail, ∃ spot, p.Has spot row
  uses : ∀ spot info name, p.Has spot (info, .identifier name) → info.ResolvedAt spot name
  targets : ∀ spot info name value,
    p.Has spot (info, .assignment name value) → info.ResolvedAt spot name
  declarations : ∀ spot info name ty? value, p.Has spot (info, .declaration name ty? value) →
    (info.Reports .duplicateName ↔ spot.DeclaredHere name)
  loops : ∀ spot info name iterable body, p.Has spot (info, .loop name iterable body) →
    (info.Reports .duplicateName ↔ spot.Visible name)

namespace Arena

def NamesResolved (arena : Arena) : Prop :=
  ∃ typed p, arena.validate = .ok typed ∧ typed.program? = .ok (some p) ∧ p.Resolved

theorem ofProgram_resolved {reader : Reader (Program Mark)}
    (hwhole : Reader.Yields reader (Program.Whole Grammar.Reported))
    (hform : Reader.Yields reader Program.OfForm) (cursor : Cursor) :
    (ofProgram (reader.run cursor).1).NamesResolved := by
  obtain ⟨landed, hlanded, hholds, huntyped, -⟩ := holds_ofProgram (reader.run cursor).1
  have hwhole := hwhole.run cursor
  have hform := hform.run cursor
  rw [← hlanded] at hwhole hform
  -- Laying a tree out in the arena keeps what has been reported of its nodes.
  have hread : AllRead landed.rows := by
    intro row hrow
    have hmark : row.1.read ∈ (landed.map Info.read).marks := by
      rw [Program.marks_map, ← landed.rows_marks, List.map_map]
      exact List.mem_map_of_mem hrow
    exact .inl (hform _ hmark)
  obtain ⟨p, hp, -⟩ := Typing.program_total huntyped (landed.whole_of_map hwhole)
  have hvalidate : (ofProgram (reader.run cursor).1).validate =
      .ok ((ofProgram (reader.run cursor).1).adopt p) := by
    rw [hholds.validate_eq, hp]
    rfl
  have hadopted := hholds.adopt (Typing.program_shape hp)
  have hsettled : ∀ spot row, p.Has spot row → row.SettledAt spot :=
    fun spot row => Typing.program_settled hread (landed.whole_of_map hwhole) hp
  exact ⟨_, p, hvalidate, hadopted.program?, Program.has_of_mem,
    fun _ _ _ => hsettled _ _, fun _ _ _ _ => hsettled _ _, fun _ _ _ _ _ => hsettled _ _,
    fun _ _ _ _ _ => hsettled _ _⟩

/-- In the typed tree of every text names mean what the text makes them mean, whether the text is
read as a program or as one expression. -/
theorem names_resolved (source : String) :
    (parse source).NamesResolved ∧ (parseExpression source).NamesResolved :=
  ⟨ofProgram_resolved Grammar.whole_program Grammar.ofForm_program _,
    ofProgram_resolved Grammar.whole_expressionProgram Grammar.ofForm_expressionProgram _⟩

end Arena
end CatScript
