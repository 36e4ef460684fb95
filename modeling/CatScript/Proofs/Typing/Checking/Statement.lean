import CatScript.Proofs.Typing.Checking.Expression

/-! # Statements typed in place

What typing makes of a statement is what the checker writes into the arena, and the symbols after it
are those that typing has after it (`Checking.statement_ends`).  Every scope that a statement opens
it closes again, and finds the symbols from before, because statements declare names in the
innermost scope alone (`Typing.statements_leave`).  Where a statement stands, the checker finds out
by looking up from its node; `Within` says that what it finds is what the tree was typed with. -/
set_option autoImplicit false
namespace CatScript
open Typing (Typed declaredType statement_step)

section Scopes

theorem Symbols.leave_declare (symbols : Symbols) (name : String) (ty : Ty) :
    (symbols.declare name ty).leave = symbols.leave := by
  obtain ⟨⟨outermost, nested⟩, functions⟩ := symbols
  cases nested <;> rfl

theorem Symbols.typeOf?_enter (symbols : Symbols) (name : String) :
    symbols.enter.typeOf? name = symbols.typeOf? name :=
  Scopes.find?_push symbols.scopes name

namespace Typing

theorem leave_bindParameters (symbols : Symbols) (params : List Parameter) :
    (bindParameters symbols params).1.leave = symbols.leave := by
  induction params generalizing symbols with
  | nil => rfl
  | cons param rest ih =>
    rw [bindParameters]
    split
    · exact ih symbols
    · exact (ih _).trans (symbols.leave_declare _ _)

theorem statement_leave {around : Surroundings} {symbols after : Symbols} {s typed : Stmt Info}
    (h : statement around symbols s = .ok (after, typed)) : after.leave = symbols.leave := by
  cases statement_step h with
  | declaration =>
    split
    · rfl
    · exact symbols.leave_declare _ _
  | _ => rfl

/-- Outside of the innermost scope statements change nothing. -/
theorem statements_leave {around : Surroundings} {symbols after : Symbols}
    {body typed : List (Stmt Info)} (h : statements around symbols body = .ok (after, typed)) :
    after.leave = symbols.leave := by
  induction body generalizing symbols typed with
  | nil => rw [(statements_nil h).1]
  | cons s rest ih =>
    obtain ⟨middle, first, others, hfirst, hothers, -⟩ := statements_cons h
    exact (ih hothers).trans (statement_leave hfirst)

end Typing
end Scopes

section Above

inductive Arena.Returns (arena : Arena) : Option NodeId → Option Ty → Prop where
  | nothing : Returns arena none none
  | function {id : NodeId} {name : String} {params : List Parameter} {returns : Ty}
      {body : List NodeId} : arena.HasKind id (.function name params returns body) →
      Returns arena (some id) (some returns)

/-- The node stands where the surroundings say: directly in a program or not, and in a function that
returns what they say or in none. -/
structure Within (arena : Arena) (id : NodeId) (around : Surroundings) : Prop where
  above : ∃ parent kind, arena.Lists parent id ∧ arena.HasKind parent kind ∧
    kind.isProgram = around.topLevel
  function : ∃ found returns?, arena.Around id found ∧ arena.Returns found returns? ∧
    around.returnType = .ok returns?

namespace Within
variable {arena : Arena} {around : Surroundings} {id child : NodeId} {kind : NodeKind}

theorem inside (h : Within arena id around) (hkind : arena.HasKind id kind)
    (hprogram : kind.isProgram = false)
    (hfunction : ∀ name params returns body, kind ≠ .function name params returns body)
    (hchild : child ∈ kind.children) : Within arena child around.inside := by
  obtain ⟨found, returns?, haround, hreturns, hok⟩ := h.function
  obtain ⟨node, hnode, rfl⟩ := hkind
  have hlists : arena.Lists id child := ⟨node, hnode, hchild⟩
  exact ⟨⟨id, node.kind, hlists, ⟨node, hnode, rfl⟩, hprogram⟩,
    found, returns?, .above hlists hnode hfunction haround, hreturns, hok⟩

theorem ofFunction {name : String} {params : List Parameter} {returns : Ty} {body : List NodeId}
    (h : arena.HasKind id (.function name params returns body)) (hchild : child ∈ body) :
    Within arena child (.ofFunction returns) := by
  obtain ⟨node, hnode, hkind⟩ := h
  have hlists : arena.Lists id child := ⟨node, hnode, hkind ▸ hchild⟩
  exact ⟨⟨id, _, hlists, ⟨node, hnode, hkind⟩, rfl⟩,
    some id, some returns, .function hlists hnode hkind, .function ⟨node, hnode, hkind⟩, rfl⟩

theorem ofProgram {body : List NodeId} (h : arena.HasKind id (.statementProgram body))
    (hroot : ∀ parent, ¬arena.Lists parent id) (hchild : child ∈ body) :
    Within arena child (.ofProgram (.ok none)) := by
  obtain ⟨node, hnode, hkind⟩ := h
  have hlists : arena.Lists id child := ⟨node, hnode, hkind ▸ hchild⟩
  have hfunction : ∀ name params returns inner,
      node.kind ≠ .function name params returns inner := by
    intro name params returns inner heq
    rw [hkind] at heq
    cases heq
  exact ⟨⟨id, _, hlists, ⟨node, hnode, hkind⟩, rfl⟩,
    none, none, .above hlists hnode hfunction (.nothing hroot), .nothing, rfl⟩

end Within
end Above

namespace Checking
variable {arena : Arena} {place : List Info → List Info} {symbols : Symbols}

section Questions
variable {marks : List Info} {id : NodeId} {around : Surroundings} (hlinks : Arena.Tracked arena [])
include hlinks

theorem topLevel_ends (h : Within arena id around) :
    Ends (fun _ => ask fun arena => arena.isTopLevel id) ⟨arena.recordAll marks, symbols⟩
      around.topLevel ⟨arena.recordAll marks, symbols⟩ := by
  obtain ⟨parent, kind, hlists, ⟨above, habove, rfl⟩, htop⟩ := h.above
  obtain ⟨node, hnode, hparent⟩ := hlinks.taken parent id hlists
  obtain ⟨now, hnow, -, -, hnowparent⟩ := Arena.getElem?_recordAll hnode marks
  obtain ⟨up, hup, hupkind, -⟩ := Arena.getElem?_recordAll habove marks
  refine .of_ok (ask_ok ?_)
  simp only [Arena.isTopLevel, node_ok hnow, bind, Except.bind, hnowparent, hparent, node_ok hup,
    hupkind, htop]
  rfl

/-- The way up from a node comes to the function around it. -/
theorem functionFrom_ends {found : Option NodeId} (h : arena.Around id found) {node : Node}
    (hnode : arena.nodes[id]? = some node) :
    Ends (functionFrom node.parent) ⟨arena.recordAll marks, symbols⟩ found
      ⟨arena.recordAll marks, symbols⟩ := by
  induction h generalizing node with
  | nothing hnothing =>
    have hparent : node.parent = none := by
      cases hparent : node.parent with
      | none => rfl
      | some parent => exact absurd (hlinks.kept _ node hnode nofun parent hparent) (hnothing _)
    rw [hparent]
    exact .call (fun _ => rfl) .pure
  | @function id parent above name params returns body hlists habove hkind =>
    obtain ⟨_, hsame, hparent⟩ := hlinks.taken parent id hlists
    cases hnode.symm.trans hsame
    rw [hparent]
    exact .call (fun _ => rfl) (.bind (kindAt_ends ⟨above, habove, hkind⟩) .pure)
  | @above id parent above found hlists habove hkind haround ih =>
    obtain ⟨_, hsame, hparent⟩ := hlinks.taken parent id hlists
    cases hnode.symm.trans hsame
    rw [hparent]
    refine .call (fun _ => rfl) (.bind (kindAt_ends ⟨above, habove, rfl⟩) ?_)
    split
    · next heq => exact absurd heq (hkind _ _ _ _)
    · exact .bind (parentAt_ends habove) (ih habove)

theorem returnTypeAround_ends (h : Within arena id around) {expected : Option Ty}
    (hexpected : around.returnType = .ok expected) :
    Ends (returnTypeAround id) ⟨arena.recordAll marks, symbols⟩ expected
      ⟨arena.recordAll marks, symbols⟩ := by
  obtain ⟨parent, -, hlists, -⟩ := h.above
  obtain ⟨node, hnode, -⟩ := hlinks.taken parent id hlists
  obtain ⟨found, returns?, haround, hreturns, hok⟩ := h.function
  cases hexpected.symm.trans hok
  refine .bind (parentAt_ends hnode) (.bind (functionFrom_ends hlinks haround hnode) ?_)
  cases hreturns with
  | nothing => exact .pure
  | function hfunction => exact .bind (kindAt_ends hfunction) .pure

end Questions

section Paths
variable {marks : List Info}

mutual

/-- Whether a statement returns is read off the kinds of nodes, which typing does not change. -/
theorem returns_ends : (s : Stmt Info) → arena.Shapes s.rows →
    Ends (returns s.mark.id) ⟨arena.recordAll marks, symbols⟩ (Typing.returns s)
      ⟨arena.recordAll marks, symbols⟩
  | .returning _ none, h | .returning _ (some _), h | .declaration .., h | .assignment .., h
  | .function .., h | .ifThen .., h | .loop .., h | .print .., h | .call .., h | .broken .., h =>
    .call (fun _ => rfl) (.bind (kindAt_ends h.head) .pure)
  | .ifThenElse info condition thenBody elseBody, h => by
    refine .call (fun _ => rfl) (.bind (kindAt_ends h.head) ?_)
    refine .bind (alwaysReturns_ends thenBody h.tail.left.right) ?_
    rw [Typing.returns]
    cases Typing.alwaysReturns thenBody with
    | false => exact .pure
    | true => exact alwaysReturns_ends elseBody h.tail.right
  | .bare value, h => by
    refine .call (fun _ => rfl) ?_
    cases value <;> exact .bind (kindAt_ends h.head) .pure

theorem alwaysReturns_ends : (body : List (Stmt Info)) → arena.Shapes (Stmt.rowsAll body) →
    Ends (alwaysReturns (Stmt.ids body)) ⟨arena.recordAll marks, symbols⟩
      (Typing.alwaysReturns body) ⟨arena.recordAll marks, symbols⟩
  | [], _ => .call (fun _ => rfl) .pure
  | s :: rest, h => by
    refine .call (fun _ => rfl) (.bind (returns_ends s h.left) ?_)
    rw [Typing.alwaysReturns]
    cases Typing.returns s with
    | false => exact alwaysReturns_ends rest h.right
    | true => exact .pure

end

end Paths

section Names
variable {info now : Info} {marks others : List Info}

theorem declare_ends (name : String) (ty : Ty) (arena : Arena) :
    Ends (fun _ => declare name ty) ⟨arena, symbols⟩ () ⟨arena, symbols.declare name ty⟩ :=
  .of_ok rfl

theorem bindParameters_ends (h : Room arena place (info :: marks)) (hgrows : info.Grows now)
    (hsame : SameNodes others marks) (params : List Parameter) (symbols : Symbols) :
    Ends (fun _ => bindParameters info.id params)
      ⟨arena.recordAll (place (now :: others)), symbols⟩ ()
      ⟨arena.recordAll (place (Typing.flagTimes .duplicateName
        (Typing.bindParameters symbols params).2 now :: others)),
        (Typing.bindParameters symbols params).1⟩ := by
  induction params generalizing now symbols with
  | nil => exact .pure
  | cons param rest ih =>
    refine .bind (.of_ok rfl) ?_
    rw [Typing.bindParameters]
    dsimp only
    split
    · exact .bind (report_ends h hgrows hsame _) (ih (hgrows.flag _) symbols)
    · exact .bind (declare_ends _ _ _) (ih hgrows _)

theorem declaration_ends (h : Room arena place (info :: marks)) (hsame : SameNodes others marks)
    (name : String) (ty? given? : Option Ty) :
    Ends (fun _ => declaration info.id name ty? given?)
      ⟨arena.recordAll (place (info :: others)), symbols⟩ (declaredType ty? given?)
      ⟨arena.recordAll (place ((info.flagIf
          (ty?.any fun ty => given?.any fun given => !ty.accepts given)
            .incompatibleTypes).flagIf (symbols.declaredHere name) .duplicateName :: others)),
        if symbols.declaredHere name then symbols
        else symbols.declare name (declaredType ty? given?)⟩ := by
  have hgrows := (Info.Grows.refl info).flagIf
    (ty?.any fun ty => given?.any fun given => !ty.accepts given) .incompatibleTypes
  refine .bind (reportIf_ends h (.refl _) hsame _ _) (.bind (.of_ok rfl) ?_)
  dsimp only
  split
  · next hagain =>
    rw [hagain]
    exact .bind (report_ends h hgrows hsame _) .pure
  · next hnew =>
    rw [Bool.eq_false_iff.2 hnew]
    exact .bind (declare_ends _ _ _) .pure

end Names

section Rules
variable {info : Info} {value : Expr Info} {s : Stmt Info} {body thenBody elseBody : List (Stmt Info)}

theorem leave_ends {last : Symbols} (h : last.leave = .ok symbols) (arena : Arena) :
    Ends (fun _ => leave) ⟨arena, last⟩ () ⟨arena, symbols⟩ := by
  refine .of_ok ?_
  unfold leave rename
  rw [h]
  rfl

def StatementEnds (arena : Arena) (s : Stmt Info) : Prop :=
  ∀ (around : Surroundings) (symbols after : Symbols) (typed : Stmt Info)
    (place : List Info → List Info), arena.Shapes s.rows → Untyped s.marks →
    Typing.statement around symbols s = .ok (after, typed) → Room arena place s.marks →
    Within arena s.mark.id around →
    Ends (statement s.mark.id) ⟨arena.recordAll (place s.marks), symbols⟩ ()
      ⟨arena.recordAll (place typed.marks), after⟩

def StatementsEnd (arena : Arena) (body : List (Stmt Info)) : Prop :=
  ∀ (around : Surroundings) (symbols after : Symbols) (typed : List (Stmt Info))
    (place : List Info → List Info), arena.Shapes (Stmt.rowsAll body) →
    Untyped (Stmt.marksAll body) → Typing.statements around symbols body = .ok (after, typed) →
    Room arena place (Stmt.marksAll body) → (∀ s ∈ body, Within arena s.mark.id around) →
    Ends (statements (Stmt.ids body)) ⟨arena.recordAll (place (Stmt.marksAll body)), symbols⟩ ()
      ⟨arena.recordAll (place (Stmt.marksAll typed)), after⟩

theorem StatementsEnd.cons (h : StatementEnds arena s) (hrest : StatementsEnd arena body) :
    StatementsEnd arena (s :: body) := by
  intro around symbols after typed place hshapes huntyped htyped hroom hwithin
  obtain ⟨middle, first, others, hfirst, hothers, rfl⟩ := Typing.statements_cons htyped
  obtain ⟨hhere, hthere⟩ := List.forall_mem_cons.1 hwithin
  have hsame := SameNodes.of_stmt (Typing.statement_shape s hfirst)
  refine .call (fun _ => rfl) ?_
  refine .bind (h _ _ _ _ _ hshapes.left huntyped.left hfirst (hroom.left (.refl _)) hhere) ?_
  exact hrest _ _ _ _ _ hshapes.right huntyped.right hothers (hroom.right hsame) hthere

theorem StatementsEnd.block (h : StatementsEnd arena body) {around : Surroundings}
    {last : Symbols} {inner : List (Stmt Info)} (hshapes : arena.Shapes (Stmt.rowsAll body))
    (huntyped : Untyped (Stmt.marksAll body))
    (hbody : Typing.statements around symbols.enter body = .ok (last, inner))
    (hroom : Room arena place (Stmt.marksAll body))
    (hwithin : ∀ s ∈ body, Within arena s.mark.id around) :
    Ends (Checking.block (Stmt.ids body))
      ⟨arena.recordAll (place (Stmt.marksAll body)), symbols⟩ ()
      ⟨arena.recordAll (place (Stmt.marksAll inner)), symbols⟩ := by
  refine .call (fun _ => rfl) (.bind (.of_ok rfl) ?_)
  refine .bind (h _ _ _ _ _ hshapes huntyped hbody hroom hwithin) ?_
  exact leave_ends ((Typing.statements_leave hbody).trans symbols.leave_enter) _

theorem StatementEnds.declaration (info : Info) (name : String) (ty? : Option Ty)
    (value : Expr Info) : StatementEnds arena (.declaration info name ty? value) := by
  intro around symbols after typed place hshapes huntyped h hroom hwithin
  cases statement_step h with
  | @declaration _ _ _ _ first ty hvalue hty =>
    have hsame := Typing.expression_shape value hvalue
    have hchecked := SameNodes.of_expr ((Typed.map_asValue first).trans hsame)
    have hgrows := (Info.Grows.refl info).flagIf
      (ty?.any fun ty => first.ty.any fun given => !ty.accepts given) .incompatibleTypes
    refine .call (fun _ => rfl) (.bind (kindAt_ends hshapes.head) ?_)
    refine .bind (expression_ends value _ _ hshapes.tail huntyped.tail hvalue hroom.tail) ?_
    refine .bind (check_ends hsame hroom.tail _ _) ?_
    refine .bind (declaration_ends hroom hchecked name ty? first.ty) ?_
    rw [hty]
    exact settle_ends hroom huntyped.head (hgrows.flagIf _ _) hchecked _

theorem StatementEnds.assignment (info : Info) (name : String) (value : Expr Info) :
    StatementEnds arena (.assignment info name value) := by
  intro around symbols after typed place hshapes huntyped h hroom hwithin
  refine .call (fun _ => rfl) (.bind (kindAt_ends hshapes.head) ?_)
  cases statement_step h with
  | @assignment _ _ _ first ty hvalue hty =>
    have hsame := Typing.expression_shape value hvalue
    have hchecked := (Typed.map_fit ty first).trans hsame
    refine .bind (expression_ends value _ _ hshapes.tail huntyped.tail hvalue hroom.tail) ?_
    refine .bind (.of_ok rfl) ?_
    simp only [hty]
    refine .bind (check_ends hsame hroom.tail _ _) ?_
    exact settle_ends hroom huntyped.head (.refl _) (.of_expr hchecked) _
  | stray hvalue hty =>
    have hsame := SameNodes.of_expr (Typing.expression_shape value hvalue)
    refine .bind (expression_ends value _ _ hshapes.tail huntyped.tail hvalue hroom.tail) ?_
    refine .bind (.of_ok rfl) ?_
    simp only [hty]
    refine .bind (report_ends hroom (.refl _) hsame _) ?_
    exact settle_ends hroom huntyped.head ((Info.Grows.refl info).flag _) hsame _

theorem lacksReturn_ends {marks : List Info} (returns : Ty)
    (h : arena.Shapes (Stmt.rowsAll body)) :
    Ends (lacksReturn returns (Stmt.ids body)) ⟨arena.recordAll marks, symbols⟩
      (returns != .void && !Typing.alwaysReturns body) ⟨arena.recordAll marks, symbols⟩ := by
  unfold lacksReturn
  by_cases hvoid : returns = .void
  · simp only [hvoid, if_true]
    exact .pure
  · simp only [hvoid, if_false, bne_iff_ne.2 hvoid, Bool.true_and]
    exact .bind (alwaysReturns_ends body h) .pure

theorem StatementEnds.function (hlinks : Arena.Tracked arena []) (info : Info) (name : String)
    (params : List Parameter) (returns : Ty) (hbody : StatementsEnd arena body) :
    StatementEnds arena (.function info name params returns body) := by
  intro around symbols after typed place hshapes huntyped h hroom hwithin
  cases statement_step h with
  | @function _ _ _ _ _ inner last hinner =>
    have hnested := (Info.Grows.refl info).flagIf (!around.topLevel) .nestedFunction
    have hgrows := hnested.flagTimes .duplicateName
      (Typing.bindParameters symbols.enter params).2
    have hsame := SameNodes.of_stmts (Typing.statements_shape body hinner)
    have hroom' := (hroom.refill (.cons hgrows.bare (.refl _))).tail
    have hleave : last.leave = .ok symbols := by
      rw [Typing.statements_leave hinner, Typing.leave_bindParameters, Symbols.leave_enter]
    have hinside : ∀ s ∈ body, Within arena s.mark.id (.ofFunction returns) :=
      fun s hs => .ofFunction hshapes.head (List.mem_map_of_mem hs)
    refine .call (fun _ => rfl) (.bind (kindAt_ends hshapes.head) ?_)
    refine .bind (topLevel_ends hlinks hwithin) ?_
    refine .bind (reportIf_ends hroom (.refl _) (.refl _) _ _) (.bind (.of_ok rfl) ?_)
    refine .bind (bindParameters_ends hroom hnested (.refl _) params symbols.enter) ?_
    refine .bind (hbody _ _ _ _ _ hshapes.tail huntyped.tail hinner hroom' hinside) ?_
    refine .bind (leave_ends hleave _) (.bind (lacksReturn_ends returns hshapes.tail) ?_)
    refine .bind (reportIf_ends hroom hgrows hsame _ _) ?_
    exact settle_ends hroom huntyped.head (hgrows.flagIf _ _) hsame _

theorem StatementEnds.ifThen (info : Info) (condition : Expr Info)
    (hthen : StatementsEnd arena thenBody) :
    StatementEnds arena (.ifThen info condition thenBody) := by
  intro around symbols after typed place hshapes huntyped h hroom hwithin
  cases statement_step h with
  | @ifThen _ _ _ inner test last hcondition hinner =>
    have hsame := Typing.expression_shape condition hcondition
    have hchecked := SameNodes.of_expr ((Typed.map_expect .boolean test).trans hsame)
    have hsame' := SameNodes.of_stmts (Typing.statements_shape thenBody hinner)
    have hinside : ∀ s ∈ thenBody, Within arena s.mark.id around.inside := fun s hs =>
      hwithin.inside hshapes.head rfl nofun (List.mem_cons_of_mem _ (List.mem_map_of_mem hs))
    refine .call (fun _ => rfl) (.bind (kindAt_ends hshapes.head) ?_)
    refine .bind (expression_ends condition _ _ hshapes.tail.left huntyped.tail.left hcondition
      (hroom.tail.left (.refl _))) ?_
    refine .bind (check_ends hsame (hroom.tail.left (.refl _)) _ _) ?_
    refine .bind (hthen.block hshapes.tail.right huntyped.tail.right hinner
      (hroom.tail.right hchecked) hinside) ?_
    exact settle_ends hroom huntyped.head (.refl _) (hchecked.append hsame') _

theorem StatementEnds.ifThenElse (info : Info) (condition : Expr Info)
    (hthen : StatementsEnd arena thenBody) (helse : StatementsEnd arena elseBody) :
    StatementEnds arena (.ifThenElse info condition thenBody elseBody) := by
  intro around symbols after typed place hshapes huntyped h hroom hwithin
  cases statement_step h with
  | @ifThenElse _ _ _ _ first second test last last' hcondition hfirst hsecond =>
    have hsame := Typing.expression_shape condition hcondition
    have hchecked := SameNodes.of_expr ((Typed.map_expect .boolean test).trans hsame)
    have hfirst' := SameNodes.of_stmts (Typing.statements_shape thenBody hfirst)
    have hsecond' := SameNodes.of_stmts (Typing.statements_shape elseBody hsecond)
    have hinside : ∀ s ∈ thenBody ++ elseBody, Within arena s.mark.id around.inside := by
      intro s hs
      refine hwithin.inside hshapes.head rfl nofun (List.mem_cons_of_mem _ ?_)
      rw [Stmt.ids, Stmt.ids, ← List.map_append]
      exact List.mem_map_of_mem hs
    obtain ⟨hinthen, hinelse⟩ := List.forall_mem_append.1 hinside
    refine .call (fun _ => rfl) (.bind (kindAt_ends hshapes.head) ?_)
    refine .bind (expression_ends condition _ _ hshapes.tail.left.left huntyped.tail.left.left
      hcondition ((hroom.tail.left (.refl _)).left (.refl _))) ?_
    refine .bind (check_ends hsame ((hroom.tail.left (.refl _)).left (.refl _)) _ _) ?_
    refine .bind (hthen.block hshapes.tail.left.right huntyped.tail.left.right hfirst
      ((hroom.tail.left (.refl _)).right hchecked) hinthen) ?_
    refine .bind (helse.block hshapes.tail.right huntyped.tail.right hsecond
      (hroom.tail.right (hchecked.append hfirst')) hinelse) ?_
    exact settle_ends hroom huntyped.head (.refl _) ((hchecked.append hfirst').append hsecond') _

theorem StatementEnds.loop (info : Info) (name : String) (iterable : Expr Info)
    (hbody : StatementsEnd arena body) : StatementEnds arena (.loop info name iterable body) := by
  intro around symbols after typed place hshapes huntyped h hroom hwithin
  cases statement_step h with
  | @loop _ _ _ _ inner items last ty hiterable hty hinner =>
    have hsame := SameNodes.of_expr (Typing.expression_shape iterable hiterable)
    have hsame' := SameNodes.of_stmts (Typing.statements_shape body hinner)
    have hgrows := (Info.Grows.refl info).flagIf (symbols.typeOf? name).isSome .duplicateName
    have hgrown := hgrows.reportIf (items.ty.isSome && (items.ty.bind Ty.component?).isNone)
    have hleave : last.leave = .ok symbols := by
      rw [Typing.statements_leave hinner, Symbols.leave_declare, Symbols.leave_enter]
    have hinside : ∀ s ∈ body, Within arena s.mark.id around.inside := fun s hs =>
      hwithin.inside hshapes.head rfl nofun (List.mem_cons_of_mem _ (List.mem_map_of_mem hs))
    refine .call (fun _ => rfl) (.bind (kindAt_ends hshapes.head) ?_)
    refine .bind (expression_ends iterable _ _ hshapes.tail.left huntyped.tail.left hiterable
      (hroom.tail.left (.refl _))) ?_
    refine .bind (.of_ok rfl) (.bind (.of_ok rfl) ?_)
    rw [Symbols.typeOf?_enter]
    refine .bind (reportIf_ends hroom (.refl _) (hsame.append (.refl _)) _ _) ?_
    refine .bind (reportAtIf_ends hroom hgrows (hsame.append (.refl _)) _ _ _) ?_
    refine .bind (declare_ends _ _ _) ?_
    rw [← hty]
    refine .bind (hbody _ _ _ _ _ hshapes.tail.right huntyped.tail.right hinner
      ((hroom.refill (.cons (hgrown _).bare (.refl _))).tail.right hsame) hinside) ?_
    refine .bind (leave_ends hleave _) ?_
    exact settle_ends hroom huntyped.head (hgrown _) (hsame.append hsame') _

theorem StatementEnds.print (info : Info) (value : Expr Info) :
    StatementEnds arena (.print info value) := by
  intro around symbols after typed place hshapes huntyped h hroom hwithin
  cases statement_step h with
  | @print _ _ first hvalue =>
    have hsame := Typing.expression_shape value hvalue
    have hchecked := (Typed.map_asValue first).trans hsame
    refine .call (fun _ => rfl) (.bind (kindAt_ends hshapes.head) ?_)
    refine .bind (expression_ends value _ _ hshapes.tail huntyped.tail hvalue hroom.tail) ?_
    refine .bind (check_ends hsame hroom.tail _ _) ?_
    exact settle_ends hroom huntyped.head (.refl _) (.of_expr hchecked) _

theorem StatementEnds.call (info : Info) (value : Expr Info) :
    StatementEnds arena (.call info value) := by
  intro around symbols after typed place hshapes huntyped h hroom hwithin
  cases statement_step h with
  | call hvalue =>
    have hsame := Typing.expression_shape value hvalue
    refine .call (fun _ => rfl) (.bind (kindAt_ends hshapes.head) ?_)
    refine .bind (expression_ends value _ _ hshapes.tail huntyped.tail hvalue hroom.tail) ?_
    exact settle_ends hroom huntyped.head (.refl _) (.of_expr hsame) _

theorem returning_ends {first : Typed} (hsame : first.expr.map Info.bare = value.map Info.bare)
    (h : Room arena place (info :: value.marks)) (expected : Option Ty) : ∃ now kept,
    Typing.returning expected info (some first) = (now, some kept) ∧ info.Grows now ∧
      kept.expr.map Info.bare = value.map Info.bare ∧
      Ends (fun _ => returning info.id expected (some value.mark.id) first.ty)
        ⟨arena.recordAll (place (info :: first.expr.marks)), symbols⟩ ()
        ⟨arena.recordAll (place (now :: kept.expr.marks)), symbols⟩ := by
  have hrefl := Info.Grows.refl info
  cases expected with
  | none => exact ⟨info, first, rfl, hrefl, hsame, .pure⟩
  | some ty =>
    cases ty with
    | void => exact ⟨_, first, rfl, hrefl.flag _, hsame, report_ends h hrefl (.of_expr hsame) _⟩
    | _ =>
      exact ⟨info, _, rfl, hrefl, (Typed.map_fit _ first).trans hsame, check_ends hsame h.tail _ _⟩

theorem returning_none_ends (h : Room arena place [info]) (expected : Option Ty) :
    Ends (fun _ => returning info.id expected none none)
      ⟨arena.recordAll (place [info]), symbols⟩ ()
      ⟨arena.recordAll (place [(Typing.returning expected info none).1]), symbols⟩ := by
  cases expected with
  | none => exact .pure
  | some ty => cases ty <;> exact reportIf_ends h (.refl _) (.refl _) _ _

theorem StatementEnds.returning (hlinks : Arena.Tracked arena []) (info : Info)
    (value : Option (Expr Info)) : StatementEnds arena (.returning info value) := by
  intro around symbols after typed place hshapes huntyped h hroom hwithin
  cases value with
  | none =>
    cases statement_step h with
    | @leave _ expected hreturns =>
      refine .call (fun _ => rfl) (.bind (kindAt_ends hshapes.head) (.bind .pure ?_))
      refine .bind (returnTypeAround_ends hlinks hwithin hreturns) ?_
      refine .bind (returning_none_ends hroom expected) ?_
      exact settle_ends hroom huntyped.head (Typing.returning_grows expected info) (.refl _) _
  | some value =>
    cases statement_step h with
    | @returning _ _ first expected hvalue hreturns =>
      have hsame := Typing.expression_shape value hvalue
      obtain ⟨now, kept, hnow, hgrows, hkept, hends⟩ := returning_ends hsame hroom expected
      rw [hnow]
      refine .call (fun _ => rfl) (.bind (kindAt_ends hshapes.head) ?_)
      refine .bind (expression_ends value _ _ hshapes.tail huntyped.tail hvalue hroom.tail) ?_
      refine .bind (returnTypeAround_ends hlinks hwithin hreturns) (.bind hends ?_)
      exact settle_ends hroom huntyped.head hgrows (.of_expr hkept) _

theorem StatementEnds.bare (value : Expr Info) : StatementEnds arena (.bare value) := by
  intro around symbols after typed place hshapes huntyped h hroom hwithin
  cases statement_step h
  refine .call (fun _ => rfl) ?_
  cases value <;> exact .bind (kindAt_ends hshapes.head) .pure

end Rules

mutual

theorem statement_ends (hlinks : Arena.Tracked arena []) : (s : Stmt Info) → StatementEnds arena s
  | .declaration info name ty? value => .declaration info name ty? value
  | .assignment info name value => .assignment info name value
  | .function info name params returns body =>
    .function hlinks info name params returns (statements_end hlinks body)
  | .ifThen info condition thenBody => .ifThen info condition (statements_end hlinks thenBody)
  | .ifThenElse info condition thenBody elseBody =>
    .ifThenElse info condition (statements_end hlinks thenBody) (statements_end hlinks elseBody)
  | .loop info name iterable body => .loop info name iterable (statements_end hlinks body)
  | .print info value => .print info value
  | .call info value => .call info value
  | .returning info value => .returning hlinks info value
  | .broken info text => fun _ _ _ _ _ hshapes huntyped h hroom _ => by
    cases statement_step h
    refine .call (fun _ => rfl) (.bind (kindAt_ends hshapes.head) ?_)
    exact settle_ends hroom huntyped.head (.refl _) (.refl _) _
  | .bare value => .bare value

theorem statements_end (hlinks : Arena.Tracked arena []) : (body : List (Stmt Info)) →
    StatementsEnd arena body
  | [] => fun _ _ _ _ _ _ _ h _ _ => by
    obtain ⟨rfl, rfl⟩ := Typing.statements_nil h
    exact .call (fun _ => rfl) .pure
  | s :: rest => .cons (statement_ends hlinks s) (statements_end hlinks rest)

end

end Checking
end CatScript
