import CatScript.Proofs.Enclosing
import CatScript.Proofs.Scoping
import CatScript.Proofs.Typing.Values

/-! # Where `void` stays

A call of a function that gives nothing has the type `void`, which no value has.  In an accepted text
such a call stands directly under a call statement, and every other expression has a type that values
have; so have the variables, the variables of loops, the parameters and the fields of the program,
wherever typing and generating code know them (`Accepts.void_confined`). -/
set_option autoImplicit false
namespace CatScript

/-- What the node declares or sets is of a type that values have, and of the one that its declaration
gives, if any.  So are the parameters of a function and what it gives, if anything. -/
def NodeKind.KeepsValues (ty? : Option Ty) : NodeKind → Prop
  | .declaration _ declared? _ => Valued ty? ∧ ∀ ty, declared? = some ty → ty? = some ty
  | .assignment .. | .loop .. => Valued ty?
  | .function _ params returns _ =>
    (∀ param ∈ params, param.ty.Storable) ∧ (returns = .void ∨ returns.Storable)
  | _ => True

theorem NodeKind.keepsValues_of_isExpression {kind : NodeKind} (h : kind.isExpression = true)
    (ty? : Option Ty) : kind.KeepsValues ty? := by
  cases kind with
  | declaration | assignment | loop | function => cases h
  | _ => trivial

namespace Arena

/-- The node at the place is a call that stands directly under a call statement. -/
def CalledAlone (arena : Arena) (id : NodeId) (node : Node) : Prop :=
  (∃ name args, node.kind = .call name args) ∧ ∃ parent above, node.parent = some parent ∧
    arena.nodes[parent]? = some above ∧ above.kind = .callStatement id

/-- Only calls under call statements are of the type `void`; every other expression, and whatever is
declared or set, is of a type that values have. -/
structure VoidConfined (arena : Arena) : Prop where
  calls : ∀ (id : Nat) (node : Node), arena.nodes[id]? = some node →
    node.kind.isExpression = true → node.ty = some .void → arena.CalledAlone id node
  values : ∀ (id : Nat) (node : Node), arena.nodes[id]? = some node →
    node.kind.isExpression = true → node.ty ≠ some .void → Valued node.ty
  statements : ∀ (id : Nat) (node : Node), arena.nodes[id]? = some node →
    node.kind.KeepsValues node.ty

end Arena

/-- Typing `p` and generating the code of `q`, which `p` is once it is typed, know variables of types
that values have, and functions that take values and give them, if anything, wherever they come to;
and they come to every statement (`Typing.exists_arrives`, `Generation.exists_arrives`). -/
structure Program.VoidConfined (p q : Program Info) (globals : Globals) : Prop where
  symbols : ∀ spot around symbols s, Typing.Arrives p spot around symbols s → Typing.Storing symbols
  locals : ∀ spot around frame s, Generation.Arrives globals q spot around frame s →
    ∀ name home, frame.locals.find? name = some home → home.ty.Storable
  fields : ∀ name ty, globals.fields.find? name = some ty → ty.Storable

/-- Typing `p` gives `q`, and nothing is wrong with it. -/
structure Program.Becomes (p q : Program Info) : Prop where
  typed : Typing.program (.ok none) p = .ok q
  wellTyped : Typing.WellTyped q
  distinct : q.Distinct
  callsMade : q.CallsMade
  storing : ∀ mark body, p = .statements mark body → Typing.Storing (Typing.initialSymbols body)

namespace Program.Becomes
open Typing
variable {p q : Program Info} (h : p.Becomes q)
include h

theorem results {mark : Info} {body : List (Stmt Info)} (hq : q = .statements mark body) :
    StorableResults (initialSymbols body).functions := by
  subst hq
  have hshape := program_shape h.typed
  cases p with
  | expression info first => cases hshape
  | statements info first =>
    have hbody : Stmt.mapAll Info.bare body = Stmt.mapAll Info.bare first := by
      injection hshape
    rw [initialSymbols_of_shape hbody]
    exact (h.storing info first rfl).results

section Statements
variable {spot : Spot} {s : Stmt Info} (hs : q.Stands spot s)
include hs

theorem keepsValues : s.KeepsValues := by
  obtain ⟨mark, body, returns, symbols, after, hq, hchecks, hfunctions⟩ := h.wellTyped.checks hs
  exact hchecks.keepsValues (hfunctions ▸ h.results hq)

/-- Every part of what a statement evaluates has a value, but for the call of a call statement. -/
theorem values_valued {e : Expr Info} (he : e ∈ s.values) {row : Row} (hrow : row ∈ e.rows) :
    Valued row.1.ty ∨ row.1.ty = some .void ∧ ∃ info name args, row.2 = .call name args ∧
      (info, .callStatement row.1.id) ∈ q.rows := by
  obtain ⟨mark, body, returns, symbols, after, hq, hchecks, hfunctions⟩ := h.wellTyped.checks hs
  have hresults : StorableResults symbols.functions := hfunctions ▸ h.results hq
  refine (hchecks.values_valued hresults (h.callsMade.stands hs) he row hrow).imp_right ?_
  rintro ⟨hvoid, info, mark, name, args, rfl, rfl⟩
  exact ⟨hvoid, info, name, _, rfl, hs.rows_subset List.mem_cons_self⟩

theorem head_keepsValues {row : Row} (hhead : s.rows.head? = some row) :
    row.2.KeepsValues row.1.ty ∧ (row.2.isExpression = true → ∃ e ∈ s.values, row ∈ e.rows) := by
  have hkeeps := h.keepsValues hs
  obtain ⟨around, symbols, original, after, -, hstatement⟩ := exists_arrives h.typed hs
  cases s with
  | declaration info name ty? value =>
    cases hhead
    refine ⟨⟨hkeeps, fun ty hty => ?_⟩, nofun⟩
    subst hty
    exact statement_annotated hstatement
  | assignment | function | loop =>
    cases hhead
    exact ⟨hkeeps, nofun⟩
  | bare e =>
    have hrow : row ∈ e.rows := List.mem_of_mem_head? hhead
    exact ⟨NodeKind.keepsValues_of_isExpression (e.isExpression_of_mem row hrow) _,
      fun _ => ⟨e, List.mem_cons_self, hrow⟩⟩
  | returning info value =>
    cases value <;> (cases hhead; exact ⟨trivial, nofun⟩)
  | _ =>
    cases hhead
    exact ⟨trivial, nofun⟩

end Statements

/-- Every node keeps to types that values have, but for calls under call statements. -/
theorem row_keepsValues {row : Row} (hrow : row ∈ q.rows) : row.2.KeepsValues row.1.ty ∧
    (row.2.isExpression = true → Valued row.1.ty ∨ row.1.ty = some .void ∧
      ∃ info name args, row.2 = .call name args ∧ (info, .callStatement row.1.id) ∈ q.rows) := by
  cases hprogram : row.2.isProgram with
  | true =>
    obtain ⟨info, kind⟩ := row
    cases kind with
    | expressionProgram | statementProgram => exact ⟨trivial, nofun⟩
    | _ => cases hprogram
  | false =>
    obtain ⟨spot, hspot⟩ := Program.has_of_isProgram hrow hprogram
    cases hspot with
    | alone hq hmem =>
      subst hq
      have hkind := Expr.isExpression_of_mem _ row hmem
      cases h.wellTyped with
      | expression hbody =>
        -- there are no functions to call
        have hstorable := hbody.of_results (P := Ty.Storable) (fun _ => id)
          (by intro _ _ hnone; cases hnone) _
        have hvalued := hbody.valued Storing.empty.results hstorable.ne_void row hmem
        exact ⟨NodeKind.keepsValues_of_isExpression hkind _, fun _ => .inl hvalued⟩
    | statement hs hhead =>
      obtain ⟨hkeeps, hpart⟩ := h.head_keepsValues hs hhead
      refine ⟨hkeeps, fun hkind => ?_⟩
      obtain ⟨e, he, hmem⟩ := hpart hkind
      exact h.values_valued hs he hmem
    | part hs he hmem =>
      have hkind := Expr.isExpression_of_mem _ row hmem
      exact ⟨NodeKind.keepsValues_of_isExpression hkind _, fun _ => h.values_valued hs he hmem⟩

section Tables
variable {spot : Spot} {around : Surroundings} {s : Stmt Info}

theorem spot_valued (hs : q.Stands spot s) : spot.Valued := by
  refine hs.valued fun _ _ hs => ?_
  exact h.keepsValues hs

/-- Wherever typing comes to, the variables in sight and the functions are of types that values
have. -/
theorem symbols_storing {symbols : Symbols} (harrives : Typing.Arrives p spot around symbols s) :
    Storing symbols := by
  obtain ⟨after, t, -, ht⟩ := harrives.stands h.typed
  obtain ⟨mark, body, hp, hfunctions⟩ := harrives.functions
  have hstoring := h.storing mark body hp
  have hfunction : ∀ name, symbols.function? name = (initialSymbols body).function? name :=
    fun name => congrArg (Scope.find? · name) hfunctions
  refine ⟨fun name ty hty => ?_, fun name signature hsignature => ?_, ?_⟩
  · have hfind := harrives.knows.find? name
    rw [hty] at hfind
    exact (h.spot_valued ht).find? hfind
  · rw [hfunction name] at hsignature
    exact hstoring.params name signature hsignature
  · rw [hfunctions]
    exact hstoring.results

/-- Wherever generating code comes to, the local variables are of types that values have. -/
theorem locals_storable {globals : Globals} {frame : Frame} (hglobals : Generation.globalsOf q =
    .ok globals) (harrives : Generation.Arrives globals q spot around frame s) {name : String}
    {home : Local} (hhome : frame.locals.find? name = some home) : home.ty.Storable := by
  obtain ⟨returns, symbols, after, hsituated, -, -⟩ :=
    harrives.situated h.wellTyped h.distinct hglobals
  have hrel := hsituated.framed.provides.find_local name
  have hfound := hsituated.nests.found name
  rw [hhome] at hrel
  generalize symbols.scopes.inner? name = inner at hrel hfound
  cases hrel with
  | some hty =>
    subst hty
    have houter : Spot.Valued spot.dropLast := fun stretch hstretch =>
      h.spot_valued harrives.stands stretch (List.dropLast_subset spot hstretch)
    exact houter.find? hfound

theorem fields_storable {globals : Globals} (hglobals : Generation.globalsOf q = .ok globals)
    {name : String} {ty : Ty} (hty : globals.fields.find? name = some ty) : ty.Storable := by
  cases h.wellTyped with
  | expression =>
    cases hglobals
    cases hty
  | @statements _ body _ hnames hbody =>
    obtain ⟨hfields, -⟩ := Generation.globalsOf_ok hnames hbody hglobals
    have hscopes : (initialSymbols body).scopes.All Ty.Storable := by
      rw [Generation.initialSymbols_scopes]
      exact Scopes.All.empty
    rw [hfields] at hty
    exact (hbody.storable hscopes).outermost name ty hty

end Tables

theorem voidConfined {globals : Globals} (hglobals : Generation.globalsOf q = .ok globals) :
    p.VoidConfined q globals := by
  refine ⟨fun _ _ _ _ => h.symbols_storing, ?_, ?_⟩
  · intro _ _ _ _ harrives _ _
    exact h.locals_storable hglobals harrives
  · intro _ _
    exact h.fields_storable hglobals

end Program.Becomes

theorem Arena.Holds.node_eq {arena : Arena} {q : Program Info} (h : arena.Holds q) {row : Row}
    (hrow : row ∈ q.rows) {id : NodeId} (hid : row.1.id = id) {node : Node}
    (hnode : arena.nodes[id]? = some node) :
    node.kind = row.2 ∧ node.ty = row.1.ty := by
  obtain ⟨parent, hstands⟩ := (h.stands row hrow).node
  rw [hid] at hstands
  cases hstands.symm.trans hnode
  exact ⟨rfl, rfl⟩

theorem Arena.TypedAs.lists {arena typed : Arena} (h : arena.TypedAs typed) {parent child : NodeId}
    (hlists : typed.Lists parent child) : arena.Lists parent child := by
  obtain ⟨above, habove, hchild⟩ := hlists
  have hlt : parent < arena.nodes.size :=
    Nat.lt_of_lt_of_eq (Array.getElem?_eq_some_iff.1 habove).1 h.size
  have hold := Array.getElem?_eq_getElem hlt
  obtain ⟨now, hnow, hkind, -⟩ := h.nodes parent _ hold
  cases hnow.symm.trans habove
  exact ⟨_, hold, hkind ▸ hchild⟩

namespace Accepts
variable {source : String} {arena : Arena} (h : Accepts source arena)
include h

/-- Typing the arena of an accepted text changes neither its nodes nor their parents. -/
theorem typedAs : (Arena.parse source).TypedAs arena := by
  obtain ⟨typed, hvalidate, htyped⟩ :=
    Arena.ofProgram_validate Grammar.whole_program (Cursor.ofTokens (Token.scan source))
  cases hvalidate.symm.trans h.analyzed
  exact htyped

theorem parent_of_lists {parent child : NodeId} {node : Node} (hlists : arena.Lists parent child)
    (hnode : arena.nodes[child]? = some node) : node.parent = some parent := by
  have hlinks : (Arena.parse source).Tracked [] := Arena.tracked_ofProgram (Grammar.parse source)
  obtain ⟨old, hold, hparent⟩ := hlinks.taken parent child (h.typedAs.lists hlists)
  obtain ⟨now, hnow, -, -, hsame, -⟩ := h.typedAs.nodes child old hold
  cases hnow.symm.trans hnode
  exact hsame.trans hparent

theorem becomes : ∃ p q, (Arena.parse source).program? = .ok (some p) ∧ p.Becomes q ∧
    arena.Holds q ∧ ∀ (id : Nat) (node : Node), arena.nodes[id]? = some node →
      ∃ row ∈ q.rows, row.1.id = id ∧ node.kind = row.2 ∧ node.ty = row.1.ty := by
  obtain ⟨p, hread, hheld, huntyped, hcovers⟩ := Arena.holds_ofProgram (Grammar.parse source)
  have hwhole : (p.map Info.read).Whole Grammar.Reported := hread ▸ Grammar.whole_parse source
  have hwhole : p.Whole fun info => Grammar.Reported info.read := p.whole_of_map hwhole
  obtain ⟨q, htyped, hholds⟩ := hheld.validate h.analyzed
  obtain ⟨_, htyped', hchecked⟩ := Typing.program_total huntyped hwhole
  cases htyped.symm.trans htyped'
  have hclean := hholds.clean h.clean
  obtain ⟨_, _, hvalidate, hq', hresolved⟩ := Arena.ofProgram_resolved
    Grammar.whole_program Grammar.ofForm_program (Cursor.ofTokens (Token.scan source))
  cases hvalidate.symm.trans h.analyzed
  cases hq'.symm.trans hholds.program?
  have hparsed : Grammar.Clean (Grammar.parse source).marks := by
    rw [← hread, Program.marks_map]
    exact List.forall_mem_map.2 (hchecked.clean fun _ => Program.errors_of_mem hclean)
  have hcalls : q.CallsMade := by
    rw [← Program.callsMade_map Info.bare, Typing.program_shape htyped, Program.callsMade_map,
      ← Program.callsMade_map Info.read, hread]
    exact Grammar.parse_callsMade source hparsed
  refine ⟨p, q, hheld.program?, ⟨htyped, Typing.program_wellTyped hwhole htyped hclean,
    hresolved.distinct hclean, hcalls, ?_⟩, hholds, fun id node hnode => ?_⟩
  · rintro mark body rfl
    exact Typing.register_storing .empty hwhole
  · have hsize : arena.size = (Arena.parse source).size := h.typedAs.size
    obtain ⟨old, hold, hid⟩ := hcovers id (hsize ▸ (Array.getElem?_eq_some_iff.1 hnode).1)
    obtain ⟨row, hrow, hsame⟩ := hchecked.row_of_mem (p.rows_marks ▸ List.mem_map_of_mem hold)
    have hrowid := hsame.id.trans hid
    exact ⟨row, hrow, hrowid, hholds.node_eq hrow hrowid hnode⟩

theorem calledAlone {q : Program Info} (hholds : arena.Holds q) {id : NodeId} {node : Node}
    (hnode : arena.nodes[id]? = some node) {name : String} {args : List NodeId}
    (hkind : node.kind = .call name args) {info : Info}
    (hrow : (info, .callStatement id) ∈ q.rows) : arena.CalledAlone id node := by
  obtain ⟨parent, habove⟩ := (hholds.stands _ hrow).node
  have hlists : arena.Lists info.id id := ⟨_, habove, List.mem_cons_self⟩
  exact ⟨⟨name, args, hkind⟩, info.id, _, h.parent_of_lists hlists hnode, habove, rfl⟩

/-- In an accepted text `void` is the type of calls that stand directly under call statements, and of
no other expression; no variable, variable of a loop, parameter or field is of a type that is or
contains `void`. -/
theorem void_confined : arena.VoidConfined ∧ ∃ p q globals,
    (Arena.parse source).program? = .ok (some p) ∧ Typing.program (.ok none) p = .ok q ∧
      arena.program? = .ok (some q) ∧ Generation.globalsOf q = .ok globals ∧
      p.VoidConfined q globals := by
  obtain ⟨p, q, hread, hbecomes, hholds, hrows⟩ := h.becomes
  obtain ⟨globals, -, hglobals, -⟩ := Generation.exists_program hbecomes.wellTyped
  have hnodes : ∀ (id : Nat) (node : Node), arena.nodes[id]? = some node →
      node.kind.KeepsValues node.ty ∧ (node.kind.isExpression = true →
        Valued node.ty ∨ node.ty = some .void ∧ arena.CalledAlone id node) := by
    intro id node hnode
    obtain ⟨row, hrow, rfl, hkind, hty⟩ := hrows id node hnode
    obtain ⟨hkeeps, hexpression⟩ := hbecomes.row_keepsValues hrow
    rw [← hkind, ← hty] at hkeeps hexpression
    refine ⟨hkeeps, fun hpart => (hexpression hpart).imp_right ?_⟩
    rintro ⟨hvoid, info, name, args, hcall, habove⟩
    exact ⟨hvoid, h.calledAlone hholds hnode hcall habove⟩
  refine ⟨⟨fun id node hnode hpart hvoid => ?_, fun id node hnode hpart hvoid => ?_,
    fun id node hnode => (hnodes id node hnode).1⟩, p, q, globals, hread, hbecomes.typed,
    hholds.program?, hglobals, hbecomes.voidConfined hglobals⟩
  · rcases (hnodes id node hnode).2 hpart with ⟨ty, hty, hstorable⟩ | ⟨-, hcalled⟩
    · cases hvoid.symm.trans hty
      exact hstorable.elim
    · exact hcalled
  · exact ((hnodes id node hnode).2 hpart).resolve_right fun hcall => hvoid hcall.1

end Accepts

/-- A text with a call of a function that gives nothing, and with lists of lists. -/
theorem Accepts.void_confined_shown : ∃ source arena,
    source = "function show(rows: list<list<int>>) {
for (row in rows) { print(row) }
}
var rows = [[1, 2], [3]]
show(rows)" ∧ Accepts source arena ∧ arena.VoidConfined ∧
      ∃ (id : Nat) (node : Node), arena.nodes[id]? = some node ∧ node.kind.isExpression = true ∧
        node.ty = some .void ∧ arena.CalledAlone id node := by
  have haccepted : accepted "function show(rows: list<list<int>>) {
for (row in rows) { print(row) }
}
var rows = [[1, 2], [3]]
show(rows)" = true := by
    decide +kernel
  obtain ⟨arena, h⟩ := exists_accepts haccepted
  obtain ⟨hconfined, -⟩ := h.void_confined
  have hcall : (Arena.analyze "function show(rows: list<list<int>>) {
for (row in rows) { print(row) }
}
var rows = [[1, 2], [3]]
show(rows)").toOption.any (fun arena => arena.nodes.any fun node =>
      node.kind.isExpression && node.ty == some .void) = true := by
    decide +kernel
  rw [h.analyzed] at hcall
  obtain ⟨id, hid, hnode⟩ := Array.any_eq_true.1 hcall
  obtain ⟨hkind, hty⟩ := Bool.and_eq_true_iff.1 hnode
  have hget := Array.getElem?_eq_getElem hid
  have hvoid := eq_of_beq hty
  have hcalled := hconfined.calls id _ hget hkind hvoid
  exact ⟨_, arena, rfl, h, hconfined, id, _, hget, hkind, hvoid, hcalled⟩

end CatScript
