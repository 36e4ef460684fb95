import CatScript.Proofs.Accepted
import CatScript.Proofs.Code.Variables
import CatScript.Proofs.Typing.Resolution

/-! # The scopes of typing and of code

Typing a program and generating its code keep scopes of their own.  Typing has the variables of the
program in its outermost scope, code has them in fields; a loop has one scope for typing and two for
code, and the parameters of a function are in the scope of its body for typing and around it for
code.  Still they agree on every variable that an accepted text mentions, wherever it does
(`Accepts.scopes_agree`): it is a local variable where typing has it in a nested scope and a field
everywhere else, and of the type that typing gives it. -/
set_option autoImplicit false
namespace CatScript

/-- The statement uses or assigns the variable where it stands, before its blocks. -/
inductive Stmt.Mentions (s : Stmt Info) (info : Info) (name : String) : Prop where
  | used {e : Expr Info} : e ∈ s.values → (info, .identifier name) ∈ e.rows → s.Mentions info name
  | assigned {value : Expr Info} : s = .assignment info name value → s.Mentions info name

/-- At a spot the symbols, the local variables and the fields agree on what a name stands for.  The
symbols have it in a nested scope if it is a parameter, the variable of a loop or declared in a list
of statements that is not the outermost one. -/
structure AgreeOn (globals : Globals) (spot : Spot) (symbols : Symbols) (locals : Scopes Local)
    (name : String) (ty : Ty) : Prop where
  known : symbols.typeOf? name = some ty
  nested : (symbols.scopes.inner? name).isSome = true ↔ Spot.Visible spot.dropLast name
  isLocal : (locals.find? name).isSome = true ↔ (symbols.scopes.inner? name).isSome = true
  home : ∀ home, locals.find? name = some home → home.ty = ty
  field : locals.find? name = none → globals.fields.find? name = some ty

section Names
open Typing
variable {symbols : Symbols}

/-- The node is a part of an expression, and if it is a variable it has the type that the symbols
have for it. -/
def Row.Named (symbols : Symbols) (row : Row) : Prop :=
  match row.2 with
  | .identifier name => ∃ ty, row.1.ty = some ty ∧ symbols.typeOf? name = some ty
  | .assignment .. => False
  | _ => True

theorem Typing.HasType.named (e : Expr Info) {ty : Ty} (h : HasType symbols e ty) :
    ∀ row ∈ e.rows, row.Named symbols := by
  intro row hrow
  obtain ⟨part, own, hhead, hpart, -⟩ := h.parts e row hrow
  cases hpart with
  | identifier hinfo hty _ =>
    cases hhead
    exact ⟨_, hinfo, hty⟩
  | _ =>
    cases hhead
    trivial

theorem Typing.Checks.mentions {returns : Option Ty} {after : Symbols} {s : Stmt Info} {info : Info}
    {name : String} (h : Checks returns symbols s after) (hname : s.Mentions info name) :
    ∃ ty, info.ty = some ty ∧ symbols.typeOf? name = some ty := by
  cases hname with
  | used he hrow =>
    obtain ⟨ty, hty⟩ := h.values _ he
    exact hty.named _ _ hrow
  | assigned heq =>
    subst heq
    cases h with
    | assignment hinfo hty _ _ => exact ⟨_, hinfo, hty⟩

/-- The node of a statement that can stand is one of a mention only if the statement assigns. -/
theorem Typing.Checks.head_mentions {returns : Option Ty} {after : Symbols} {s : Stmt Info}
    {info : Info} {name : String} {kind : NodeKind} (h : Checks returns symbols s after)
    (hhead : s.rows.head? = some (info, kind))
    (hkind : kind = .identifier name ∨ ∃ value, kind = .assignment name value) :
    s.Mentions info name := by
  cases h with
  | assignment =>
    cases hhead
    rcases hkind with heq | ⟨_, heq⟩
    · cases heq
    · cases heq
      exact .assigned rfl
  | _ =>
    cases hhead
    rcases hkind with heq | ⟨_, heq⟩ <;> cases heq

end Names

/-- The frame has what the symbols of code know, as the symbols of typing have it. -/
theorem Generation.Situated.agreeOn {globals : Globals} {spot : Spot} {around : Surroundings}
    {returns : Option Ty} {symbols seen : Symbols} {frame : Frame} {name : String} {ty : Ty}
    (h : Situated globals spot around returns symbols frame) (hseen : seen.Knows spot)
    (hty : symbols.typeOf? name = some ty) (hsame : seen.typeOf? name = some ty) :
    AgreeOn globals spot seen frame.locals name ty := by
  have hfound := hseen.nests.found name
  have hinner : (symbols.scopes.inner? name).map some = (seen.scopes.inner? name).map some :=
    (h.nests.found name).symm.trans hfound
  have hrel := h.framed.provides.find_local name
  rw [Option.map_injective (Option.some_injective Ty) hinner] at hrel
  refine ⟨hsame, ?_, ?_, fun home hhome => ?_, fun hnone => ?_⟩
  · rw [← not_iff_not, Spot.not_visible_iff, hfound]
    simp
  · generalize frame.locals.find? name = home at hrel ⊢
    generalize seen.scopes.inner? name = found at hrel ⊢
    cases hrel <;> simp
  · rcases h.framed.provides.find hty with ⟨other, hother, heq⟩ | ⟨hnone, -⟩
    · cases hhome.symm.trans hother
      exact heq
    · cases hhome.symm.trans hnone
  · rcases h.framed.provides.find hty with ⟨other, hother, -⟩ | ⟨-, hfield⟩
    · cases hnone.symm.trans hother
    · exact hfield

/-- The scopes of typing `p` and those of the code of `q`, which `p` is once it is typed, agree.
Every mention of a variable has a statement that it belongs to.  Typing comes to every statement, and
so does generating code, which puts the code of the statement into the executable.  Whenever both
have come to a spot they agree on what is mentioned there, and the code of the statement reads and
sets variables as values of their types are kept. -/
structure Program.ScopesAgree (p q : Program Info) (globals : Globals)
    (executable : Executable) : Prop where
  placed : ∀ info name,
    (info, .identifier name) ∈ q.rows ∨ (∃ value, (info, .assignment name value) ∈ q.rows) →
      ∃ spot s, q.Stands spot s ∧ s.Mentions info name
  typed : ∀ spot s, q.Stands spot s → ∃ around symbols original after,
    Typing.Arrives p spot around symbols original ∧
      Typing.statement around symbols original = .ok (after, s)
  compiled : ∀ spot s, q.Stands spot s → ∃ around frame code next,
    Generation.Arrives globals q spot around frame s ∧
      Generation.statement globals around s frame = .ok (code, next) ∧ executable.Emits code
  mentions : ∀ spot around symbols original inside frame s,
    Typing.Arrives p spot around symbols original →
      Generation.Arrives globals q spot inside frame s → ∀ info name, s.Mentions info name →
        ∃ ty, info.ty = some ty ∧ AgreeOn globals spot symbols frame.locals name ty
  reads : ∀ spot around frame s code next, Generation.Arrives globals q spot around frame s →
    Generation.statement globals around s frame = .ok (code, next) →
      ∀ e ∈ s.values, Generation.Reads frame.locals e.rows code
  stores : ∀ spot around frame s, Generation.Arrives globals q spot around frame s →
    Generation.Stores globals spot around frame s

theorem Stmt.Mentions.row {p : Program Info} {spot : Spot} {s : Stmt Info} {info : Info}
    {name : String} (h : s.Mentions info name) (hs : p.Stands spot s) :
    ∃ kind, (info, kind) ∈ p.rows ∧ p.Has spot (info, kind) ∧
      (kind = .identifier name ∨ ∃ value, kind = .assignment name value) := by
  cases h with
  | used he hrow =>
    exact ⟨_, hs.rows_subset (Stmt.rows_values he hrow), .part hs he hrow, .inl rfl⟩
  | assigned heq =>
    subst heq
    exact ⟨_, hs.rows_subset List.mem_cons_self, .statement hs rfl, .inr ⟨_, rfl⟩⟩

section Resolved
variable {q : Program Info} (hresolved : q.Resolved) (hclean : Clean q.marks)
include hclean

theorem Program.errors_of_mem {row : Row} (h : row ∈ q.rows) : row.1.errors = [] :=
  hclean _ (by rw [← q.rows_marks]; exact List.mem_map_of_mem h)

include hresolved

theorem Program.Resolved.distinct : q.Distinct := by
  intro spot info name ty? value hs hhere
  have hhas : q.Has spot (info, .declaration name ty? value.mark.id) := .statement hs rfl
  obtain ⟨diagnostic, hdiagnostic, -⟩ := (hresolved.declarations _ _ _ _ _ hhas).2 hhere
  rw [show info.errors = [] from
    Program.errors_of_mem hclean (hs.rows_subset List.mem_cons_self)] at hdiagnostic
  cases hdiagnostic

theorem Program.Resolved.known {spot : Spot} {s : Stmt Info} {info : Info} {name : String}
    {symbols : Symbols} (hs : q.Stands spot s) (hname : s.Mentions info name)
    (hknows : symbols.Knows spot) : ∃ ty, info.ty = some ty ∧ symbols.typeOf? name = some ty := by
  obtain ⟨kind, hrow, hhas, hkind⟩ := hname.row hs
  have hat : info.ResolvedAt spot name := by
    rcases hkind with rfl | ⟨value, rfl⟩
    · exact hresolved.uses _ _ _ hhas
    · exact hresolved.targets _ _ _ _ hhas
  have hvisible : spot.Visible name := by
    by_contra hnot
    obtain ⟨diagnostic, hdiagnostic, -⟩ := hat.unknown.2 hnot
    rw [show info.errors = [] from Program.errors_of_mem hclean hrow] at hdiagnostic
    cases hdiagnostic
  obtain ⟨ty, hinfo, hrefers⟩ := hat.known hvisible
  obtain ⟨found, hfound, heq⟩ := hknows.refers_iff.1 ((hrefers _).2 rfl)
  cases heq
  exact ⟨ty, hinfo, hfound⟩

end Resolved

theorem Program.exists_mentions {q : Program Info}
    (hchecks : ∀ spot s, q.Stands spot s → ∃ returns symbols after,
      Typing.Checks returns symbols s after) (hwell : Typing.WellTyped q) {info : Info}
    {name : String} {kind : NodeKind} (hrow : (info, kind) ∈ q.rows)
    (hkind : kind = .identifier name ∨ ∃ value, kind = .assignment name value) :
    ∃ spot s, q.Stands spot s ∧ s.Mentions info name := by
  have hnode : kind.isProgram = false := by
    rcases hkind with rfl | ⟨_, rfl⟩ <;> rfl
  obtain ⟨spot, hspot⟩ := Program.has_of_isProgram hrow hnode
  cases hspot with
  | alone heq hmem =>
    subst heq
    cases hwell with
    | expression hbody =>
      have hnamed := hbody.named _ _ hmem
      rcases hkind with rfl | ⟨_, rfl⟩
      · obtain ⟨ty, -, hty⟩ := hnamed
        cases hty
      · exact hnamed.elim
  | @statement _ s _ hs hhead =>
    obtain ⟨returns, symbols, after, hs'⟩ := hchecks spot s hs
    exact ⟨spot, s, hs, hs'.head_mentions hhead hkind⟩
  | @part _ s e _ hs he hmem =>
    obtain ⟨returns, symbols, after, hs'⟩ := hchecks spot s hs
    obtain ⟨ty, hty⟩ := hs'.values e he
    rcases hkind with rfl | ⟨_, rfl⟩
    · exact ⟨spot, s, hs, .used he hmem⟩
    · exact (hty.named _ _ hmem).elim

namespace Arena

/-- The scopes of typing the program of the first arena and those of the code of the program of the
second one agree.  The second program is the first one once it is typed, and it has code. -/
def ScopesAgree (read typed : Arena) : Prop :=
  ∃ p q globals executable, read.program? = .ok (some p) ∧ Typing.program (.ok none) p = .ok q ∧
    typed.program? = .ok (some q) ∧ Generation.globalsOf q = .ok globals ∧
    typed.compile = .ok executable ∧ p.ScopesAgree q globals executable

end Arena

theorem Generation.exists_program {p : Program Info} (h : Typing.WellTyped p) :
    ∃ globals executable, globalsOf p = .ok globals ∧ program (.ok none) p = .ok executable := by
  cases h with
  | expression hbody =>
    obtain ⟨executable, -, -, hprogram, -, -⟩ := expression_links (.ok none) hbody
    exact ⟨_, executable, rfl, hprogram⟩
  | statements hnames hbody =>
    obtain ⟨executable, -, -, -, -, hprogram, -, -⟩ := statements_links hnames hbody
    obtain ⟨declared, hdeclared, -⟩ :=
      fields_ok hbody (congrArg Scopes.nested (initialSymbols_scopes _))
    exact ⟨_, executable, by rw [globalsOf, hdeclared]; rfl, hprogram⟩

/-- Typing and code agree on a program in which nothing is reported. -/
theorem Program.Resolved.scopesAgree {p q : Program Info} {globals : Globals}
    {executable : Executable} (hresolved : q.Resolved) (hclean : Clean q.marks)
    (hwell : Typing.WellTyped q) (htyped : Typing.program (.ok none) p = .ok q)
    (hglobals : Generation.globalsOf q = .ok globals)
    (hprogram : Generation.program (.ok none) q = .ok executable) :
    p.ScopesAgree q globals executable := by
  have hdistinct := hresolved.distinct hclean
  have hcompiled := fun spot s (hs : q.Stands spot s) =>
    Generation.exists_arrives hwell hdistinct hglobals hprogram hs
  have hchecks : ∀ spot s, q.Stands spot s → ∃ returns symbols after,
      Typing.Checks returns symbols s after := by
    intro spot s hs
    obtain ⟨_, _, _, _, harrives, -, -⟩ := hcompiled spot s hs
    obtain ⟨returns, symbols, after, -, hs', -⟩ := harrives.situated hwell hdistinct hglobals
    exact ⟨returns, symbols, after, hs'⟩
  refine ⟨fun info name hrow => ?_, fun spot s hs => Typing.exists_arrives htyped hs, hcompiled,
    ?_, ?_, ?_⟩
  · rcases hrow with hrow | ⟨value, hrow⟩
    · exact Program.exists_mentions hchecks hwell hrow (.inl rfl)
    · exact Program.exists_mentions hchecks hwell hrow (.inr ⟨value, rfl⟩)
  · intro spot around symbols original inside frame s hseen harrives info name hname
    obtain ⟨returns, known, after, hsituated, hs, -⟩ :=
      harrives.situated hwell hdistinct hglobals
    obtain ⟨ty, hinfo, hty⟩ := hs.mentions hname
    obtain ⟨other, hother, hsame⟩ := hresolved.known hclean harrives.stands hname hseen.knows
    cases hinfo.symm.trans hother
    exact ⟨ty, hinfo, hsituated.agreeOn hseen.knows hty hsame⟩
  · intro spot around frame s code next harrives hcode
    obtain ⟨returns, known, after, hsituated, hs, -⟩ :=
      harrives.situated hwell hdistinct hglobals
    exact hsituated.uses hs hcode
  · intro spot around frame s harrives
    obtain ⟨returns, known, after, hsituated, hs, hfields⟩ :=
      harrives.situated hwell hdistinct hglobals
    exact hsituated.stores hs hfields

/-- Typing and code agree on every variable that an accepted text mentions. -/
theorem Accepts.scopes_agree {source : String} {arena : Arena} (h : Accepts source arena) :
    (Arena.parse source).ScopesAgree arena := by
  obtain ⟨p, -, hread, -⟩ := Arena.holds_ofProgram (Grammar.parse source)
  obtain ⟨q, htyped, hholds⟩ := hread.validate h.analyzed
  obtain ⟨_, hq, hwell, hcompile⟩ := h.wellTyped
  cases hq.symm.trans hholds.program?
  obtain ⟨_, _, hvalidate, hq', hresolved⟩ := Arena.ofProgram_resolved
    Grammar.whole_program Grammar.ofForm_program (Cursor.ofTokens (Token.scan source))
  cases hvalidate.symm.trans h.analyzed
  cases hq'.symm.trans hholds.program?
  obtain ⟨globals, executable, hglobals, hprogram⟩ := Generation.exists_program hwell
  exact ⟨p, q, globals, executable, hread.program?, htyped, hholds.program?, hglobals,
    hcompile.trans hprogram,
    hresolved.scopesAgree (hholds.clean h.clean) hwell htyped hglobals hprogram⟩

/-- A text with a parameter and the variable of a loop, and with a block that hides a variable of the
program after it has used it. -/
theorem Accepts.scopes_agree_hidden : ∃ source arena, source = "var total = 2
function sum(total: list<int>): int { var now = 0
for (item in total) { now = now + item }
return now }
if (total > 1) { print(total) var total = true total = false }
total = sum([total, 3])" ∧ Accepts source arena ∧ (Arena.parse source).ScopesAgree arena := by
  have haccepted : accepted "var total = 2
function sum(total: list<int>): int { var now = 0
for (item in total) { now = now + item }
return now }
if (total > 1) { print(total) var total = true total = false }
total = sum([total, 3])" = true := by
    decide +kernel
  obtain ⟨arena, h⟩ := exists_accepts haccepted
  exact ⟨_, arena, rfl, h, h.scopes_agree⟩

end CatScript
