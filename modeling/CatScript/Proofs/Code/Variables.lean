import CatScript.Proofs.Code.Emission

/-! # The code of variables

Where the frame is what the symbols ask for, the code of a statement reads each variable that it uses
as values of the type of the variable are kept (`Generation.Situated.uses`), and sets the variable
that it declares, assigns or goes through items with in the same way
(`Generation.Situated.stores`). -/
set_option autoImplicit false
namespace CatScript
namespace Generation
open Typing

def slot? (locals : Scopes Local) (name : String) : Option Slot :=
  (locals.find? name).map Local.slot

/-- The code that reads a variable of the given type: a local variable if there is a slot for it, a
field otherwise.  Primitive types are kept as integers, all others as references. -/
def reading (slot? : Option Slot) (name : String) (ty : Ty) : List Instruction :=
  match slot?, ty.isPrimitive with
  | some slot, true => [.loadInt slot]
  | some slot, false => [.loadRef slot]
  | none, true => [.loadRef 0, .getField name .int]
  | none, false => [.loadRef 0, .getField name .reference]

def writing (slot? : Option Slot) (name : String) (ty : Ty) (code : List Instruction) :
    List Instruction :=
  match slot?, ty.isPrimitive with
  | some slot, true => code ++ [.storeInt slot]
  | some slot, false => code ++ [.storeRef slot]
  | none, true => .loadRef 0 :: code ++ [.putField name .int]
  | none, false => .loadRef 0 :: code ++ [.putField name .reference]

section Representations
variable (slot : Slot) (name : String) (ty : Ty) (code : List Instruction)

theorem reading_local : reading (some slot) name ty = [load ⟨slot, ty⟩] := by
  cases hprimitive : ty.isPrimitive <;> simp [reading, load, hprimitive]

theorem reading_field : reading none name ty = [.loadRef 0, .getField name (.of ty)] := by
  cases hprimitive : ty.isPrimitive <;> simp [reading, Descriptor.of, hprimitive]

theorem writing_local : writing (some slot) name ty code = code ++ [store ⟨slot, ty⟩] := by
  cases hprimitive : ty.isPrimitive <;> simp [writing, store, hprimitive]

theorem writing_field : writing none name ty code = .loadRef 0 :: code ++ [putField name ty] := by
  cases hprimitive : ty.isPrimitive <;> simp [writing, putField, Descriptor.of, hprimitive]

end Representations

/-- The code of a statement that sets a variable keeps the value as the type of the variable asks
for.  What is declared is a field in the outermost list and a local variable from then on in all
others; the variable of a loop is a local one in the body, and set to each item before it. -/
def Stores (globals : Globals) (spot : Spot) (around : Surroundings) (frame : Frame) :
    Stmt Info → Prop
  | .assignment info name value => ∃ ty code label, info.ty = some ty ∧
      Generation.value globals frame.locals ty value frame.label = .ok (code, label) ∧
      statement globals around (.assignment info name value) frame =
        .ok (writing (slot? frame.locals name) name ty code, { frame with label })
  | .declaration info name ty? value => ∃ ty code next, info.ty = some ty ∧
      Generation.value globals frame.locals ty value frame.label = .ok (code, next.label) ∧
      statement globals around (.declaration info name ty? value) frame =
        .ok (writing (slot? next.locals name) name ty code, next) ∧
      ((slot? next.locals name).isSome = true ↔ spot.dropLast ≠ []) ∧
      (slot? next.locals name = none → globals.fields.find? name = some ty)
  | .loop info name iterable body => ∃ ty start part last code next, info.ty = some ty ∧
      Opens globals around frame (.loop info name iterable body) [(name, info.ty)] body
        around.inside start ∧
      statements globals around.inside body start = .ok (part, last) ∧
      statement globals around (.loop info name iterable body) frame = .ok (code, next) ∧
      (slot? start.locals name).isSome = true ∧
      writing (slot? start.locals name) name ty (coerce .object ty) ++ part <:+: code
  | _ => True

/-- Wherever one of the nodes is a variable, the code reads it as its type asks for. -/
def Reads (locals : Scopes Local) (rows : List Row) (code : List Instruction) : Prop :=
  ∀ info name, (info, .identifier name) ∈ rows →
    ∃ ty, info.ty = some ty ∧ reading (slot? locals name) name ty <:+: code

namespace Reads
variable {locals : Scopes Local} {row : Row} {rows more : List Row} {a b : List Instruction}

theorem nil : Reads locals [] a := nofun

theorem within (h : Reads locals rows a) (hpart : a <:+: b) : Reads locals rows b := by
  intro info name hrow
  obtain ⟨ty, hty, hread⟩ := h info name hrow
  exact ⟨ty, hty, hread.trans hpart⟩

theorem left (h : Reads locals rows a) : Reads locals rows (a ++ b) :=
  h.within (List.prefix_append a b).isInfix

theorem right (h : Reads locals rows b) : Reads locals rows (a ++ b) :=
  h.within (List.suffix_append a b).isInfix

theorem behind (h : Reads locals rows a) {first : Instruction} : Reads locals rows (first :: a) :=
  h.within (List.suffix_cons first a).isInfix

theorem append (h : Reads locals rows a) (hmore : Reads locals more a) :
    Reads locals (rows ++ more) a := by
  intro info name hrow
  rcases List.mem_append.1 hrow with hrow | hrow
  · exact h info name hrow
  · exact hmore info name hrow

theorem cons (hrow : ∀ name, row.2 ≠ .identifier name) (h : Reads locals rows a) :
    Reads locals (row :: rows) a := by
  intro info name hmem
  rcases List.mem_cons.1 hmem with rfl | hmem
  · exact absurd rfl (hrow name)
  · exact h info name hmem

end Reads

section Uses
variable {symbols : Symbols} {globals : Globals} {locals : Scopes Local}

theorem identifier_eq (h : Provides symbols globals locals) {info : Info} {name : String} {ty : Ty}
    (hty : symbols.typeOf? name = some ty) (label : Label) :
    expression globals locals (.identifier info name) label =
      .ok (reading (slot? locals name) name ty, label) := by
  rw [slot?]
  rcases h.find hty with ⟨home, hhome, rfl⟩ | ⟨hnone, hfield⟩
  · rw [(ExpressionCode.inSlot hhome).ok, hhome, Option.map_some, reading_local]
  · rw [(ExpressionCode.inField hnone hfield).ok, hnone, Option.map_none, reading_field]

mutual

theorem expression_reads (h : Provides symbols globals locals) :
    (e : Expr Info) → {ty : Ty} → HasType symbols e ty → {first last : Label} →
    {code : List Instruction} → expression globals locals e first = .ok (code, last) →
    Reads locals e.rows code
  | .identifier info name, ty, .identifier hinfo hty _, first, last, code, hcode => by
    rw [identifier_eq h hty] at hcode
    cases hcode
    intro other othername hrow
    cases List.mem_singleton.1 hrow
    exact ⟨ty, hinfo, List.infix_rfl⟩
  | .integer .., _, _, _, _, _, _ | .string .., _, _, _, _, _, _ | .boolean .., _, _, _, _, _, _
  | .null _, _, _, _, _, _, _ => .cons nofun .nil
  | .list _ items, _, .list _ _ hitems, first, last, code, hcode => by
    cases expression_code hcode with
    | list hinner => exact .cons nofun (.behind (listItems_reads h items hitems hinner))
  | .parenthesized _ inner, _, .parenthesized _ hinner, first, last, code, hcode => by
    cases expression_code hcode with
    | parenthesized hpart => exact .cons nofun (expression_reads h inner hinner hpart)
  | .unary _ op operand, _, .unary _ hoperand, first, last, code, hcode => by
    cases expression_code hcode with
    | negate hinner => exact .cons nofun (expression_reads h operand hoperand hinner).left
    | not hinner => exact .cons nofun (expression_reads h operand hoperand hinner).left
  | .binary _ op left right, _, hbinary, first, last, code, hcode => by
    obtain ⟨⟨_, hleft⟩, ⟨_, hright⟩⟩ : (∃ ty, HasType symbols left ty) ∧
        ∃ ty, HasType symbols right ty := by
      cases hbinary with
      | concat _ hleft hright => exact ⟨⟨_, hleft⟩, ⟨_, hright⟩⟩
      | arithmetic _ hleft hright => exact ⟨⟨_, hleft⟩, ⟨_, hright⟩⟩
    cases expression_code hcode with
    | concat _ _ _ ha hb =>
      have hreads := expression_reads h left hleft ha
      have hreads' := expression_reads h right hright hb
      exact .cons nofun (.append hreads.left.left.left (.left (.right hreads'.left.behind)))
    | arithmetic _ ha hb =>
      have hreads := expression_reads h left hleft ha
      exact .cons nofun (.append hreads.left.left
        (.left (expression_reads h right hright hb).right))
  | .comparison _ op left right, _, .comparison _ hleft hright, first, last, code, hcode => by
    cases expression_code hcode with
    | comparison ha hb =>
      have hreads := expression_reads h left hleft ha
      exact .cons nofun (.append hreads.left.left
        (.left (expression_reads h right hright hb).right))
  | .equality _ op left right, _, .equality _ hleft hright _ _, first, last, code, hcode => by
    cases expression_code hcode with
    | unboxed _ _ _ ha hb =>
      have hreads := expression_reads h left hleft ha
      exact .cons nofun (.append hreads.left.left
        (.left (expression_reads h right hright hb).right))
    | boxed _ _ _ ha hb =>
      have hreads := expression_reads h left hleft ha
      have hreads' := expression_reads h right hright hb
      exact .cons nofun (.append hreads.left.left.left.left (.left (.left hreads'.right)))
  | .call _ name args, _, .call _ hfunction hargs, first, last, code, hcode => by
    obtain ⟨params, hfind, hparams⟩ := h.functions name _ hfunction
    rw [← hparams] at hargs
    cases expression_code hcode with
    | call hentry hinner =>
      cases hentry.symm.trans hfind
      exact .cons nofun (.left (.behind (arguments_reads h args hargs hinner)))

theorem listItems_reads (h : Provides symbols globals locals) :
    (items : List (Expr Info)) → {component : Ty} → ItemsFit symbols items component →
    {first last : Label} → {code : List Instruction} →
    listItems globals locals items first = .ok (code, last) → Reads locals (Expr.rowsAll items) code
  | [], _, _, _, _, _, _ => .nil
  | item :: rest, _, .cons hitem _ _ hrest, first, last, code, hcode => by
    cases items_code hcode with
    | cons _ ha hb =>
      have hreads := expression_reads h item hitem ha
      exact .append hreads.behind.left.left.left (listItems_reads h rest hrest hb).right

theorem arguments_reads (h : Provides symbols globals locals) :
    (args : List (Expr Info)) → {params : List Parameter} →
    ArgsFit symbols args (params.map Parameter.ty) → {first last : Label} →
    {code : List Instruction} → arguments globals locals args params first = .ok (code, last) →
    Reads locals (Expr.rowsAll args) code
  | [], _, _, _, _, _, _ => .nil
  | arg :: args, param :: params, .cons harg _ _ hargs, first, last, code, hcode => by
    cases arguments_code hcode with
    | cons _ ha hb =>
      exact .append (expression_reads h arg harg ha).left.left
        (arguments_reads h args hargs hb).right

end
end Uses

section Values
variable {globals : Globals} {around : Surroundings} {frame next : Frame} {s : Stmt Info}
  {code : List Instruction} {e : Expr Info}

theorem part_of_value {target : Ty} {first last : Label}
    (h : value globals frame.locals target e first = .ok (code, last)) :
    ∃ part, expression globals frame.locals e first = .ok (part, last) ∧ part <:+: code := by
  obtain ⟨ty, part, -, hpart, rfl⟩ := value_iff.1 h
  exact ⟨part, hpart, (List.prefix_append _ _).isInfix⟩

theorem part_of_statement (h : statement globals around s frame = .ok (code, next))
    (he : e ∈ s.values) : ∃ first part last,
      expression globals frame.locals e first = .ok (part, last) ∧ part <:+: code := by
  cases statement_code h with
  | function => cases he
  | leave => cases he
  | declareField _ _ hvalue | assignField _ _ hvalue | print hvalue =>
    cases List.mem_singleton.1 he
    obtain ⟨part, hpart, hinfix⟩ := part_of_value hvalue
    exact ⟨_, part, _, hpart, hinfix.trans ⟨[.loadRef 0], _, rfl⟩⟩
  | declareSlot _ _ hvalue | assignSlot _ hvalue | returning _ hvalue =>
    cases List.mem_singleton.1 he
    obtain ⟨part, hpart, hinfix⟩ := part_of_value hvalue
    exact ⟨_, part, _, hpart, hinfix.trans (List.prefix_append _ _).isInfix⟩
  | ifThen htest | ifThenElse htest | loop _ htest =>
    cases List.mem_singleton.1 he
    exact ⟨_, _, _, htest, ⟨[], _, by simp; rfl⟩⟩
  | call _ hcode =>
    cases List.mem_singleton.1 he
    refine ⟨_, _, _, hcode, ?_⟩
    split
    · exact List.infix_rfl
    · exact (List.prefix_append _ _).isInfix
  | bare hcode =>
    cases List.mem_singleton.1 he
    exact ⟨_, _, _, hcode, List.infix_rfl⟩

end Values

section Situations
variable {globals : Globals} {spot : Spot} {around : Surroundings} {returns : Option Ty}
  {symbols after : Symbols} {frame : Frame} {info : Info} {name : String} {ty : Ty}

theorem Provides.find_local {locals : Scopes Local} (h : Provides symbols globals locals)
    (name : String) : Option.Rel (fun home ty => home.ty = ty) (locals.find? name)
      (symbols.scopes.inner? name) := by
  rw [← Scopes.find?_levels h.based]
  exact Scopes.findSome?_match h.levels name

theorem Situated.uses {s : Stmt Info} {code : List Instruction} {next : Frame}
    (h : Situated globals spot around returns symbols frame) (hs : Checks returns symbols s after)
    (hcode : statement globals around s frame = .ok (code, next)) :
    ∀ e ∈ s.values, Reads frame.locals e.rows code := by
  intro e he
  obtain ⟨ty, hty⟩ := hs.values e he
  obtain ⟨first, part, last, hpart, hinfix⟩ := part_of_statement hcode he
  exact (expression_reads h.framed.provides e hty hpart).within hinfix

theorem Situated.assigns {value : Expr Info}
    (h : Situated globals spot around returns symbols frame)
    (hs : Checks returns symbols (.assignment info name value) after) :
    Stores globals spot around frame (.assignment info name value) := by
  cases hs with
  | @assignment _ _ _ _ _ ty hinfo hty _ hvalue =>
    obtain ⟨code, label, hcode, -⟩ := value_ok h.framed.provides hvalue frame.label
    refine ⟨ty, code, label, hinfo, hcode, ?_⟩
    rw [slot?]
    rcases h.framed.provides.find hty with ⟨home, hhome, rfl⟩ | ⟨hnone, hfield⟩
    · rw [(StatementCode.assignSlot hhome hcode).ok, hhome, Option.map_some, writing_local]
    · rw [(StatementCode.assignField hnone hfield hcode).ok, hnone, Option.map_none, writing_field]

theorem Situated.declares {ty? : Option Ty} {value : Expr Info}
    (h : Situated globals spot around returns symbols frame)
    (hs : Checks returns symbols (.declaration info name ty? value) after)
    (hfields : Scope.Sub after.scopes.outermost globals.fields) :
    Stores globals spot around frame (.declaration info name ty? value) := by
  cases hs with
  | @declaration _ _ _ _ _ _ ty hinfo _ _ hvalue =>
    obtain ⟨code, label, hcode, -⟩ := value_ok h.framed.provides hvalue frame.label
    rw [Stores]
    cases hnested : symbols.scopes.nested with
    | nil =>
      have hbase := h.nests.base.1 hnested
      have hnone : slot? frame.locals name = none := by
        have hrel := h.framed.provides.find_local name
        rw [Scopes.inner?, hnested] at hrel
        rw [slot?]
        generalize frame.locals.find? name = home at hrel ⊢
        cases hrel
        rfl
      have htop : around.topLevel = true := by rw [h.surrounds.topLevel, hnested]; rfl
      refine ⟨ty, code, { frame with label }, hinfo, hcode, ?_, ?_, fun _ => hfields name ty ?_⟩
      · rw [(StatementCode.declareField hinfo htop hcode).ok, hnone, writing_field]
      · rw [hnone, hbase]
        simp
      · rw [Symbols.declare, Scopes.declare, hnested]
        exact (Scope.find?_bind _ _ _ _).trans (if_pos rfl)
    | cons scope rest =>
      have hbase : spot.dropLast ≠ [] := fun hnil => by
        rw [h.nests.base.2 hnil] at hnested
        cases hnested
      have htop : around.topLevel = false := by rw [h.surrounds.topLevel, hnested]; rfl
      have hslot : slot? (frame.locals.declare name ⟨frame.slot, ty⟩) name = some frame.slot := by
        rw [slot?, Scopes.find?_declare, if_pos rfl]
        rfl
      refine ⟨ty, code, ⟨label, frame.slot + 1, frame.locals.declare name ⟨frame.slot, ty⟩⟩, hinfo,
        hcode, ?_, ?_, fun hnone => ?_⟩
      · rw [(StatementCode.declareSlot hinfo htop hcode).ok, hslot, writing_local]
      · rw [hslot]
        exact iff_of_true rfl hbase
      · rw [hslot] at hnone
        cases hnone

theorem Situated.loops {iterable : Expr Info} {body : List (Stmt Info)}
    (h : Situated globals spot around returns symbols frame)
    (hs : Checks returns symbols (.loop info name iterable body) after)
    (hfields : Scope.Sub after.scopes.outermost globals.fields) :
    Stores globals spot around frame (.loop info name iterable body) := by
  cases hs with
  | @loop _ _ _ _ _ _ _ ty hinfo hiterable hnew hbody =>
    obtain ⟨items, label, hitems, -⟩ :=
      expression_ok h.framed.provides iterable hiterable (frame.label + 2)
    have hopens : Opens globals around frame (.loop info name iterable body) _ body _ _ :=
      .loop hinfo hitems
    obtain ⟨first, final, hstart, hchecks, hsub⟩ :=
      hopens.situated h (.loop hinfo hiterable hnew hbody) hfields
    obtain ⟨part, last, hpart, -⟩ :=
      statements_ok body hchecks hsub hstart.surrounds _ hstart.framed
    have hslot : slot? (forBody ⟨label, frame.slot + 1, frame.locals⟩ name ty).locals name =
        some (frame.slot + 1) := by
      rw [slot?, forBody, Scopes.find?_push, itemFrame, Scopes.find?_declare, if_pos rfl]
      rfl
    have hcode : ∃ code next,
        statement globals around (.loop info name iterable body) frame = .ok (code, next) ∧
          coerce .object ty ++ [store ⟨frame.slot + 1, ty⟩] ++ part <:+: code := by
      refine ⟨_, _, (StatementCode.loop hinfo hitems hpart).ok, ?_⟩
      rw [List.append_assoc]
      exact (infix_iteration _ _ _ _).trans (List.suffix_append _ _).isInfix
    obtain ⟨code, next, hcode, hinfix⟩ := hcode
    refine ⟨ty, _, part, last, code, next, hinfo, hopens, hpart, hcode, ?_, ?_⟩
    · rw [hslot]
      rfl
    · rwa [hslot, writing_local]

/-- Code sets variables as their types ask for. -/
theorem Situated.stores {s : Stmt Info} (h : Situated globals spot around returns symbols frame)
    (hs : Checks returns symbols s after)
    (hfields : Scope.Sub after.scopes.outermost globals.fields) :
    Stores globals spot around frame s := by
  cases s with
  | assignment => exact h.assigns hs
  | declaration => exact h.declares hs hfields
  | loop => exact h.loops hs hfields
  | _ => trivial

end Situations

end Generation
end CatScript
