import CatScript.Proofs.Grammar.Calls
import CatScript.Proofs.Typing.Parts
import CatScript.Proofs.Typing.Shape

/-! # Types of values

Nothing in the type of a value is `void` (`Ty.Storable`).  The rules of the language hand `void` on
from a part of an expression to the whole, if at all, so in an expression that has a value every part
has one (`Typing.HasType.valued`); and of what a statement evaluates, only the call of a call
statement may have none (`Typing.Checks.values_valued`).  Variables are of types that values have,
wherever they are declared (`Program.Stands.valued`, `Typing.ChecksAll.storable`). -/
set_option autoImplicit false
namespace CatScript

def Valued (ty? : Option Ty) : Prop :=
  ∃ ty, ty? = some ty ∧ ty.Storable

/-- The variable that a statement declares or sets is of a type that values have, and so are the
parameters of a function and what it gives, if anything. -/
def Stmt.KeepsValues : Stmt Info → Prop
  | .declaration info _ _ _ | .assignment info _ _ | .loop info _ _ _ => Valued info.ty
  | .function _ _ params returns _ =>
    (∀ param ∈ params, param.ty.Storable) ∧ (returns = .void ∨ returns.Storable)
  | _ => True

namespace Typing
section Parts
variable {symbols : Symbols}

theorem PartOf.valued (hresults : StorableResults symbols.functions) {ty : Ty} {row : Row}
    (h : PartOf symbols ty row) (hty : ty ≠ .void) : Valued row.1.ty := by
  obtain ⟨part, own, hhead, hpart, hvoid⟩ := h
  refine ⟨own, ?_, (hpart.storable hresults part).resolve_left fun hown => hty (hvoid hown)⟩
  rw [part.mark_of_head hhead]
  exact hpart.mark

theorem HasType.valued (hresults : StorableResults symbols.functions) {e : Expr Info} {ty : Ty}
    (h : HasType symbols e ty) (hty : ty ≠ .void) : ∀ row ∈ e.rows, Valued row.1.ty := by
  intro row hrow
  exact (h.parts e row hrow).valued hresults hty

/-- The arguments of a call have values, whatever the call gives. -/
theorem ArgsFit.valued (hresults : StorableResults symbols.functions) {args : List (Expr Info)}
    {params : List Ty} (h : ArgsFit symbols args params) :
    ∀ row ∈ Expr.rowsAll args, Valued row.1.ty := by
  intro row hrow
  have hpart : PartOf symbols .object row := ArgsFit.parts args h row hrow
  exact hpart.valued hresults (Ty.Storable.ne_void trivial)

end Parts

section Statements
variable {returns : Option Ty} {symbols after : Symbols} {s : Stmt Info}

/-- Every part of what a statement evaluates has a value, but for the call of a call statement. -/
theorem Checks.values_valued (h : Checks returns symbols s after)
    (hresults : StorableResults symbols.functions) (hcalls : s.CallsMade) {e : Expr Info}
    (he : e ∈ s.values) : ∀ row ∈ e.rows, Valued row.1.ty ∨ row.1.ty = some .void ∧
      ∃ info mark name args, s = .call info (.call mark name args) ∧
        row = (mark, .call name (Expr.ids args)) := by
  intro row hrow
  obtain ⟨ty, hty, hkind⟩ := h.evaluates e he
  by_cases hvoid : ty = .void
  · obtain ⟨info, rfl⟩ := hkind.resolve_left (absurd hvoid)
    simp only [Stmt.CallsMade] at hcalls
    obtain ⟨mark, name, args, rfl⟩ := Expr.exists_of_isCall hcalls
    rcases List.mem_cons.1 hrow with rfl | hrow
    · exact .inr ⟨hvoid ▸ hty.mark, info, mark, name, args, rfl, rfl⟩
    · cases hty with
      | call _ _ hargs => exact .inl (hargs.valued hresults row hrow)
  · exact .inl (hty.valued hresults hvoid row hrow)

theorem Checks.keepsValues (h : Checks returns symbols s after)
    (hresults : StorableResults symbols.functions) : s.KeepsValues := by
  cases h with
  | declaration hinfo _ hty _ | assignment hinfo _ hty _ => exact ⟨_, hinfo, hty⟩
  | function _ _ hcallable _ => exact ⟨hcallable.params, hcallable.returns.imp_right And.left⟩
  | loop hinfo hiterable _ _ =>
    exact ⟨_, hinfo, (hiterable.storable hresults _).resolve_left (by simp)⟩
  | _ => trivial

theorem ChecksAll.storable {body : List (Stmt Info)} : {symbols : Symbols} →
    ChecksAll returns symbols body after → symbols.scopes.All Ty.Storable →
    after.scopes.All Ty.Storable := by
  induction body with
  | nil =>
    intro symbols h hscopes
    cases h
    exact hscopes
  | cons s rest ih =>
    intro symbols h hscopes
    cases h with
    | cons hs hrest =>
      refine ih hrest ?_
      cases hs with
      | declaration _ _ hty _ => exact hscopes.declare _ hty
      | _ => exact hscopes

theorem statement_annotated {around : Surroundings} {info : Info} {name : String} {ty : Ty}
    {value : Expr Info}
    (h : statement around symbols s = .ok (after, .declaration info name (some ty) value)) :
    info.ty = some ty := by
  cases statement_step h with
  | declaration _ hty =>
    rw [hty]
    rfl

end Statements

end Typing

def BindsValues (bound : List (String × Option Ty)) : Prop :=
  ∀ entry ∈ bound, Valued entry.2

def Spot.Valued (spot : Spot) : Prop :=
  ∀ stretch ∈ spot, BindsValues stretch.declared

section Declared
variable {s : Stmt Info}

theorem Stmt.KeepsValues.declares (h : s.KeepsValues) : BindsValues s.declares := by
  cases s with
  | declaration => exact List.forall_mem_singleton.2 h
  | _ => exact List.forall_mem_nil _

theorem Stmt.KeepsValues.blocks (h : s.KeepsValues) {bound : List (String × Option Ty)}
    {body : List (Stmt Info)} (hblock : (bound, body) ∈ s.blocks) : BindsValues bound := by
  cases s with
  | function info name params returns inner =>
    cases List.mem_singleton.1 hblock
    exact List.forall_mem_map.2 fun param hparam => ⟨_, rfl, h.1 param hparam⟩
  | loop =>
    cases List.mem_singleton.1 hblock
    exact List.forall_mem_singleton.2 h
  | ifThen =>
    cases List.mem_singleton.1 hblock
    exact List.forall_mem_nil _
  | ifThenElse =>
    obtain ⟨rfl, -⟩ := Stmt.blocks_ifThenElse hblock
    exact List.forall_mem_nil _
  | _ => cases hblock

theorem BindsValues.declared {bound : List (String × Option Ty)} {before : List (Stmt Info)}
    (hbound : BindsValues bound) (hbefore : ∀ s ∈ before, s.KeepsValues) :
    BindsValues (Stretch.declared ⟨bound, before⟩) := by
  refine List.forall_mem_append.2 ⟨hbound, fun entry hentry => ?_⟩
  obtain ⟨s, hs, hdeclares⟩ := List.mem_flatMap.1 hentry
  exact (hbefore s hs).declares entry hdeclares

/-- Where every statement keeps to types that values have, so does what is declared before any of
them. -/
theorem Program.Stands.valued {p : Program Info}
    (hkeeps : ∀ spot s, p.Stands spot s → s.KeepsValues) {spot : Spot} (hs : p.Stands spot s) :
    spot.Valued := by
  have hbefore : ∀ {before later : List (Stmt Info)},
      (∀ s ∈ before ++ later, ∃ spot, p.Stands spot s) → ∀ s ∈ before, s.KeepsValues := by
    intro before later hstands t ht
    obtain ⟨spot, hspot⟩ := hstands t (List.mem_append_left later ht)
    exact hkeeps spot t hspot
  induction hs with
  | top heq =>
    have hbody := hbefore (exists_stands heq)
    exact List.forall_mem_singleton.2 (BindsValues.declared (List.forall_mem_nil _) hbody)
  | inside houter hblock ih =>
    have hbody := hbefore (houter.block (List.mem_map_of_mem hblock))
    exact List.forall_mem_cons.2 ⟨((hkeeps _ _ houter).blocks hblock).declared hbody, ih⟩

theorem Spot.Valued.find? {spot : Spot} (h : spot.Valued) {name : String} {ty : Ty}
    (hty : spot.find? name = some (some ty)) : ty.Storable := by
  obtain ⟨scope, hscope, hfound⟩ := List.exists_of_findSome?_eq_some hty
  obtain ⟨stretch, hstretch, rfl⟩ := List.mem_map.1 hscope
  obtain ⟨other, hother, hstorable⟩ := h stretch hstretch _ (Scope.mem_of_find? hfound)
  cases hother
  exact hstorable

end Declared

section Calls

theorem Stmt.CallsMade.block {s : Stmt Info} (h : s.CallsMade) {bound : List (String × Option Ty)}
    {body : List (Stmt Info)} (hblock : (bound, body) ∈ s.blocks) : Stmt.AllCallsMade body := by
  cases s with
  | function | ifThen | loop =>
    cases List.mem_singleton.1 hblock
    simp only [CallsMade] at h
    exact h
  | ifThenElse =>
    simp only [CallsMade] at h
    obtain ⟨rfl, rfl | rfl⟩ := Stmt.blocks_ifThenElse hblock
    · exact h.1
    · exact h.2
  | _ => cases hblock

theorem Program.CallsMade.stands {p : Program Info} (h : p.CallsMade) {spot : Spot} {s : Stmt Info}
    (hs : p.Stands spot s) : s.CallsMade := by
  induction hs with
  | top heq =>
    subst heq
    exact Stmt.AllCallsMade.of_mem h (List.mem_append_right _ List.mem_cons_self)
  | inside _ hblock ih => exact (ih.block hblock).of_mem (List.mem_append_right _ List.mem_cons_self)

end Calls
end CatScript
