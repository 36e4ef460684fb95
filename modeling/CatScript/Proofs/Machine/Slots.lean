import CatScript.Proofs.Machine.Agreement

/-! # Storing variables

A local variable is stored in its own slot, and no other variable is there
(`Holds.declare`, `Holds.assign`); a top-level variable is stored in its field (`Agrees.store`). -/
set_option autoImplicit false
namespace CatScript

namespace Scopes
variable {α β : Type} {R R' : α → β → Prop} {s : List (Scope α)} {t : List (Scope β)}

theorem forall₂_imp_of_mem (h : List.Forall₂ (Scope.Match R) s t)
    (himp : ∀ a b, (∃ entry ∈ t.flatten, entry.2 = b) → R a b → R' a b) :
    List.Forall₂ (Scope.Match R') s t := by
  induction h with
  | nil => exact .nil
  | @cons first other rest others hfirst _ ih =>
    refine .cons (hfirst.imp fun name a b _ hb hab => himp a b ⟨(name, b), ?_, rfl⟩ hab)
      (ih fun a b ⟨entry, hentry, hb⟩ => himp a b
        ⟨entry, List.mem_append_right _ hentry, hb⟩)
    exact List.mem_append_left _ (Scope.mem_of_find? hb)

theorem mem_of_findSome? {name : String} {b : β}
    (h : t.findSome? (·.find? name) = some b) : (name, b) ∈ t.flatten := by
  obtain ⟨scope, hscope, hfind⟩ := List.exists_of_findSome?_eq_some h
  exact List.mem_flatten.2 ⟨scope, hscope, Scope.mem_of_find? hfind⟩

/-- The first of some scopes that binds a name binds it anew; what else is bound has other keys. -/
theorem rebind?_update (key : β → Nat) (h : List.Forall₂ (Scope.Match R) s t)
    (hdistinct : (t.flatten.map fun entry => key entry.2).Nodup) {name : String} {x : α} {y : β}
    (hy : t.findSome? (·.find? name) = some y) (hxy : R' x y)
    (hother : ∀ a b, key b ≠ key y → R a b → R' a b) :
    ∃ s', rebind? name x s = some s' ∧ List.Forall₂ (Scope.Match R') s' t := by
  induction h with
  | nil => cases hy
  | @cons first other rest others hfirst hrest ih =>
    rw [List.flatten_cons, List.map_append, List.nodup_append] at hdistinct
    obtain ⟨hhere, hthere, hapart⟩ := hdistinct
    rw [List.findSome?_cons] at hy
    cases hfind : other.find? name with
    | none =>
      rw [hfind] at hy
      obtain ⟨rest', hrebind, hmatch⟩ := ih hthere hy
      refine ⟨first :: rest', ?_, .cons (hfirst.imp fun n a b _ hb => hother a b fun hkey => ?_)
        hmatch⟩
      · rw [rebind?, (hfirst.none_iff name).2 hfind, hrebind]; rfl
      · exact hapart _ (List.mem_map_of_mem (Scope.mem_of_find? hb)) _
          (List.mem_map_of_mem (mem_of_findSome? hy)) hkey
    | some z =>
      rw [hfind] at hy
      cases hy
      obtain ⟨old, hold, -⟩ := hfirst.find hfind
      refine ⟨first.bind name x :: rest, by rw [rebind?, hold], .cons (fun n => ?_)
        (forall₂_imp_of_mem hrest fun a b hb => hother a b fun hkey => ?_)⟩
      · rw [Scope.find?_bind]
        by_cases hn : name = n
        · subst hn; rw [if_pos rfl, hfind]; exact .some hxy
        · rw [if_neg hn]
          cases hb : other.find? n with
          | none => rw [(hfirst.none_iff n).2 hb]; exact .none
          | some b =>
            obtain ⟨a, ha, hab⟩ := hfirst.find hb
            rw [ha]
            refine .some (hother a b (fun hkey => ?_) hab)
            have heq := List.inj_on_of_nodup_map hhere (Scope.mem_of_find? hb)
              (Scope.mem_of_find? hfind) hkey
            exact hn (congrArg Prod.fst heq).symm
      · obtain ⟨entry, hentry, hb⟩ := hb
        refine hapart _ (List.mem_map_of_mem (Scope.mem_of_find? hfind)) _
          (List.mem_map_of_mem hentry) ?_
        rw [hb]
        exact hkey.symm

end Scopes

section Storing
variable {setting : Setting} {symbols : Symbols} {frame : Frame} {slots : Array Operand}
  {contents : Contents} {nested : List (Scope Value)} {operand : Operand} {value : Value}

def Frame.Uses (frame : Frame) (slot : Nat) : Prop :=
  ∃ entry ∈ frame.locals.levels.flatten, (entry.2.slot : Nat) = slot

theorem getElem?_store {slot other : Nat} (h : slot ≠ other) :
    (slots.setIfInBounds slot operand)[other]? = slots[other]? := by
  rw [Array.getElem?_setIfInBounds, if_neg h]

theorem getElem?_store_self {slot : Nat} (h : slot < slots.size) :
    (slots.setIfInBounds slot operand)[slot]? = some operand := by
  rw [Array.getElem?_setIfInBounds, if_pos rfl, if_pos h]

theorem Holds.store_other (h : Holds frame.locals slots contents nested) (operand : Operand)
    {slot : Nat} (hpositive : slot ≠ 0) (hslot : ¬frame.Uses slot) :
    Holds frame.locals (slots.setIfInBounds slot operand) contents nested := by
  refine ⟨?_, Scopes.forall₂_imp_of_mem h.levels
    fun value home ⟨entry, hentry, hhome⟩ ⟨kept, hkept, hkeeps⟩ => ⟨kept, ?_, hkeeps⟩⟩
  · rw [getElem?_store hpositive]
    exact h.program
  · rw [getElem?_store fun heq => hslot ⟨entry, hentry, by rw [hhome, heq]⟩]
    exact hkept

theorem Framed.not_uses (h : Framed symbols setting.globals frame) : ¬frame.Uses frame.slot := by
  rintro ⟨entry, hentry, heq⟩
  exact Nat.ne_of_lt (h.range entry hentry).2 heq

theorem Holds.length (h : Holds frame.locals slots contents nested)
    (hframe : Framed symbols setting.globals frame) :
    nested.length = symbols.scopes.nested.length :=
  h.levels.length_eq.trans hframe.provides.levels.length_eq

theorem Holds.first {locals : Scopes Local} {scope scope' : Scope Value} {rest : List (Scope Value)}
    (h : Holds locals slots contents (scope :: rest))
    (hsame : ∀ name, scope'.find? name = scope.find? name) :
    Holds locals slots contents (scope' :: rest) := by
  obtain ⟨hprogram, hlevels⟩ := h
  refine ⟨hprogram, ?_⟩
  generalize locals.levels = levels at hlevels
  cases hlevels with
  | cons hfirst hrest => exact .cons (fun name => hsame name ▸ hfirst name) hrest

theorem Holds.declare (h : Holds frame.locals slots contents nested)
    (hframe : Framed symbols setting.globals frame) (hnested : symbols.scopes.nested ≠ [])
    {name : String} (hfresh : symbols.declaredHere name = false) {ty : Ty}
    (hslot : (frame.slot : Nat) < slots.size) (hkeeps : Keeps contents ty value operand)
    (outermost : Scope Value) :
    Holds (frame.locals.declare name ⟨frame.slot, ty⟩) (slots.setIfInBounds frame.slot operand)
      contents (Scopes.declare name value ⟨outermost, nested⟩).nested := by
  have hpositive : (frame.slot : Nat) ≠ 0 := Nat.ne_of_gt hframe.positive
  have hother := h.store_other operand hpositive hframe.not_uses
  obtain ⟨first, level, others, heq, hlevel, hfind, -⟩ :=
    hframe.levels_declare ⟨frame.slot, ty⟩ hnested hfresh
  refine ⟨hother.program, ?_⟩
  have hlevels := hother.levels
  rw [heq] at hlevels
  rw [hlevel]
  cases hlevels with
  | cons hfirst hothers =>
    refine .cons (fun other => ?_) hothers
    rw [Scope.find?_bind, hfind]
    split
    · exact .some ⟨operand, getElem?_store_self hslot, hkeeps⟩
    · exact hfirst other

theorem Holds.assign (h : Holds frame.locals slots contents nested)
    (hframe : Framed symbols setting.globals frame) {name : String} {home : Local}
    (hhome : frame.locals.find? name = some home) (hslot : (home.slot : Nat) < slots.size)
    (hkeeps : Keeps contents home.ty value operand) :
    ∃ nested', Scopes.rebind? name value nested = some nested' ∧
      Holds frame.locals (slots.setIfInBounds home.slot operand) contents nested' := by
  have hfind : frame.locals.levels.findSome? (·.find? name) = some home := by
    rw [Scopes.find?_levels hframe.provides.based, hhome]
  have hpositive := (hframe.range _ (Scopes.mem_of_findSome? hfind)).1
  obtain ⟨nested', hrebind, hlevels⟩ : ∃ nested', Scopes.rebind? name value nested = some nested' ∧
      List.Forall₂ (Scope.Match fun value (other : Local) => ∃ kept,
        (slots.setIfInBounds home.slot operand)[other.slot]? = some kept ∧
          Keeps contents other.ty value kept) nested' frame.locals.levels :=
    Scopes.rebind?_update (fun home : Local => (home.slot : Nat)) h.levels hframe.slots hfind
      ⟨operand, getElem?_store_self hslot, hkeeps⟩ fun value other hne ⟨kept, hkept, hkeeps⟩ =>
        ⟨kept, (getElem?_store (Ne.symm hne)).trans hkept, hkeeps⟩
  refine ⟨nested', hrebind, ?_, hlevels⟩
  rw [getElem?_store (Nat.ne_of_gt hpositive)]
  exact h.program

theorem Holds.pop {locals : Scopes Local} (h : Holds locals slots contents nested) :
    Holds locals.pop slots contents nested.tail := by
  refine ⟨h.program, ?_⟩
  rw [Scopes.levels_pop]
  cases hlevels : locals.levels with
  | nil =>
    have hall := h.levels
    rw [hlevels] at hall
    cases hall
    exact .nil
  | cons first rest =>
    have hall := h.levels
    rw [hlevels] at hall
    cases hall with
    | cons _ hrest => exact hrest

theorem Holds.push {locals : Scopes Local} (h : Holds locals slots contents nested)
    (hbased : locals.Based) : Holds locals.push slots contents ([] :: nested) := by
  refine ⟨h.program, ?_⟩
  rw [Scopes.levels_push hbased]
  exact .cons .nil h.levels

theorem Agrees.store {store : Store} {moment : Moment} (h : Agrees setting store moment)
    {name : String} {ty : Ty} (hty : setting.globals.fields.find? name = some ty)
    (hkeeps : Keeps moment.contents ty value operand) (nested : List (Scope Value)) :
    Agrees setting { store with scopes := ⟨store.scopes.outermost.bind name value, nested⟩ }
      (moment.put name operand) := by
  refine ⟨h.describes, fun other other' hother => ?_, h.output⟩
  rw [Moment.put, Scope.find?_bind, Scope.find?_bind]
  by_cases hname : name = other
  · subst hname
    rw [hty] at hother
    cases hother
    exact ⟨value, operand, if_pos rfl, if_pos rfl, hkeeps⟩
  · obtain ⟨kept, kept', hkept, hkept', hkeeps'⟩ := h.globals other other' hother
    exact ⟨kept, kept', (if_neg hname).trans hkept, (if_neg hname).trans hkept', hkeeps'⟩

theorem Agrees.onScopes {store : Store} {moment : Moment} (h : Agrees setting store moment)
    {change : Scopes Value → Scopes Value}
    (hchange : (change store.scopes).outermost = store.scopes.outermost) :
    Agrees setting (store.onScopes change) moment := by
  refine ⟨h.describes, fun name ty hname => ?_, h.output⟩
  rw [Store.onScopes, hchange]
  exact h.globals name ty hname

end Storing
end CatScript
