import Mathlib.Data.Option.Basic
import Mathlib.Data.List.Forall2
import CatScript.Scope

/-! # Scopes that bind the same names

`Scope.Match R s t` says that two scopes bind the same names, to things that `R` relates.  Binding a
name in both keeps it (`Scope.Match.bind`), and so does changing a name in the first of some scopes
that has it (`Scopes.rebind?_match`).  `Scope.Sub` says that a scope binds what another one binds,
and `Scopes.All` that everything bound has a property. -/
set_option autoImplicit false
namespace CatScript

variable {α β γ : Type}

namespace Scope

/-- `t` binds every name that `s` binds, to the same. -/
def Sub (s t : Scope α) : Prop :=
  ∀ name value, s.find? name = some value → t.find? name = some value

theorem Sub.refl (s : Scope α) : Sub s s := fun _ _ h => h

theorem Sub.trans {s t u : Scope α} (hst : Sub s t) (htu : Sub t u) : Sub s u := by
  intro name value h
  exact htu name value (hst name value h)

theorem sub_bind {s : Scope α} {name : String} (h : s.find? name = none) (value : α) :
    Sub s (s.bind name value) := by
  intro other found hfound
  rw [find?_bind]
  by_cases hn : name = other
  · subst hn; rw [h] at hfound; cases hfound
  · rw [if_neg hn]; exact hfound

theorem Sub.bind {s t : Scope α} (h : Sub s t) (name : String) (value : α) :
    Sub (s.bind name value) (t.bind name value) := by
  intro other found hfound
  rw [find?_bind] at hfound ⊢
  by_cases hn : name = other
  · rw [if_pos hn] at hfound ⊢; exact hfound
  · rw [if_neg hn] at hfound ⊢; exact h other found hfound

theorem find?_append (s t : Scope α) (name : String) :
    find? (s ++ t) name = (find? s name).or (find? t name) := by
  induction s with
  | nil => rfl
  | cons entry rest ih =>
    rw [List.cons_append, find?_cons, find?_cons]
    split
    · rfl
    · exact ih

theorem find?_eq_none {s : Scope α} {name : String} (h : name ∉ s.map Prod.fst) :
    s.find? name = none := by
  induction s with
  | nil => rfl
  | cons entry rest ih =>
    rw [List.map_cons, List.mem_cons, not_or] at h
    rw [find?_cons, if_neg (Ne.symm h.1), ih h.2]

theorem find?_eq_none_iff {s : Scope α} {name : String} :
    s.find? name = none ↔ name ∉ s.map Prod.fst := by
  refine ⟨fun h hmem => ?_, find?_eq_none⟩
  obtain ⟨⟨_, value⟩, hentry, rfl⟩ := List.mem_map.1 hmem
  obtain ⟨earlier, later, rfl⟩ := List.append_of_mem hentry
  rw [find?_append, Option.or_eq_none_iff, find?_cons, if_pos rfl] at h
  cases h.2

theorem find?_eq_some_iff {s : Scope α} {name : String} {value : α} : s.find? name = some value ↔
    ∃ earlier later, s = earlier ++ (name, value) :: later ∧ name ∉ earlier.map Prod.fst := by
  constructor
  · intro h
    induction s with
    | nil => cases h
    | cons entry rest ih =>
      obtain ⟨first, old⟩ := entry
      rw [find?_cons] at h
      by_cases hname : first = name
      · rw [if_pos hname] at h
        cases h
        cases hname
        exact ⟨[], rest, rfl, List.not_mem_nil⟩
      · rw [if_neg hname] at h
        obtain ⟨earlier, later, rfl, hearlier⟩ := ih h
        refine ⟨(first, old) :: earlier, later, rfl, fun hmem => ?_⟩
        exact (List.mem_cons.1 hmem).elim (fun heq => hname heq.symm) hearlier
  · rintro ⟨earlier, later, rfl, hearlier⟩
    rw [find?_append, find?_eq_none hearlier, find?_cons, if_pos rfl]
    rfl

theorem mem_of_find? {s : Scope α} {name : String} {value : α} (h : s.find? name = some value) :
    (name, value) ∈ s := by
  induction s with
  | nil => cases h
  | cons entry rest ih =>
    obtain ⟨first, old⟩ := entry
    rw [find?_cons] at h
    split at h
    · next heq => cases h; cases heq; exact List.mem_cons_self
    · exact List.mem_cons_of_mem _ (ih h)

theorem bind_eq_append {s : Scope α} {name : String} (h : s.find? name = none) (value : α) :
    s.bind name value = s ++ [(name, value)] := by
  induction s with
  | nil => rfl
  | cons entry rest ih =>
    obtain ⟨first, old⟩ := entry
    rw [find?_cons] at h
    have hne : first ≠ name := fun heq => by rw [if_pos heq] at h; cases h
    rw [if_neg hne] at h
    rw [Scope.bind, if_neg hne, ih h, List.cons_append]

theorem mem_bind {s : Scope α} {name : String} {value : α} {entry : String × α}
    (h : entry ∈ s.bind name value) : entry = (name, value) ∨ entry ∈ s := by
  induction s with
  | nil => exact .inl (List.mem_singleton.1 h)
  | cons first rest ih =>
    rw [Scope.bind] at h
    split at h
    · exact (List.mem_cons.1 h).imp_right (List.mem_cons_of_mem first)
    · rcases List.mem_cons.1 h with rfl | h
      · exact .inr List.mem_cons_self
      · exact (ih h).imp_right (List.mem_cons_of_mem first)

theorem nodup_bind {s : Scope α} (h : (s.map Prod.fst).Nodup) (name : String) (value : α) :
    ((s.bind name value).map Prod.fst).Nodup := by
  induction s with
  | nil => exact List.nodup_cons.2 ⟨List.not_mem_nil, List.nodup_nil⟩
  | cons first rest ih =>
    obtain ⟨hfirst, hrest⟩ := List.nodup_cons.1 h
    rw [Scope.bind]
    by_cases hname : first.1 = name
    · rw [if_pos hname, List.map_cons, ← hname]
      exact h
    · rw [if_neg hname, List.map_cons]
      refine List.nodup_cons.2 ⟨?_, ih hrest⟩
      intro hmem
      obtain ⟨entry, hentry, heq⟩ := List.mem_map.1 hmem
      rcases mem_bind hentry with rfl | hentry
      · exact hname heq.symm
      · exact hfirst (heq ▸ List.mem_map_of_mem hentry)

theorem isSome_foldl_bind (key : β → String) (content : β → α) (items : List β) (found : Scope α)
    (name : String) : ((items.foldl (fun scope item =>
      scope.bind (key item) (content item)) found).find? name).isSome = true ↔
        (found.find? name).isSome = true ∨ name ∈ items.map key := by
  induction items generalizing found with
  | nil => simp
  | cons item rest ih =>
    rw [List.foldl_cons, ih, find?_bind]
    by_cases hname : key item = name
    · simp [hname]
    · simp [hname, Ne.symm hname]

/-- The scopes bind the same names, to things that `R` relates. -/
def Match (R : α → β → Prop) (s : Scope α) (t : Scope β) : Prop :=
  ∀ name, Option.Rel R (s.find? name) (t.find? name)

namespace Match
variable {R : α → β → Prop} {s : Scope α} {t : Scope β}

theorem nil : Match R [] [] := fun _ => Option.Rel.none

theorem find (h : Match R s t) {name : String} {y : β} (hy : t.find? name = some y) :
    ∃ x, s.find? name = some x ∧ R x y := by
  have hrel := h name
  rw [hy] at hrel
  cases hx : s.find? name with
  | none => rw [hx] at hrel; cases hrel
  | some x => rw [hx] at hrel; cases hrel with | some hxy => exact ⟨x, rfl, hxy⟩

theorem find_left (h : Match R s t) {name : String} {x : α} (hx : s.find? name = some x) :
    ∃ y, t.find? name = some y ∧ R x y := by
  have hrel := h name
  rw [hx] at hrel
  cases hy : t.find? name with
  | none => rw [hy] at hrel; cases hrel
  | some y => rw [hy] at hrel; cases hrel with | some hxy => exact ⟨y, rfl, hxy⟩

theorem none_iff (h : Match R s t) (name : String) : s.find? name = none ↔ t.find? name = none := by
  have hrel := h name
  cases hx : s.find? name <;> cases hy : t.find? name <;> rw [hx, hy] at hrel <;> cases hrel <;>
    simp

theorem bind (h : Match R s t) (name : String) {x : α} {y : β} (hxy : R x y) :
    Match R (s.bind name x) (t.bind name y) := by
  intro other
  rw [find?_bind, find?_bind]
  split
  · exact Option.Rel.some hxy
  · exact h other

theorem imp {R' : α → β → Prop} (h : Match R s t)
    (himp : ∀ name x y, s.find? name = some x → t.find? name = some y → R x y → R' x y) :
    Match R' s t := by
  intro name
  have hrel := h name
  cases hx : s.find? name with
  | none => rw [hx] at hrel; cases hy : t.find? name <;> rw [hy] at hrel <;> cases hrel; exact .none
  | some x =>
    obtain ⟨y, hy, hxy⟩ := h.find_left hx
    rw [hy]
    exact Option.Rel.some (himp name x y hx hy hxy)

end Match
end Scope

namespace Scopes

theorem findSome?_match {R : α → β → Prop} {s : List (Scope α)} {t : List (Scope β)}
    (h : List.Forall₂ (Scope.Match R) s t) (name : String) :
    Option.Rel R (s.findSome? (·.find? name)) (t.findSome? (·.find? name)) := by
  induction h with
  | nil => exact Option.Rel.none
  | @cons x y xs ys hxy _ ih =>
    rw [List.findSome?_cons, List.findSome?_cons]
    cases hx : x.find? name with
    | none => rw [(hxy.none_iff name).1 hx]; exact ih
    | some value =>
      obtain ⟨other, hother, hR⟩ := hxy.find_left hx
      rw [hother]; exact Option.Rel.some hR

theorem rebind?_match {R : α → β → Prop} {s : List (Scope α)} {t : List (Scope β)}
    (h : List.Forall₂ (Scope.Match R) s t) {name : String} {x : α} {y : β}
    (hy : t.findSome? (·.find? name) = some y) (hxy : R x y) :
    ∃ s', rebind? name x s = some s' ∧ List.Forall₂ (Scope.Match R) s' t := by
  induction h with
  | nil => cases hy
  | @cons first other rest others hfirst hrest ih =>
    rw [List.findSome?_cons] at hy
    cases hfind : other.find? name with
    | none =>
      rw [hfind] at hy
      obtain ⟨rest', hrebind, hmatch⟩ := ih hy
      refine ⟨first :: rest', ?_, .cons hfirst hmatch⟩
      rw [rebind?, (hfirst.none_iff name).2 hfind, hrebind]; rfl
    | some z =>
      rw [hfind] at hy
      cases hy
      obtain ⟨old, hold, -⟩ := hfirst.find hfind
      refine ⟨first.bind name x :: rest, by rw [rebind?, hold], .cons ?_ hrest⟩
      intro n
      rw [Scope.find?_bind]
      by_cases hn : name = n
      · subst hn; rw [if_pos rfl, hfind]; exact Option.Rel.some hxy
      · rw [if_neg hn]; exact hfirst n

theorem rebind?_none {s : List (Scope α)} {name : String}
    (h : s.findSome? (·.find? name) = none) (value : α) : rebind? name value s = none := by
  induction s with
  | nil => rfl
  | cons first rest ih =>
    rw [List.findSome?_cons] at h
    cases hfind : first.find? name with
    | some old => rw [hfind] at h; cases h
    | none => rw [hfind] at h; rw [rebind?, hfind, ih h]; rfl

theorem findSome?_of_rebind?_none {s : List (Scope α)} {name : String} {value : α}
    (h : rebind? name value s = none) : s.findSome? (·.find? name) = none := by
  induction s with
  | nil => rfl
  | cons first rest ih =>
    rw [rebind?] at h
    rw [List.findSome?_cons]
    cases hfind : first.find? name with
    | some old => rw [hfind] at h; cases h
    | none => rw [hfind] at h; exact ih (Option.map_eq_none_iff.1 h)

theorem find?_of_assign?_none {scopes : Scopes α} {name : String} {value : α}
    (h : scopes.assign? name value = none) : scopes.find? name = none := by
  rw [assign?] at h
  cases hrebind : rebind? name value scopes.nested with
  | some nested => rw [hrebind] at h; cases h
  | none =>
    rw [hrebind] at h
    rw [find?, findSome?_of_rebind?_none hrebind]
    cases hfind : scopes.outermost.find? name with
    | some old => rw [hfind] at h; cases h
    | none => rfl

section Levels
variable {outermost : Scope α} {scope : Scope α} {rest : List (Scope α)} {name : String} {value : α}

theorem find?_nil : find? ⟨outermost, []⟩ name = outermost.find? name := rfl

theorem find?_cons : find? ⟨outermost, scope :: rest⟩ name =
    (scope.find? name).or (find? ⟨outermost, rest⟩ name) := by
  simp only [find?, List.findSome?_cons]
  cases scope.find? name <;> rfl

theorem find?_of_innermost {scopes : Scopes α} (h : scopes.innermost.find? name = some value) :
    scopes.find? name = some value := by
  obtain ⟨outermost, nested⟩ := scopes
  cases nested with
  | nil => exact h
  | cons first rest =>
    rw [find?_cons]
    rw [innermost, List.headD_cons] at h
    rw [h]; rfl

theorem assign?_nil : assign? name value ⟨outermost, []⟩ =
    match outermost.find? name with
    | some _ => some ⟨outermost.bind name value, []⟩
    | none => none := rfl

theorem assign?_cons : assign? name value ⟨outermost, scope :: rest⟩ =
    match scope.find? name with
    | some _ => some ⟨outermost, scope.bind name value :: rest⟩
    | none => (assign? name value ⟨outermost, rest⟩).map
        fun scopes => ⟨scopes.outermost, scope :: scopes.nested⟩ := by
  simp only [assign?, rebind?]
  cases scope.find? name with
  | some old => rfl
  | none =>
    cases rebind? name value rest with
    | some nested => rfl
    | none => cases outermost.find? name <;> rfl

theorem innermost_declare {scopes : Scopes α} {other : String} :
    (scopes.declare name value).innermost.find? other =
      if name = other then some value else scopes.innermost.find? other := by
  obtain ⟨outermost, nested⟩ := scopes
  cases nested <;> simp [declare, innermost, Scope.find?_bind]

theorem assign?_of_innermost {scopes : Scopes α} {old : α} (value : α)
    (h : scopes.innermost.find? name = some old) :
    scopes.assign? name value = some (scopes.declare name value) := by
  obtain ⟨outermost, nested⟩ := scopes
  cases nested with
  | nil => rw [assign?_nil]; rw [show outermost.find? name = some old from h]; rfl
  | cons first rest => rw [assign?_cons]; rw [show first.find? name = some old from h]; rfl

/-- Inside other scopes a declaration leaves the outermost one alone. -/
theorem outermost_declare {scopes : Scopes α} (h : scopes.nested ≠ []) (name : String) (value : α) :
    (scopes.declare name value).outermost = scopes.outermost := by
  obtain ⟨outermost, nested⟩ := scopes
  cases nested with
  | nil => exact absurd rfl h
  | cons first rest => rfl

end Levels

end Scopes

def Scope.All (P : α → Prop) (scope : Scope α) : Prop :=
  ∀ name value, scope.find? name = some value → P value

theorem Scope.All.bind {P : α → Prop} {scope : Scope α} (h : scope.All P) (name : String) {value : α}
    (hvalue : P value) : (scope.bind name value).All P := by
  intro other found hfound
  rw [find?_bind] at hfound
  by_cases hn : name = other
  · rw [if_pos hn] at hfound
    cases hfound
    exact hvalue
  · rw [if_neg hn] at hfound
    exact h other found hfound

theorem Scope.All.imp {P Q : α → Prop} {scope : Scope α} (h : scope.All P)
    (himp : ∀ value, P value → Q value) : scope.All Q := by
  intro name value hfind
  exact himp value (h name value hfind)

namespace Scopes

structure All (P : α → Prop) (scopes : Scopes α) : Prop where
  outermost : scopes.outermost.All P
  nested : ∀ scope ∈ scopes.nested, scope.All P

namespace All
variable {P : α → Prop} {scopes : Scopes α}

theorem empty : (Scopes.empty : Scopes α).All P := ⟨nofun, nofun⟩

theorem imp {Q : α → Prop} (h : scopes.All P) (himp : ∀ value, P value → Q value) : scopes.All Q := by
  refine ⟨h.outermost.imp himp, fun scope hscope => ?_⟩
  exact (h.nested scope hscope).imp himp

theorem push (h : scopes.All P) : scopes.push.All P :=
  ⟨h.outermost, List.forall_mem_cons.2 ⟨nofun, h.nested⟩⟩

theorem pop (h : scopes.All P) : scopes.pop.All P := by
  refine ⟨h.outermost, fun scope hscope => ?_⟩
  exact h.nested scope (List.mem_of_mem_tail hscope)

theorem find {name : String} {value : α} (h : scopes.All P) (hfind : scopes.find? name = some value) :
    P value := by
  obtain ⟨outermost, nested⟩ := scopes
  induction nested with
  | nil => exact h.outermost name value hfind
  | cons scope rest ih =>
    rw [find?_cons] at hfind
    obtain ⟨hscope, hrest⟩ := List.forall_mem_cons.1 h.nested
    cases hinner : scope.find? name with
    | some found =>
      rw [hinner] at hfind
      cases hfind
      exact hscope name value hinner
    | none =>
      rw [hinner] at hfind
      exact ih ⟨h.outermost, hrest⟩ hfind

theorem declare (h : scopes.All P) (name : String) {value : α} (hvalue : P value) :
    (scopes.declare name value).All P := by
  obtain ⟨outermost, nested⟩ := scopes
  cases nested with
  | nil => exact ⟨h.outermost.bind name hvalue, nofun⟩
  | cons scope rest =>
    obtain ⟨hscope, hrest⟩ := List.forall_mem_cons.1 h.nested
    exact ⟨h.outermost, List.forall_mem_cons.2 ⟨hscope.bind name hvalue, hrest⟩⟩

theorem assign {name : String} {value : α} {after : Scopes α} (h : scopes.All P) (hvalue : P value)
    (hassign : scopes.assign? name value = some after) : after.All P := by
  obtain ⟨outermost, nested⟩ := scopes
  induction nested generalizing after with
  | nil =>
    rw [assign?_nil] at hassign
    cases hfind : outermost.find? name with
    | none => rw [hfind] at hassign; cases hassign
    | some old =>
      rw [hfind] at hassign
      cases hassign
      exact ⟨h.outermost.bind name hvalue, nofun⟩
  | cons scope rest ih =>
    rw [assign?_cons] at hassign
    obtain ⟨hscope, hrest⟩ := List.forall_mem_cons.1 h.nested
    cases hfind : scope.find? name with
    | some old =>
      rw [hfind] at hassign
      cases hassign
      exact ⟨h.outermost, List.forall_mem_cons.2 ⟨hscope.bind name hvalue, hrest⟩⟩
    | none =>
      rw [hfind] at hassign
      obtain ⟨inner, hinner, rfl⟩ := Option.map_eq_some_iff.1 hassign
      have hall := ih ⟨h.outermost, hrest⟩ hinner
      exact ⟨hall.outermost, List.forall_mem_cons.2 ⟨hscope, hall.nested⟩⟩

end All
end Scopes
end CatScript
