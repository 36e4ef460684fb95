import CatScript.Machine.Link
import CatScript.Proofs.Code.Labels

/-! # Linking code

Code in which every label stands once and to which every jump leads back can be linked
(`Linkable.link`).  A jump then leads to the place of its label (`Resolves`).  The routines of a
program keep their names when they are sorted. -/
set_option autoImplicit false
namespace CatScript

/-- Every label stands in the code once, and the code jumps to no others. -/
structure Linkable (code : List Instruction) : Prop where
  distinct : (places code).Nodup
  closed : ∀ place ∈ targets code, place ∈ places code

def Resolves (linked : LinkedRoutine) : Prop :=
  ∀ label rest, (.label label :: rest) <:+ linked.code →
    linked.target? label = some (.label label :: rest)

theorem suffix_right {a b c : List Instruction} (h : a ++ b <:+ c) : b <:+ c :=
  (List.suffix_append a b).trans h

theorem suffix_tail {a c : List Instruction} {instruction : Instruction}
    (h : instruction :: a <:+ c) : a <:+ c :=
  (List.suffix_cons instruction a).trans h

structure Links (routine : Routine) (linked : LinkedRoutine) : Prop where
  params : linked.params = routine.params.length
  maxLocals : linked.maxLocals = routine.maxLocals
  code : linked.code = routine.code
  resolves : Resolves linked

namespace LinkedRoutine

theorem lookup_labelsOf_of_not_mem {label : Nat} {code : List Instruction}
    (found : List (Label × List Instruction)) (h : label ∉ places code) :
    (labelsOf found code).lookup label = found.lookup label := by
  induction code generalizing found with
  | nil => rfl
  | cons instruction rest ih =>
    rw [places_cons, List.mem_append, not_or] at h
    cases instruction with
    | label other =>
      have hne : label ≠ other := fun heq => h.1 (by simp [Instruction.place?, heq])
      rw [labelsOf, ih _ h.2, List.lookup_cons, beq_eq_false_iff_ne.2 hne]
    | _ => exact ih found h.2

/-- A label that stands once is found at its place. -/
theorem lookup_labelsOf {label : Nat} {before after : List Instruction}
    (found : List (Label × List Instruction))
    (h : (places (before ++ .label label :: after)).Nodup) :
    (labelsOf found (before ++ .label label :: after)).lookup label =
      some (.label label :: after) := by
  induction before generalizing found with
  | nil =>
    rw [List.nil_append, places_cons] at h
    have hnot : label ∉ places after := (List.nodup_cons.1 h).1
    rw [List.nil_append, labelsOf, lookup_labelsOf_of_not_mem _ hnot]
    exact List.lookup_cons_self
  | cons instruction rest ih =>
    rw [List.cons_append, places_cons] at h
    have hrest := (List.nodup_append.1 h).2.1
    cases instruction with
    | label other => exact ih _ hrest
    | _ => exact ih found hrest

end LinkedRoutine

theorem exists_of_mem_places {label : Nat} {code : List Instruction} (h : label ∈ places code) :
    ∃ before after, code = before ++ .label label :: after := by
  obtain ⟨instruction, hmem, hplace⟩ := List.mem_filterMap.1 h
  obtain ⟨before, after, rfl⟩ := List.append_of_mem hmem
  cases instruction with
  | label other => cases hplace; exact ⟨before, after, rfl⟩
  | _ => cases hplace

namespace Linkable
variable {code : List Instruction}

theorem of_labelled {first last : Nat} (h : Labelled first last code) : Linkable code :=
  ⟨h.distinct, h.closed⟩

theorem of_same {other : List Instruction} (h : Linkable code) (hplaces : places other = places code)
    (htargets : targets other = targets code) : Linkable other := by
  refine ⟨?_, ?_⟩
  · rw [hplaces]; exact h.distinct
  · rw [hplaces, htargets]; exact h.closed

theorem link {routine : Routine} (h : Linkable routine.code) :
    ∃ linked, LinkedRoutine.ofRoutine routine = .ok linked ∧ Links routine linked := by
  have hmissing : LinkedRoutine.missing? (LinkedRoutine.labelsOf [] routine.code) routine.code =
      none := by
    refine List.find?_eq_none.2 fun label hlabel => ?_
    obtain ⟨before, after, hcode⟩ := exists_of_mem_places (h.closed label hlabel)
    have hdistinct := h.distinct
    rw [hcode] at hdistinct ⊢
    rw [LinkedRoutine.lookup_labelsOf [] hdistinct]
    exact Bool.false_ne_true
  refine ⟨⟨routine.params.length, routine.maxLocals, routine.code,
    LinkedRoutine.labelsOf [] routine.code⟩, ?_, rfl, rfl, rfl, fun label rest hrest => ?_⟩
  · rw [LinkedRoutine.ofRoutine, hmissing]
  · obtain ⟨before, hcode⟩ := hrest
    have hdistinct := h.distinct
    change before ++ .label label :: rest = routine.code at hcode
    rw [← hcode] at hdistinct
    change (LinkedRoutine.labelsOf [] routine.code).lookup label = _
    rw [← hcode]
    exact LinkedRoutine.lookup_labelsOf [] hdistinct

end Linkable

section Sorting
variable {α : Type}

theorem insertByName_perm (entry : String × α) (rest : Scope α) :
    (insertByName entry rest).Perm (entry :: rest) := by
  induction rest with
  | nil => exact .refl _
  | cons other rest ih =>
    rw [insertByName]
    split
    · exact .refl _
    · exact (ih.cons other).trans (.swap entry other rest)

theorem sortByName_perm (scope : Scope α) : (sortByName scope).Perm scope := by
  induction scope with
  | nil => exact .refl _
  | cons entry rest ih => exact (insertByName_perm entry _).trans (ih.cons entry)

/-- A scope that binds every name once binds the same in any order. -/
theorem Scope.find?_perm {s t : Scope α} (h : s.Perm t) (hdistinct : (s.map Prod.fst).Nodup)
    (name : String) : s.find? name = t.find? name := by
  induction h with
  | nil => rfl
  | cons entry _ ih =>
    rw [Scope.find?_cons, Scope.find?_cons, ih (List.nodup_cons.1 hdistinct).2]
  | swap a b rest =>
    have hne : b.1 ≠ a.1 := fun heq => (List.nodup_cons.1 hdistinct).1
      (by rw [List.map_cons, heq]; exact List.mem_cons_self)
    simp only [Scope.find?_cons]
    by_cases ha : a.1 = name <;> by_cases hb : b.1 = name <;> simp_all
  | trans hst _ ihs iht =>
    exact (ihs hdistinct).trans (iht ((hst.map Prod.fst).nodup_iff.1 hdistinct))

end Sorting

theorem ofRoutines_ok {routines : Scope Routine}
    (h : ∀ entry ∈ routines, Linkable entry.2.code) :
    ∃ linked, LinkedRoutine.ofRoutines routines = .ok linked ∧
      Scope.Match Links routines linked := by
  induction routines with
  | nil => exact ⟨[], rfl, .nil⟩
  | cons entry rest ih =>
    obtain ⟨first, hfirst, hlinks⟩ := (h entry List.mem_cons_self).link
    obtain ⟨more, hmore, hmatch⟩ := ih fun other hother => h other (List.mem_cons_of_mem _ hother)
    refine ⟨(entry.1, first) :: more, ?_, fun name => ?_⟩
    · obtain ⟨name, routine⟩ := entry
      rw [LinkedRoutine.ofRoutines, hfirst, hmore]
      rfl
    · rw [Scope.find?_cons, Scope.find?_cons]
      split
      · exact .some hlinks
      · exact hmatch name

theorem link_ok {executable : Executable}
    (hdistinct : (executable.routines.map Prod.fst).Nodup)
    (hroutines : ∀ entry ∈ executable.routines, Linkable entry.2.code)
    (hmain : Linkable executable.main.code) :
    ∃ linked, executable.link = .ok linked ∧ linked.fields = executable.fields ∧
      Scope.Match Links executable.routines linked.routines ∧
      Links executable.main linked.main := by
  have hperm := sortByName_perm executable.routines
  obtain ⟨routines, hlinked, hmatch⟩ := ofRoutines_ok fun entry hentry =>
    hroutines entry (hperm.mem_iff.1 hentry)
  obtain ⟨main, hlink, hlinks⟩ := hmain.link
  refine ⟨⟨executable.fields, routines, main⟩, ?_, rfl, fun name => ?_, hlinks⟩
  · rw [Executable.link, hlinked, hlink]
    rfl
  · rw [Scope.find?_perm hperm.symm hdistinct name]
    exact hmatch name

end CatScript
