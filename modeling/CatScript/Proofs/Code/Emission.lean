import CatScript.Proofs.Code.Arrivals
import CatScript.Proofs.Code.References

/-! # The code of every statement

Where a well-typed program has code, generating it comes to every statement, and the code that is
generated there is a part of that of the main routine or of the routine of a function
(`Generation.exists_arrives`).  Functions stand outside of all others, so none is left out. -/
set_option autoImplicit false
namespace CatScript

/-- The instructions stand in one of the routines of the executable, one after the other. -/
def Executable.Emits (executable : Executable) (part : List Instruction) : Prop :=
  part <:+: executable.main.code ∨ ∃ entry ∈ executable.routines, part <:+: entry.2.code

theorem Program.Stands.outermost {p : Program Info} {spot : Spot} {s : Stmt Info}
    (h : p.Stands spot s) (houtermost : spot.dropLast = []) :
    ∃ mark before after, p = .statements mark (before ++ s :: after) ∧ spot = [⟨[], before⟩] := by
  cases h with
  | top hp => exact ⟨_, _, _, hp, rfl⟩
  | @inside outer _ _ bound before after houter _ =>
    cases houter <;> cases houtermost

theorem Executable.Emits.part {executable : Executable} {part code : List Instruction}
    (h : executable.Emits code) (hpart : part <:+: code) : executable.Emits part := by
  refine h.imp hpart.trans fun ⟨entry, hentry, hcode⟩ => ?_
  exact ⟨entry, hentry, hpart.trans hcode⟩

namespace Generation
open Typing

section Parts
variable {globals : Globals} {around : Surroundings} {frame next : Frame} {s : Stmt Info}
  {code : List Instruction}

theorem statements_split {before later : List (Stmt Info)} : {frame : Frame} →
    {code : List Instruction} →
    statements globals around (before ++ s :: later) frame = .ok (code, next) →
    ∃ earlier middle part after, statements globals around before frame = .ok (earlier, middle) ∧
      statement globals around s middle = .ok (part, after) ∧ part <:+: code := by
  induction before with
  | nil =>
    intro frame code h
    cases statements_code h with
    | @cons _ _ part more _ after _ hpart =>
      exact ⟨[], frame, part, after, StatementsCode.nil.ok, hpart,
        (List.prefix_append part more).isInfix⟩
  | cons first before ih =>
    intro frame code h
    cases statements_code h with
    | @cons _ _ head more _ _ _ hhead hmore =>
      obtain ⟨earlier, middle, part, after, hearlier, hpart, hinfix⟩ := ih hmore
      exact ⟨head ++ earlier, middle, part, after, (StatementsCode.cons hhead hearlier).ok, hpart,
        hinfix.trans (List.suffix_append head more).isInfix⟩

theorem infix_iteration (slot : Slot) (start done : Label) (body : List Instruction) :
    body <:+: iteration slot start done body :=
  ⟨_, _, rfl⟩

/-- The code of a statement has that of each of its blocks; a function has none where it stands. -/
theorem exists_opens (h : statement globals around s frame = .ok (code, next))
    (hkind : ∀ info name params returns body, s ≠ .function info name params returns body)
    {block : List (String × Option Ty) × List (Stmt Info)} (hblock : block ∈ s.blocks) :
    ∃ inside start part last, Opens globals around frame s block.1 block.2 inside start ∧
      statements globals inside block.2 start = .ok (part, last) ∧ part <:+: code := by
  cases statement_code h with
  | function => exact absurd rfl (hkind _ _ _ _ _)
  | @ifThen _ _ _ test thenCode _ last _ htest hthen =>
    cases List.mem_singleton.1 hblock
    refine ⟨_, _, thenCode, last, .ifThen htest, hthen, ?_⟩
    exact ⟨test ++ [.jumpIfZero frame.label], _, by simp; rfl⟩
  | @ifThenElse _ _ _ _ test thenCode elseCode _ middle last _ htest hthen helse =>
    rcases List.mem_cons.1 hblock with rfl | hblock
    · refine ⟨_, _, thenCode, middle, .thenBody htest, hthen, ?_⟩
      exact ⟨test ++ [.jumpIfZero frame.label], _, by simp; rfl⟩
    · cases List.mem_singleton.1 hblock
      refine ⟨_, _, elseCode, last, .elseBody htest hthen, helse, ?_⟩
      exact ⟨_, [.label (frame.label + 1)], rfl⟩
  | @loop _ _ _ _ ty _ inner _ last _ hinfo hitems hinner =>
    cases List.mem_singleton.1 hblock
    refine ⟨_, _, inner, last, .loop hinfo hitems, hinner, ?_⟩
    have hitem : inner <:+ coerce .object ty ++ store ⟨frame.slot + 1, ty⟩ :: inner :=
      (List.suffix_cons _ inner).trans (List.suffix_append _ _)
    exact (hitem.isInfix.trans (infix_iteration _ _ _ _)).trans (List.suffix_append _ _).isInfix
  | _ => cases hblock

theorem ok_of_routine {params : List Parameter} {returns : Ty} {body : List (Stmt Info)}
    {compiled : Routine} (h : routine globals params returns body = .ok compiled) :
    ∃ start code last, declareParameters params Frame.initial = .ok ((), start) ∧
      statements globals (.ofFunction returns) body { start with locals := start.locals.push } =
        .ok (code, last) ∧ code <:+: compiled.code := by
  rw [routine] at h
  obtain ⟨⟨code, frame⟩, hcode, h⟩ := Except.bind_ok h
  obtain ⟨_, start, hstart, hcode⟩ := ok_of_bind hcode
  obtain ⟨last, hcode, rfl⟩ := ok_of_inScope hcode
  cases h
  refine ⟨start, code, last, hstart, hcode, ?_⟩
  by_cases hvoid : returns = .void
  · simp only [if_pos hvoid]
    exact (List.prefix_append _ _).isInfix
  · simp only [if_neg hvoid]
    exact List.infix_rfl

/-- Where no two functions have one name, each of them has its routine. -/
theorem mem_of_routines {body : List (Stmt Info)} {found compiled : Scope Routine}
    (h : routines globals found body = .ok compiled)
    (hnames : (found.map Prod.fst ++ functionNames body).Nodup) :
    (∀ entry ∈ found, entry ∈ compiled) ∧ ∀ info name params returns inner,
      .function info name params returns inner ∈ body →
        ∃ code, routine globals params returns inner = .ok code ∧ (name, code) ∈ compiled := by
  induction body generalizing found with
  | nil =>
    cases h
    exact ⟨fun _ => id, fun _ _ _ _ _ hmem => absurd hmem List.not_mem_nil⟩
  | cons s rest ih =>
    rw [functionNames_cons] at hnames
    cases s with
    | function info name params returns inner =>
      rw [routines] at h
      obtain ⟨code, hcode, h⟩ := Except.bind_ok h
      obtain ⟨hfresh, hnames⟩ := names_bind hnames code
      obtain ⟨hfound, hrest⟩ := ih h hnames
      rw [Scope.bind_eq_append hfresh] at hfound
      refine ⟨fun entry hentry => hfound _ (List.mem_append_left _ hentry), ?_⟩
      intro _ _ _ _ _ hmem
      rcases List.mem_cons.1 hmem with heq | hmem
      · cases heq
        exact ⟨code, hcode, hfound _ (List.mem_append_right _ List.mem_cons_self)⟩
      · exact hrest _ _ _ _ _ hmem
    | _ =>
      obtain ⟨hfound, hrest⟩ := ih h hnames
      refine ⟨hfound, fun info name params returns inner hmem => ?_⟩
      rcases List.mem_cons.1 hmem with heq | hmem
      · cases heq
      · exact hrest info name params returns inner hmem

theorem ok_of_program {mark : Info} {body : List (Stmt Info)} {executable : Executable}
    (h : program (.ok none) (.statements mark body) = .ok executable)
    (hglobals : globalsOf (.statements mark body) = .ok globals) :
    routines globals [] body = .ok executable.routines ∧ ∃ code last,
      statements globals (.ofProgram (.ok none)) body Frame.initial = .ok (code, last) ∧
        executable.main = mainRoutine code last.slot := by
  rw [program] at h
  rw [globalsOf] at hglobals
  obtain ⟨declared, hdeclared, h⟩ := Except.bind_ok h
  rw [hdeclared] at hglobals
  cases hglobals
  obtain ⟨compiled, hcompiled, h⟩ := Except.bind_ok h
  obtain ⟨⟨code, last⟩, hcode, h⟩ := Except.bind_ok h
  cases h
  exact ⟨hcompiled, code, last, hcode, rfl⟩

end Parts

variable {globals : Globals} {p : Program Info} {executable : Executable}

/-- Generating code comes to functions in the outermost list alone: there is no nested scope in the
frame at a function. -/
theorem Arrives.outermost (hwell : WellTyped p) (hdistinct : p.Distinct)
    (hglobals : globalsOf p = .ok globals) {spot : Spot} {around : Surroundings} {frame : Frame}
    {info : Info} {name : String} {params : List Parameter} {returns : Ty}
    {body : List (Stmt Info)}
    (h : Arrives globals p spot around frame (.function info name params returns body)) :
    ∃ mark before after,
      p = .statements mark (before ++ .function info name params returns body :: after) ∧
        spot = [⟨[], before⟩] := by
  obtain ⟨_, _, _, hsituated, hchecks, -⟩ := h.situated hwell hdistinct hglobals
  cases hchecks with
  | function hnested _ _ _ => exact h.stands.outermost (hsituated.nests.base.1 hnested)

/-- Generating the code of a well-typed program comes to every statement, and puts the code of the
statement into the executable. -/
theorem exists_arrives (hwell : WellTyped p) (hdistinct : p.Distinct)
    (hglobals : globalsOf p = .ok globals) (h : program (.ok none) p = .ok executable) {spot : Spot}
    {s : Stmt Info} (hs : p.Stands spot s) :
    ∃ around frame code next, Arrives globals p spot around frame s ∧
      statement globals around s frame = .ok (code, next) ∧ executable.Emits code := by
  induction hs with
  | @top mark before after s hp =>
    cases hp
    obtain ⟨-, code, last, hcode, hmain⟩ := ok_of_program h hglobals
    obtain ⟨earlier, middle, part, next, hearlier, hpart, hinfix⟩ := statements_split hcode
    refine ⟨_, middle, part, next, .main rfl hearlier, hpart, .inl ?_⟩
    rw [hmain]
    exact hinfix.trans (List.prefix_append _ _).isInfix
  | @inside spot outer s bound before after houter hblock ih =>
    obtain ⟨around, frame, code, next, harrives, hcode, hemits⟩ := ih
    by_cases hkind : ∀ info name params returns body, outer ≠ .function info name params returns body
    · obtain ⟨inside, start, part, last, hopens, hpart, hinfix⟩ := exists_opens hcode hkind hblock
      obtain ⟨earlier, middle, own, final, hearlier, hown, hinner⟩ := statements_split hpart
      exact ⟨inside, middle, own, final, .inside harrives hopens hearlier, hown,
        hemits.part (hinner.trans hinfix)⟩
    · obtain ⟨info, name, params, returns, body, rfl⟩ : ∃ info name params returns body,
          outer = .function info name params returns body := by
        simpa using hkind
      cases List.mem_singleton.1 hblock
      obtain ⟨mark, earlier, later, rfl, rfl⟩ := harrives.outermost hwell hdistinct hglobals
      cases hwell with
      | statements hnames _ =>
        obtain ⟨hcompiled, -⟩ := ok_of_program h hglobals
        obtain ⟨routine, hroutine, hmem⟩ := (mem_of_routines hcompiled hnames).2 info name params
          returns _ (List.mem_append_right _ List.mem_cons_self)
        obtain ⟨start, bodyCode, final, hstart, hbody, hinfix⟩ := ok_of_routine hroutine
        obtain ⟨code, middle, part, next, hbefore, hpart, hinner⟩ := statements_split hbody
        exact ⟨_, middle, part, next, .routine rfl hstart hbefore, hpart,
          .inr ⟨_, hmem, hinner.trans hinfix⟩⟩

end Generation
end CatScript
