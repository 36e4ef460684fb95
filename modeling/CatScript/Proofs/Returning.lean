import CatScript.Proofs.Machine.Safety
import CatScript.Proofs.Typing.Paths

/-! # Definite returns

The check for returns and the two engines agree on what it says: no path goes through a body that
passes it, no evaluation of such a body goes on after it, and the code of an accepted text, whose
functions have passed it, never runs out of instructions (`Typing.alwaysReturns_exact`). -/
set_option autoImplicit false
namespace CatScript

namespace Machine
variable {program : LinkedProgram} {configuration next : Configuration}

theorem code_ne_nil_of_safe (h : ∀ fuel, (run program fuel configuration).Safe) {fuel : Nat}
    (hrun : run program fuel configuration = .running next) : next.current.code ≠ [] := by
  intro hcode
  -- One more instruction would be missed as a return, and a safe run misses none.
  have hstep : run program 1 next = .failed .missingReturn next := by
    obtain ⟨⟨routine, code, stack, locals⟩, callers, shared, calls⟩ := next
    cases hcode
    rfl
  have hsafe := h (fuel + 1)
  rw [run_add, hrun] at hsafe
  change (run program 1 next).Safe at hsafe
  rw [hstep] at hsafe
  exact hsafe

/-- No run of the program comes to the end of the code of a routine, or misses the result of one. -/
def RunsInside (program : LinkedProgram) : Prop :=
  ∀ output fuel,
    (∀ next, run program fuel (start program output) = .running next → next.current.code ≠ []) ∧
      ∀ last, run program fuel (start program output) ≠ .failed .missingReturn last

theorem runsInside_of_simulates {m : String → Eval Unit} {store : String → Store}
    (h : ∀ output, Simulates program (m output) (store output) (.running (start program output))
      (fun _ => Simulation.Succeeded) Simulation.Stopped) : RunsInside program := by
  intro output fuel
  obtain ⟨_, hended, hsafe⟩ := ends_of_simulates (h output)
  have hsafe := safe_of_ended hended hsafe
  refine ⟨fun next hrun => code_ne_nil_of_safe hsafe hrun, fun last hrun => ?_⟩
  have hfailed := hsafe fuel
  rw [hrun] at hfailed
  exact hfailed

end Machine

namespace Typing

/-- The check for returns is exact, and both engines can rely on it: a body that passes it is never
carried out to its end, and the code of an accepted text has a next instruction at every point. -/
theorem alwaysReturns_exact :
    (∀ body : List (Stmt Info), alwaysReturns body = true ↔ ¬Stmt.Paths body .through) ∧
    (∀ body : List (Stmt Info), alwaysReturns body = true →
      ∀ functions (invoke : Invoke Eval) rule store after,
        Evaluation.statements functions invoke rule body store ≠ .ok .normal after) ∧
    ∀ source arena, Accepts source arena → ∃ executable linked,
      arena.compile = .ok executable ∧ executable.link = .ok linked ∧
        Machine.RunsInside linked := by
  refine ⟨alwaysReturns_iff, fun body hbody functions invoke rule store after hrun => ?_,
    fun source arena haccepts => ?_⟩
  · have hpath := Evaluation.statements_path functions invoke rule body store .normal after hrun
    exact (alwaysReturns_iff body).1 hbody hpath
  · obtain ⟨p, -, hp, hcompile⟩ := haccepts.wellTyped
    obtain ⟨executable, linked, hexecutable, hlinked, hruns⟩ := Simulation.program hp
    exact ⟨executable, linked, hcompile.trans hexecutable, hlinked,
      Machine.runsInside_of_simulates hruns⟩

/-- An `if` of which both branches return, and a text with such a function, whose loop may return as
well. -/
theorem alwaysReturns_exact_branches : ∃ info body arena executable linked,
    body = [.ifThenElse info (.boolean info true) [.returning info none] [.returning info none]] ∧
      (alwaysReturns body = true ∧ ¬Stmt.Paths body .through) ∧
      (∀ functions (invoke : Invoke Eval) rule store after,
        Evaluation.statements functions invoke rule body store ≠ .ok .normal after) ∧
      Accepts "function f(x: int): int { for (i in [x]) { if (i > 5) { return i } }
if (x > 0) { return 1 } else { return 2 } }
print(f(1))" arena ∧
      arena.compile = .ok executable ∧ executable.link = .ok linked ∧
      Machine.RunsInside linked := by
  obtain ⟨hexact, hevaluated, hcode⟩ := alwaysReturns_exact
  have haccepted : accepted "function f(x: int): int { for (i in [x]) { if (i > 5) { return i } }
if (x > 0) { return 1 } else { return 2 } }
print(f(1))" = true := by
    decide +kernel
  obtain ⟨arena, haccepts⟩ := exists_accepts haccepted
  obtain ⟨executable, linked, hcompile, hlink, hinside⟩ := hcode _ arena haccepts
  let info : Info := ⟨0, default, [], none⟩
  exact ⟨info, _, arena, executable, linked, rfl, ⟨rfl, (hexact _).1 rfl⟩, hevaluated _ rfl,
    haccepts, hcompile, hlink, hinside⟩

end Typing
end CatScript
