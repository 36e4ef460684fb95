import CatScript.Proofs.Evaluation.Runs
import CatScript.Proofs.Evaluation.Work
import CatScript.Proofs.Machine.Safety

/-! # Halting

A run of an accepted program ends in both engines (`Accepts.halts`): evaluation goes through no more
expressions than can be told from the program, and after some number of steps the machine stands
still. -/
set_option autoImplicit false
namespace CatScript

section Accepted
variable {source : String} {arena : Arena}

/-- The number of expressions that are evaluated in a run of an accepted program has a bound that
does not depend on the run, and the machine, which takes the program too, comes to an end. -/
theorem Accepts.halts (h : Accepts source arena) : ∃ p executable linked,
    arena.program? = .ok (some p) ∧ arena.compile = .ok executable ∧
      executable.link = .ok linked ∧ ∀ output,
        (Evaluation.observations .around p output).length ≤ p.work ∧
        ∃ steps, (Machine.run linked steps (Machine.start linked output)).Ended ∧
          ∀ fuel, steps ≤ fuel → Machine.run linked fuel (Machine.start linked output) =
            Machine.run linked steps (Machine.start linked output) := by
  obtain ⟨p, hprogram, hp, hcompile⟩ := h.wellTyped
  obtain ⟨executable, linked, hexecutable, hlinked, hruns⟩ := Simulation.program hp
  refine ⟨p, executable, linked, hprogram, hcompile.trans hexecutable, hlinked, fun output => ?_⟩
  refine ⟨(Work.program .around p ⟨.empty, output⟩ .empty).1, ?_⟩
  obtain ⟨steps, hended, -⟩ := Machine.ends_of_simulates (hruns output)
  exact ⟨steps, hended, fun fuel => (Machine.run_of_ended hended fuel).1⟩

/-- Two functions that call each other, from inside a loop. -/
theorem Accepts.halts_mutual : ∃ arena p executable linked,
    Accepts "function f(x: int) { for (i in [x, 1]) { g(i) } }
function g(x: int) { f(x) }
f(0)" arena ∧
      arena.program? = .ok (some p) ∧ arena.compile = .ok executable ∧
      executable.link = .ok linked ∧ ∀ output,
        (Evaluation.observations .around p output).length ≤ p.work ∧
        ∃ steps, (Machine.run linked steps (Machine.start linked output)).Ended ∧
          ∀ fuel, steps ≤ fuel → Machine.run linked fuel (Machine.start linked output) =
            Machine.run linked steps (Machine.start linked output) := by
  have haccepted : accepted "function f(x: int) { for (i in [x, 1]) { g(i) } }
function g(x: int) { f(x) }
f(0)" = true := by
    decide +kernel
  obtain ⟨arena, h⟩ := exists_accepts haccepted
  obtain ⟨p, executable, linked, hp, hcompile, hlink, hruns⟩ := Accepts.halts h
  exact ⟨arena, p, executable, linked, h, hp, hcompile, hlink, hruns⟩

end Accepted
end CatScript
