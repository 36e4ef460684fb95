import CatScript.Proofs.Accepted
import CatScript.Proofs.Machine.Programs

/-! # Safety of accepted code

The code of an accepted text can be generated and linked, every run of it ends, and it ends well or
with one of three errors (`Machine.code_safe`): operands are always of the kinds that instructions
ask for, and slots, fields, labels and routines are always there. -/
set_option autoImplicit false
namespace CatScript

/-- The errors that programs of the right types can run into. -/
def MachineError.Expected : MachineError → Prop
  | .divisionByZero | .nullReference | .callDepthExceeded _ => True
  | _ => False

theorem Corresponds.expected {cause : EvalError} {error : MachineError}
    (h : Corresponds cause error) : error.Expected := by
  cases h <;> trivial

namespace Status

def Ended : Status → Prop
  | .running _ => False
  | .finished _ | .failed .. => True

/-- The run has not failed, or it has failed with an expected error. -/
def Safe : Status → Prop
  | .running _ | .finished _ => True
  | .failed error _ => error.Expected

end Status

namespace Machine
variable {program : LinkedProgram} {configuration : Configuration}

/-- Once a run is over, following it for longer changes nothing, and before that it is running. -/
theorem run_of_ended {fuel : Nat} (h : (run program fuel configuration).Ended) (other : Nat) :
    (fuel ≤ other → run program other configuration = run program fuel configuration) ∧
      ((run program other configuration).Ended →
        run program other configuration = run program fuel configuration) := by
  rcases Nat.le_total fuel other with hle | hle
  · obtain ⟨more, rfl⟩ := Nat.exists_eq_add_of_le hle
    have hlonger : run program (fuel + more) configuration = run program fuel configuration := by
      rw [run_add]
      cases hrun : run program fuel configuration with
      | running next => rw [hrun] at h; exact h.elim
      | _ => rfl
    exact ⟨fun _ => hlonger, fun _ => hlonger⟩
  · obtain ⟨more, rfl⟩ := Nat.exists_eq_add_of_le hle
    have hshorter : (run program other configuration).Ended →
        run program other configuration = run program (other + more) configuration := by
      intro hended
      rw [run_add]
      cases hrun : run program other configuration with
      | running next => rw [hrun] at hended; exact hended.elim
      | _ => rfl
    refine ⟨fun hle' => ?_, hshorter⟩
    have hmore : more = 0 := by omega
    rw [hmore, Nat.add_zero]

/-- A run that ends safely is safe at every point. -/
theorem safe_of_ended {fuel : Nat} (h : (run program fuel configuration).Ended)
    (hsafe : (run program fuel configuration).Safe) (other : Nat) :
    (run program other configuration).Safe := by
  by_cases hended : (run program other configuration).Ended
  · rw [(run_of_ended h other).2 hended]
    exact hsafe
  · cases hrun : run program other configuration with
    | running next => trivial
    | _ => rw [hrun] at hended; exact absurd trivial hended

theorem ends_of_simulates {m : Eval Unit} {store : Store}
    (h : Simulates program m store (.running configuration) (fun _ => Simulation.Succeeded)
      Simulation.Stopped) :
    ∃ fuel, (run program fuel configuration).Ended ∧ (run program fuel configuration).Safe := by
  unfold Simulates at h
  split at h
  · obtain ⟨_, ⟨fuel, hrun⟩, last, rfl, -⟩ := h
    have hrun : run program fuel configuration = .finished last := hrun
    exact ⟨fuel, hrun ▸ trivial, hrun ▸ trivial⟩
  · obtain ⟨_, ⟨fuel, hrun⟩, error, last, rfl, hcause, -⟩ := h
    have hrun : run program fuel configuration = .failed error last := hrun
    exact ⟨fuel, hrun ▸ trivial, hrun ▸ hcause.expected⟩

end Machine

section Accepted
variable {source : String} {arena : Arena}

/-- The code of an accepted text can be generated and linked.  At no point of a run has it failed
with anything but an expected error, and the run ends. -/
theorem Machine.code_safe (h : Accepts source arena) :
    ∃ executable linked, arena.compile = .ok executable ∧ executable.link = .ok linked ∧
      ∀ output, (∀ fuel, (run linked fuel (start linked output)).Safe) ∧
        ∃ fuel, (run linked fuel (start linked output)).Ended := by
  obtain ⟨p, -, hp, hcompile⟩ := h.wellTyped
  obtain ⟨executable, linked, hexecutable, hlinked, hruns⟩ := Simulation.program hp
  refine ⟨executable, linked, hcompile.trans hexecutable, hlinked, fun output => ?_⟩
  obtain ⟨fuel, hended, hsafe⟩ := ends_of_simulates (hruns output)
  exact ⟨safe_of_ended hended hsafe, fuel, hended⟩

/-- A text with a loop, a list and a call. -/
theorem Machine.code_safe_loop : ∃ arena executable linked,
    Accepts "function f(x: int) { print(x) }
for (i in [1, 2]) { f(i) }" arena ∧
      arena.compile = .ok executable ∧ executable.link = .ok linked ∧
      ∀ output, (∀ fuel, (run linked fuel (start linked output)).Safe) ∧
        ∃ fuel, (run linked fuel (start linked output)).Ended := by
  have haccepted : accepted "function f(x: int) { print(x) }
for (i in [1, 2]) { f(i) }" = true := by
    decide +kernel
  obtain ⟨arena, h⟩ := exists_accepts haccepted
  obtain ⟨executable, linked, hcompile, hlink, hruns⟩ := Machine.code_safe h
  exact ⟨arena, executable, linked, h, hcompile, hlink, hruns⟩

end Accepted
end CatScript
