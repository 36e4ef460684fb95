import CatScript.Proofs.Engines

/-! # Failures of both engines

Where both engines fail on an accepted program that misses no variable, they give the same reason,
unless a loop goes over `null` (`Engine.fail_alike`): evaluation then names what it cannot iterate
over, and the machine only says that a reference is null.  Where a variable is missing, the machine
goes on, and may fail later and for another reason (`Engine.fail_apart`). -/
set_option autoImplicit false
namespace CatScript

/-- Corresponding errors have the same message, unless they come of a loop over `null`: in the
machine that is a use of `null` like any other. -/
theorem Corresponds.alike {cause : EvalError} {error : MachineError} (h : Corresponds cause error) :
    (cause ≠ .notIterable .null → cause.message = error.message) ∧
      (cause = .notIterable .null → error = .nullReference) := by
  cases h with
  | notIterable => exact ⟨fun hne => absurd rfl hne, fun _ => rfl⟩
  | _ => exact ⟨fun _ => rfl, nofun⟩

def Ending.failure? (ending : Ending) : Option EngineError :=
  match ending.result with
  | .error (.error cause) => some cause
  | _ => none

theorem Ending.failure?_of_result {ending : Ending} {cause : EngineError}
    (h : ending.result = .error (.error cause)) : ending.failure? = some cause := by
  rw [failure?, h]

namespace SameResult

/-- Where both runs fail, evaluation and the machine have failed with corresponding errors. -/
theorem corresponds {walked executed : Ending} {cause error : EngineError}
    (h : SameResult walked.result executed.result) (hwalked : walked.failure? = some cause)
    (hexecuted : executed.failure? = some error) :
    ∃ reason failure, cause = .evaluation reason ∧ error = .machine failure ∧
      Corresponds reason failure := by
  unfold Ending.failure? at hwalked hexecuted
  split at hwalked
  · next walkedStop =>
    split at hexecuted
    · next executedStop =>
      cases hwalked
      cases hexecuted
      rw [walkedStop, executedStop] at h
      unfold SameResult at h
      split at h
      · next heq _ => cases heq
      · next reason failure heq heq' =>
        cases heq
        cases heq'
        exact ⟨reason, failure, rfl, rfl, h⟩
      · exact h.elim
    · cases hexecuted
  · cases hwalked

end SameResult

namespace Prepared
variable {prepared : Prepared} {patience : Nat} {output : String}

theorem run_of_failure {error : EngineError}
    (h : (prepared.run patience output).failure? = some error) {more : Nat}
    (hle : patience ≤ more) : prepared.run more output = prepared.run patience output := by
  cases prepared with
  | tree program => rfl
  | code program =>
    have hended : (Machine.run program patience (Machine.start program output)).Ended := by
      rw [run] at h
      cases hrun : Machine.run program patience (Machine.start program output) with
      | running last => rw [hrun] at h; cases h
      | finished last => trivial
      | failed cause last => trivial
    rw [run, run, (Machine.run_of_ended hended more).1 hle]

end Prepared

namespace Engine
open Evaluation
variable {source : String} {arena : Arena} {p : Program Info} {output : String}
  {tree code : Prepared} {patience : Nat} {cause error : EngineError}

theorem sameEnding_of_prepared (h : Accepts source arena) (hp : arena.program? = .ok (some p))
    (hfound : NoneMissing p output) (htree : prepare .interpreter arena = .ok tree)
    (hcode : prepare .vm arena = .ok code) : ∃ fuel, ∀ patience, fuel ≤ patience →
      SameEnding (tree.run patience output) (code.run patience output) := by
  obtain ⟨linked, hsameTree, hsameCode, hruns⟩ := exists_prepared h hp
  cases htree.symm.trans hsameTree
  cases hcode.symm.trans hsameCode
  exact sameEnding_of_noneMissing (h.program_wellTyped hp) hfound (hruns output)

/-- On an accepted program that misses no variable, two runs that fail have the same message, unless
evaluation fails at a loop over `null`: the machine then reports a null reference. -/
theorem fail_alike (h : Accepts source arena) (hp : arena.program? = .ok (some p))
    (hfound : NoneMissing p output) (htree : prepare .interpreter arena = .ok tree)
    (hcode : prepare .vm arena = .ok code)
    (hwalked : (tree.run patience output).failure? = some cause)
    (hexecuted : (code.run patience output).failure? = some error) :
    (cause ≠ .evaluation (.notIterable .null) → cause.message = error.message) ∧
      (cause = .evaluation (.notIterable .null) → error = .machine .nullReference) := by
  obtain ⟨fuel, hsame⟩ := sameEnding_of_prepared h hp hfound htree hcode
  -- Both runs have failed already, so they fail alike with all the patience that the machine needs.
  have hresult := (hsame (max fuel patience) (Nat.le_max_left fuel patience)).result
  rw [Prepared.run_of_failure hwalked (Nat.le_max_right fuel patience),
    Prepared.run_of_failure hexecuted (Nat.le_max_right fuel patience)] at hresult
  obtain ⟨reason, failure, rfl, rfl, hcorresponds⟩ := hresult.corresponds hwalked hexecuted
  obtain ⟨hmessage, hnull⟩ := hcorresponds.alike
  constructor
  · intro hne
    exact hmessage fun heq => hne (congrArg EngineError.evaluation heq)
  · intro heq
    exact congrArg EngineError.machine (hnull (EngineError.evaluation.inj heq))

/-- A division by zero in a function that a loop calls. -/
theorem fail_alike_division : ∃ arena p tree code,
    Accepts "function f(x: int): int { return 10 / x }\nfor (i in [1, 0]) { print(f(i)) }" arena ∧
      arena.program? = .ok (some p) ∧ NoneMissing p "" ∧ prepare .interpreter arena = .ok tree ∧
      prepare .vm arena = .ok code ∧
      (tree.run 1000 "").failure? = some (.evaluation .divisionByZero) ∧
      (code.run 1000 "").failure? = some (.machine .divisionByZero) ∧
      (EngineError.evaluation .divisionByZero).message =
        (EngineError.machine .divisionByZero).message := by
  obtain ⟨arena, p, h, hp, -, hown⟩ := Evaluation.exists_of_endings (show Evaluation.endings?
    "function f(x: int): int { return 10 / x }\nfor (i in [1, 0]) { print(f(i)) }" "" =
      some (("10\n", .error .divisionByZero), ("10\n", .error .divisionByZero)) by decide +kernel)
  obtain ⟨same, tree, code, hsame, htree, hcode, hwalked, hexecuted⟩ := exists_of_endings
    (show endings? "function f(x: int): int { return 10 / x }\nfor (i in [1, 0]) { print(f(i)) }"
      1000 "" = some (("10\n", .error (.error (.evaluation .divisionByZero))),
        ("10\n", .error (.error (.machine .divisionByZero)))) by decide +kernel)
  cases h.analyzed.symm.trans hsame.analyzed
  have hfound : NoneMissing p "" := fun name hname => by
    rw [hown] at hname
    cases hname
  have hwalked := Ending.failure?_of_result (Prod.mk.inj hwalked).2
  have hexecuted := Ending.failure?_of_result (Prod.mk.inj hexecuted).2
  have halike := fail_alike h hp hfound htree hcode hwalked hexecuted
  exact ⟨arena, p, tree, code, h, hp, hfound, htree, hcode, hwalked, hexecuted,
    halike.1 (by decide)⟩

/-- The text is accepted, and both engines fail on it, evaluation with the first message and the
machine with the second. -/
def FailApart (source walked executed : String) : Prop :=
  ∃ arena tree code cause error, Accepts source arena ∧ prepare .interpreter arena = .ok tree ∧
    prepare .vm arena = .ok code ∧ (tree.run 100 "").failure? = some cause ∧
    (code.run 100 "").failure? = some error ∧ cause.message = walked ∧ error.message = executed

theorem failApart_of_endings {walkedText executedText : String} {cause error : EngineError}
    (h : endings? source 100 "" =
      some ((walkedText, .error (.error cause)), (executedText, .error (.error error)))) :
    FailApart source cause.message error.message := by
  obtain ⟨arena, tree, code, haccepts, htree, hcode, hwalked, hexecuted⟩ := exists_of_endings h
  exact ⟨arena, tree, code, cause, error, haccepts, htree, hcode,
    Ending.failure?_of_result (Prod.mk.inj hwalked).2,
    Ending.failure?_of_result (Prod.mk.inj hexecuted).2, rfl, rfl⟩

/-- A loop over a list that is `null`, and a function that misses a variable and would then divide
by zero. -/
theorem fail_apart :
    FailApart "var items: list<int> = null\nfor (item in items) { print(item) }"
      "Cannot iterate over null" "Null reference" ∧
    FailApart "f()\nvar x = 5\nfunction f() { print(x) print(1 / 0) }"
      "Undefined variable 'x'" "Division by zero" := by
  constructor
  · exact failApart_of_endings (show endings?
      "var items: list<int> = null\nfor (item in items) { print(item) }" 100 "" =
        some (("", .error (.error (.evaluation (.notIterable .null)))),
          ("", .error (.error (.machine .nullReference)))) by decide +kernel)
  · exact failApart_of_endings (show endings?
      "f()\nvar x = 5\nfunction f() { print(x) print(1 / 0) }" 100 "" =
        some (("", .error (.error (.evaluation (.undefinedVariable "x")))),
          ("0\n", .error (.error (.machine .divisionByZero)))) by decide +kernel)

end Engine
end CatScript
