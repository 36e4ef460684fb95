import CatScript.Engine
import CatScript.Proofs.Evaluation.Runs
import CatScript.Proofs.Machine.Safety

/-! # Both engines on accepted programs

The machine does what evaluation does when loops keep their variables to themselves and top-level
variables have defaults.  So both engines agree on an accepted program that misses no variable
(`Engine.agree`).  They differ on one that uses a variable before it is declared: evaluation fails
there, and the machine goes on with the default of the field (`Engine.disagree_early_call`). -/
set_option autoImplicit false
namespace CatScript

/-- Both results are good, or both are errors of the same meaning. -/
def SameResult : Except EngineStop Unit → Except EngineStop Unit → Prop
  | .ok _, .ok _ => True
  | .error (.error (.evaluation cause)), .error (.error (.machine error)) => Corresponds cause error
  | _, _ => False

structure SameEnding (a b : Ending) : Prop where
  output : a.output = b.output
  result : SameResult a.result b.result

namespace Evaluation
variable {p : Program Info} {output : String}

/-- What is seen of a run that misses no variable is also seen where variables have values before
they are declared. -/
theorem ending_of_values (hp : Typing.WellTyped p) (h : NoneMissing p output)
    (values : Scope Value) :
    ending ((program .own p : Eval Unit) ⟨⟨values, []⟩, output⟩) = ending (run .own p output) := by
  have hfollows := Covering.program hp .own values output
  have herase : ∀ store,
      ((program .own p : Watch Unit) store).1 = (program .own p : Eval Unit) store :=
    fun store => congrFun (Watch.erases_program .own p) store
  cases hfollows with
  | ok hown hvalues houtput _ | error hown hvalues houtput _ =>
    have hown := congrArg Prod.fst hown
    have hvalues := congrArg Prod.fst hvalues
    rw [herase] at hown hvalues
    rw [run, hown, hvalues]
    simp only [ending, houtput]
  | @missing name after seen hown =>
    have hown := congrArg Prod.fst hown
    rw [herase] at hown
    exact absurd (by rw [run, hown]; rfl) (h name)

theorem preset_eq (p : Program Info) : preset p = ⟨(preset p).outermost, []⟩ := by
  cases p <;> rfl

theorem sameEnding_of_simulates {linked : LinkedProgram} {m : Eval Unit} {store other : Store}
    {m' : Eval Unit} (hending : ending (m' other) = ending (m store))
    (h : Machine.Simulates linked m store (.running (Machine.start linked output))
      (fun _ => Simulation.Succeeded) Simulation.Stopped) :
    ∃ fuel, ∀ patience, fuel ≤ patience → SameEnding
      (match m' other with
        | .ok _ store => ⟨store.output, .ok (), []⟩
        | .error cause store => ⟨store.output, .error (.error (.evaluation cause)), []⟩)
      (.ofStatus (Machine.run linked patience (Machine.start linked output))) := by
  unfold Machine.Simulates at h
  cases hm : m store with
  | ok a after =>
    rw [hm] at h hending
    obtain ⟨_, ⟨fuel, hrun⟩, last, rfl, hprinted⟩ := h
    have hrun : Machine.run linked fuel (Machine.start linked output) = .finished last := hrun
    refine ⟨fuel, fun patience hle => ?_⟩
    rw [(Machine.run_of_ended (hrun ▸ trivial) patience).1 hle, hrun]
    cases hm' : m' other with
    | ok a' after' =>
      rw [hm'] at hending
      exact ⟨(Prod.mk.inj hending).1.trans hprinted.symm, trivial⟩
    | error cause after' =>
      rw [hm'] at hending
      cases (Prod.mk.inj hending).2
  | error cause after =>
    rw [hm] at h hending
    obtain ⟨_, ⟨fuel, hrun⟩, error, last, rfl, hcause, hprinted⟩ := h
    have hrun : Machine.run linked fuel (Machine.start linked output) = .failed error last := hrun
    refine ⟨fuel, fun patience hle => ?_⟩
    rw [(Machine.run_of_ended (hrun ▸ trivial) patience).1 hle, hrun]
    cases hm' : m' other with
    | ok a' after' =>
      rw [hm'] at hending
      cases (Prod.mk.inj hending).2
    | error cause' after' =>
      rw [hm'] at hending
      obtain ⟨houtput, hsame⟩ := Prod.mk.inj hending
      rw [Except.error.inj hsame]
      exact ⟨houtput.trans hprinted.symm, hcause⟩

/-- The tree of a well-typed program that misses no variable and code that does what it does end in
the same way. -/
theorem sameEnding_of_noneMissing {linked : LinkedProgram} (hp : Typing.WellTyped p)
    (hfound : NoneMissing p output)
    (hruns : Machine.Simulates linked (program .own p) ⟨preset p, output⟩
      (.running (Machine.start linked output)) (fun _ => Simulation.Succeeded) Simulation.Stopped) :
    ∃ fuel, ∀ patience, fuel ≤ patience → SameEnding
      ((Prepared.tree (some p)).run patience output) ((Prepared.code linked).run patience output) := by
  have hvalues := ending_of_values hp hfound (preset p).outermost
  rw [← preset_eq] at hvalues
  have hsame : ending (run .around p output) = ending ((program .own p : Eval Unit) ⟨preset p, output⟩) :=
    (around_eq_own_of_wellTyped hp hfound).2.trans hvalues.symm
  exact sameEnding_of_simulates hsame hruns

end Evaluation

namespace Engine
open Evaluation
variable {source : String} {arena : Arena} {p : Program Info} {output : String}

/-- Both engines take an accepted program: one its tree, the other code that does what the tree
does. -/
theorem exists_prepared (h : Accepts source arena) (hp : arena.program? = .ok (some p)) :
    ∃ linked, prepare .interpreter arena = .ok (.tree (some p)) ∧
      prepare .vm arena = .ok (.code linked) ∧ ∀ output,
        Machine.Simulates linked (Evaluation.program .own p) ⟨preset p, output⟩
          (.running (Machine.start linked output)) (fun _ => Simulation.Succeeded)
          Simulation.Stopped := by
  obtain ⟨q, hq, hwell, hcompile⟩ := h.wellTyped
  cases hq.symm.trans hp
  obtain ⟨executable, linked, hexecutable, hlinked, hruns⟩ := Simulation.program hwell
  refine ⟨linked, ?_, ?_, hruns⟩
  · rw [prepare, hp]
  · rw [prepare, hcompile, hexecutable]
    show link executable = _
    rw [link, hlinked]

/-- Both engines take an accepted program, and on one that misses no variable they print the same
text and end in the same way. -/
theorem agree (h : Accepts source arena) (hp : arena.program? = .ok (some p))
    (hfound : NoneMissing p output) :
    ∃ tree code, prepare .interpreter arena = .ok tree ∧ prepare .vm arena = .ok code ∧
      ∃ fuel, ∀ patience, fuel ≤ patience →
        SameEnding (tree.run patience output) (code.run patience output) := by
  obtain ⟨linked, htree, hcode, hruns⟩ := exists_prepared h hp
  exact ⟨_, _, htree, hcode,
    sameEnding_of_noneMissing (h.program_wellTyped hp) hfound (hruns output)⟩

/-- What is seen of the runs of both engines on a text, if it is accepted. -/
def endings? (source : String) (patience : Nat) (output : String) :
    Option ((String × Except EngineStop Unit) × (String × Except EngineStop Unit)) :=
  match Arena.analyze source with
  | .error _ => none
  | .ok arena =>
    match arena.diagnostics, arena.program?, prepare .interpreter arena, prepare .vm arena with
    | .ok [], .ok (some _), .ok tree, .ok code =>
      let walked := tree.run patience output
      let executed := code.run patience output
      some ((walked.output, walked.result), (executed.output, executed.result))
    | _, _, _, _ => none

theorem exists_of_endings {patience : Nat} {walked executed : String × Except EngineStop Unit}
    (h : endings? source patience output = some (walked, executed)) :
    ∃ arena tree code, Accepts source arena ∧ prepare .interpreter arena = .ok tree ∧
      prepare .vm arena = .ok code ∧
      ((tree.run patience output).output, (tree.run patience output).result) = walked ∧
      ((code.run patience output).output, (code.run patience output).result) = executed := by
  unfold endings? at h
  split at h
  · cases h
  · next arena hanalyze =>
    split at h
    · next tree code hclean _ htree hcode =>
      obtain ⟨hwalked, hexecuted⟩ := Prod.mk.inj (Option.some.inj h)
      exact ⟨arena, tree, code, ⟨hanalyze, hclean⟩, htree, hcode, hwalked, hexecuted⟩
    · cases h

/-- A function that is called after the variable that it uses has been declared. -/
theorem agree_late_call : ∃ arena p,
    Accepts "var x = 5\nfunction f() { print(x) }\nf()" arena ∧ arena.program? = .ok (some p) ∧
      NoneMissing p "" ∧ ∃ tree code, prepare .interpreter arena = .ok tree ∧
        prepare .vm arena = .ok code ∧ ∃ fuel, ∀ patience, fuel ≤ patience →
          SameEnding (tree.run patience "") (code.run patience "") := by
  obtain ⟨arena, p, h, hp, -, hown⟩ := Evaluation.exists_of_endings (show Evaluation.endings?
    "var x = 5\nfunction f() { print(x) }\nf()" "" =
      some (("5\n", .ok ()), ("5\n", .ok ())) by decide +kernel)
  have hfound := noneMissing_of_ending hown
  exact ⟨arena, p, h, hp, hfound, agree h hp hfound⟩

/-- A function that is called before the variable that it uses has been declared: one engine misses
the variable, and the other one prints its default. -/
theorem disagree_early_call : ∃ arena tree code,
    Accepts "f()\nvar x = 5\nfunction f() { print(x) }" arena ∧
      prepare .interpreter arena = .ok tree ∧ prepare .vm arena = .ok code ∧
      ((tree.run 100 "").output, (tree.run 100 "").result) =
        ("", .error (.error (.evaluation (.undefinedVariable "x")))) ∧
      ((code.run 100 "").output, (code.run 100 "").result) = ("0\n", .ok ()) :=
  exists_of_endings (by decide +kernel)

end Engine
end CatScript
