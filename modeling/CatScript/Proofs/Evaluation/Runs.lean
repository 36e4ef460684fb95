import CatScript.Proofs.Accepted
import CatScript.Proofs.Evaluation.Cover
import CatScript.Proofs.Evaluation.Soundness

/-! # Runs of accepted programs

Where the variables of loops have scopes of their own, an accepted program observes values of the
recorded types only (`Evaluation.own_sound`).  A run that misses no variable does not change when
loops declare their variables in the scope around them (`Evaluation.around_eq_own`), and then all
this holds of it as well (`Evaluation.around_sound`).

A function can be called before a variable that it uses is declared.  Then the variable is missing,
and the variable of a loop around the call can be found in its place: the last section has texts of
which this shows. -/
set_option autoImplicit false
namespace CatScript
namespace Evaluation

/-- What can be seen of a run: the printed text and how it has ended. -/
def ending : EStateM.Result EvalError Store Unit → String × Except EvalError Unit
  | .ok _ store => (store.output, .ok ())
  | .error cause store => (store.output, .error cause)

def run (rule : LoopRule) (p : Program Info) (output : String) :
    EStateM.Result EvalError Store Unit :=
  (program rule p : Eval Unit) ⟨.empty, output⟩

def watched (rule : LoopRule) (p : Program Info) (output : String) :
    EStateM.Result EvalError Store Unit × List Observation :=
  (program rule p : Watch Unit) ⟨.empty, output⟩

def observations (rule : LoopRule) (p : Program Info) (output : String) : List Observation :=
  (watched rule p output).2

/-- No variable is missing where loops keep their variables to themselves. -/
def NoneMissing (p : Program Info) (output : String) : Prop :=
  ∀ name, (ending (run .own p output)).2 ≠ .error (.undefinedVariable name)

theorem watched_eq (rule : LoopRule) (p : Program Info) (output : String) :
    watched rule p output = (run rule p output, observations rule p output) := by
  rw [run, ← Watch.erases_program]
  rfl

/-- How a run may end: well, or with an error that values of the right types can cause. -/
def Ends (complete : Prop) : EStateM.Result EvalError Store Unit → Prop
  | .ok _ _ => True
  | .error cause _ => cause.Expected complete

/-- Every observed value is one of the type recorded for its expression, and the run ends as values
of the right types make it end; unless the program is `complete`, it may miss a variable. -/
structure Sound (complete : Prop) (rule : LoopRule) (p : Program Info) (output : String) :
    Prop where
  observations : ∀ o ∈ observations rule p output, o.Sound
  ends : Ends complete (run rule p output)

variable {source : String} {arena : Arena} {p : Program Info} {output : String}

theorem own_sound_of_wellTyped (hp : Typing.WellTyped p) (output : String) :
    Sound False .own p output := by
  obtain ⟨types, hruns⟩ := Soundness.program hp
  have hstart : Lexical ⟨types, False⟩ [] Scopes.empty := ⟨nofun, False.elim, .nil⟩
  obtain ⟨hsound, houtcome⟩ := hruns False ⟨.empty, output⟩ hstart
  refine ⟨hsound, ?_⟩
  have houtcome : Watch.Outcome _ _ (watched .own p output).1 := houtcome
  rw [watched_eq] at houtcome
  cases hresult : run .own p output with
  | ok a after => trivial
  | error cause after =>
    rw [hresult] at houtcome
    exact houtcome.1

theorem around_eq_own_of_wellTyped (hp : Typing.WellTyped p) (h : NoneMissing p output) :
    observations .around p output = observations .own p output ∧
      ending (run .around p output) = ending (run .own p output) := by
  have hfollows := Covering.program hp .around [] output
  have hempty : (⟨⟨[], []⟩, output⟩ : Store) = ⟨.empty, output⟩ := rfl
  rw [hempty] at hfollows
  cases hfollows with
  | ok hown haround houtput _ | error hown haround houtput _ =>
    change watched .own p output = _ at hown
    change watched .around p output = _ at haround
    rw [watched_eq] at hown haround
    obtain ⟨hown, hseen⟩ := Prod.mk.inj hown
    obtain ⟨haround, hseen'⟩ := Prod.mk.inj haround
    refine ⟨hseen'.trans hseen.symm, ?_⟩
    rw [hown, haround]
    simp only [ending, houtput]
  | @missing name after seen hown =>
    change watched .own p output = _ at hown
    rw [watched_eq] at hown
    obtain ⟨hown, -⟩ := Prod.mk.inj hown
    exact absurd (by rw [hown]; rfl) (h name)

theorem ends_of_ending {complete : Prop} {r r' : EStateM.Result EvalError Store Unit}
    (h : ending r = ending r') (hends : Ends complete r') : Ends complete r := by
  cases r <;> cases r' <;> simp only [ending, Prod.mk.injEq] at h
  · trivial
  · cases h.2
  · cases h.2
  · cases h.2
    exact hends

theorem complete_of_noneMissing (h : NoneMissing p output) (hends : Ends False (run .own p output)) :
    Ends True (run .own p output) := by
  cases hrun : run .own p output with
  | ok a after => trivial
  | error cause after =>
    rw [hrun] at hends
    cases cause with
    | undefinedVariable name => exact absurd (by rw [hrun]; rfl) (h name)
    | _ => exact hends

section Checking

/-- The endings of a text under both rules, if it is accepted. -/
def endings? (source output : String) :
    Option ((String × Except EvalError Unit) × (String × Except EvalError Unit)) :=
  match Arena.analyze source with
  | .error _ => none
  | .ok arena =>
    match arena.diagnostics, arena.program? with
    | .ok [], .ok (some p) =>
      some (ending (run .around p output), ending (run .own p output))
    | _, _ => none

theorem exists_of_endings {around own : String × Except EvalError Unit}
    (h : endings? source output = some (around, own)) : ∃ arena p, Accepts source arena ∧
      arena.program? = .ok (some p) ∧ ending (run .around p output) = around ∧
      ending (run .own p output) = own := by
  unfold endings? at h
  split at h
  · cases h
  · next arena hanalyze =>
    split at h
    · next p hclean hp =>
      obtain ⟨haround, hown⟩ := Prod.mk.inj (Option.some.inj h)
      exact ⟨arena, p, ⟨hanalyze, hclean⟩, hp, haround, hown⟩
    · cases h

/-- A run that ends well misses no variable. -/
theorem noneMissing_of_ending {text : String} (h : ending (run .own p output) = (text, .ok ())) :
    NoneMissing p output := by
  intro name hname
  rw [h] at hname
  cases hname

end Checking

/-- With a scope for each loop, an accepted program is sound, but it may miss a variable. -/
theorem own_sound (h : Accepts source arena) (hp : arena.program? = .ok (some p))
    (output : String) : Sound False .own p output :=
  own_sound_of_wellTyped (h.program_wellTyped hp) output

/-- A run that misses no variable is the same when loops declare their variables in the scope around
them. -/
theorem around_eq_own (h : Accepts source arena) (hp : arena.program? = .ok (some p))
    (hfound : NoneMissing p output) : ending (run .around p output) = ending (run .own p output) :=
  (around_eq_own_of_wellTyped (h.program_wellTyped hp) hfound).2

/-- A function that is called in a loop, after the variable that it uses has been declared. -/
theorem around_eq_own_declared : ∃ arena p,
    Accepts "var x = 5\nfor (y in [1, 2]) { f() }\nfunction f() { print(x) }" arena ∧
      arena.program? = .ok (some p) ∧ NoneMissing p "" ∧
      ending (run .around p "") = ending (run .own p "") := by
  obtain ⟨arena, p, h, hp, -, hown⟩ := exists_of_endings (show endings?
    "var x = 5\nfor (y in [1, 2]) { f() }\nfunction f() { print(x) }" "" =
      some (("5\n5\n", .ok ()), ("5\n5\n", .ok ())) by decide +kernel)
  have hfound := noneMissing_of_ending hown
  exact ⟨arena, p, h, hp, hfound, around_eq_own h hp hfound⟩

/-- The variable of a loop is found in the place of one that is declared later: without it the run
misses a variable. -/
theorem leak_found : ∃ arena p,
    Accepts "for (x in [1, 2]) { f() }\nvar x = 5\nfunction f() { print(x) }" arena ∧
      arena.program? = .ok (some p) ∧ ending (run .around p "") = ("1\n2\n", .ok ()) ∧
      ending (run .own p "") = ("", .error (.undefinedVariable "x")) :=
  exists_of_endings (by decide +kernel)

/-- A run that misses no variable is sound, also where the variables of loops leak. -/
theorem around_sound (h : Accepts source arena) (hp : arena.program? = .ok (some p))
    (hfound : NoneMissing p output) : Sound True .around p output := by
  have hown := own_sound h hp output
  obtain ⟨hseen, hending⟩ := around_eq_own_of_wellTyped (h.program_wellTyped hp) hfound
  refine ⟨?_, ends_of_ending hending (complete_of_noneMissing hfound hown.ends)⟩
  rw [hseen]
  exact hown.observations

/-- A list of numbers that is printed item by item. -/
theorem around_sound_list : ∃ arena p,
    Accepts "var items = [1, 2]\nfor (x in items) { print(x + 1) }" arena ∧
      arena.program? = .ok (some p) ∧ NoneMissing p "" ∧ Sound True .around p "" := by
  obtain ⟨arena, p, h, hp, -, hown⟩ := exists_of_endings (show endings?
    "var items = [1, 2]\nfor (x in items) { print(x + 1) }" "" =
      some (("2\n3\n", .ok ()), ("2\n3\n", .ok ())) by decide +kernel)
  have hfound := noneMissing_of_ending hown
  exact ⟨arena, p, h, hp, hfound, around_sound h hp hfound⟩

/-- A string is found in the place of a number that is declared later, and the run ends as values
of the right types never make it end. -/
theorem leak_mistyped : ∃ arena p,
    Accepts "for (x in [\"a\"]) { f() }\nvar x = 5\nfunction f(): int { return x + 1 }" arena ∧
      arena.program? = .ok (some p) ∧
      ending (run .around p "") = ("", .error (.typeMismatch .integer .string)) ∧
      ¬Sound False .around p "" := by
  obtain ⟨arena, p, h, hp, haround, -⟩ := exists_of_endings (show endings?
    "for (x in [\"a\"]) { f() }\nvar x = 5\nfunction f(): int { return x + 1 }" "" =
      some (("", .error (.typeMismatch .integer .string)),
        ("", .error (.undefinedVariable "x"))) by decide +kernel)
  refine ⟨arena, p, h, hp, haround, fun hsound => ?_⟩
  have hends := hsound.ends
  cases hrun : run .around p "" with
  | ok a after =>
    rw [hrun] at haround
    cases (Prod.mk.inj haround).2
  | error cause after =>
    rw [hrun] at haround hends
    rw [Except.error.inj (Prod.mk.inj haround).2] at hends
    exact hends

end Evaluation
end CatScript
