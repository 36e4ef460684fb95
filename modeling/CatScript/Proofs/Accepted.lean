import CatScript.Arena.Compile
import CatScript.Proofs.Arena.Typed
import CatScript.Proofs.Typing.Acceptance

/-! # Accepted texts

A text is accepted if nothing is reported of its typed tree.  The program in the arena of an accepted
text is well typed, and its code is that of a program with nothing around it
(`Accepts.wellTyped`). -/
set_option autoImplicit false
namespace CatScript

/-- The text has a typed arena in which nothing is reported. -/
structure Accepts (source : String) (arena : Arena) : Prop where
  analyzed : Arena.analyze source = .ok arena
  clean : arena.diagnostics = .ok []

def accepted (source : String) : Bool :=
  match Arena.analyze source with
  | .error _ => false
  | .ok arena =>
    match arena.diagnostics with
    | .ok [] => true
    | _ => false

theorem exists_accepts {source : String} (h : accepted source = true) :
    ∃ arena, Accepts source arena := by
  unfold accepted at h
  split at h
  · cases h
  · next arena hanalyze =>
    refine ⟨arena, hanalyze, ?_⟩
    split at h
    · assumption
    · cases h

namespace Accepts
variable {source : String} {arena : Arena} (h : Accepts source arena)
include h

/-- An accepted text has a well typed program, which both engines take. -/
theorem wellTyped : ∃ p, arena.program? = .ok (some p) ∧ Typing.WellTyped p ∧
    arena.compile = Generation.program (.ok none) p := by
  obtain ⟨landed, hread, hholds, -⟩ := Arena.holds_ofProgram (Grammar.parse source)
  have hwhole : (landed.map Info.read).Whole Grammar.Reported := hread ▸ Grammar.whole_parse source
  have hwhole : landed.Whole fun info => Grammar.Reported info.read := landed.whole_of_map hwhole
  obtain ⟨q, hq, hholds⟩ := hholds.validate h.analyzed
  refine ⟨q, hholds.program?, Typing.program_wellTyped hwhole hq (hholds.clean h.clean), ?_⟩
  rw [Arena.compile, hholds.program?, hholds.root]
  dsimp only
  rw [hholds.returnTypeAround]

theorem program_wellTyped {p : Program Info} (hp : arena.program? = .ok (some p)) :
    Typing.WellTyped p := by
  obtain ⟨q, hq, hwell, -⟩ := h.wellTyped
  cases hq.symm.trans hp
  exact hwell

end Accepts
end CatScript
