import CatScript.Proofs.Grammar.Printing.Words
import CatScript.Proofs.Grammar.Written.Program

/-! # What call statements are made of

A reader takes a name that no `=` follows for a call, so in the tree of a text without a report every
call statement is one of a call, and not of any other expression (`Grammar.parse_callsMade`).  That
is a matter of the shape of a tree, whatever is at its marks. -/
set_option autoImplicit false
namespace CatScript

variable {α β : Type}

mutual

/-- Every call statement in the statement is one of a call. -/
def Stmt.CallsMade : Stmt α → Prop
  | .call _ value => value.isCall = true
  | .function _ _ _ _ body | .ifThen _ _ body | .loop _ _ _ body => Stmt.AllCallsMade body
  | .ifThenElse _ _ thenBody elseBody => Stmt.AllCallsMade thenBody ∧ Stmt.AllCallsMade elseBody
  | .declaration .. | .assignment .. | .print .. | .returning .. | .broken .. | .bare _ => True

def Stmt.AllCallsMade : List (Stmt α) → Prop
  | [] => True
  | s :: rest => s.CallsMade ∧ Stmt.AllCallsMade rest

end

def Program.CallsMade : Program α → Prop
  | .expression _ _ => True
  | .statements _ body => Stmt.AllCallsMade body

theorem Stmt.AllCallsMade.of_mem {body : List (Stmt α)} {s : Stmt α} (h : AllCallsMade body)
    (hs : s ∈ body) : s.CallsMade := by
  induction body with
  | nil => cases hs
  | cons first rest ih =>
    simp only [AllCallsMade] at h
    rcases List.mem_cons.1 hs with rfl | hs
    · exact h.1
    · exact ih h.2 hs

theorem Expr.isCall_map (f : α → β) (e : Expr α) : (e.map f).isCall = e.isCall := by
  cases e <;> rfl

theorem Expr.exists_of_isCall {e : Expr α} (h : e.isCall = true) :
    ∃ mark name args, e = .call mark name args := by
  cases e with
  | call mark name args => exact ⟨mark, name, args, rfl⟩
  | _ => cases h

section Map
variable (f : α → β)

mutual

theorem Stmt.callsMade_map : (s : Stmt α) → ((s.map f).CallsMade ↔ s.CallsMade)
  | .call _ value => by simp only [Stmt.map, Stmt.CallsMade, value.isCall_map f]
  | .function _ _ _ _ body | .ifThen _ _ body | .loop _ _ _ body => by
    simp only [Stmt.map, Stmt.CallsMade, Stmt.allCallsMade_map body]
  | .ifThenElse _ _ thenBody elseBody => by
    simp only [Stmt.map, Stmt.CallsMade, Stmt.allCallsMade_map thenBody,
      Stmt.allCallsMade_map elseBody]
  | .returning _ none | .returning _ (some _) => by simp only [Stmt.map, Stmt.CallsMade]
  | .declaration .. | .assignment .. | .print .. | .broken .. | .bare _ => by
    simp only [Stmt.map, Stmt.CallsMade]

theorem Stmt.allCallsMade_map : (body : List (Stmt α)) →
    (Stmt.AllCallsMade (Stmt.mapAll f body) ↔ Stmt.AllCallsMade body)
  | [] => by simp only [Stmt.mapAll, Stmt.AllCallsMade]
  | s :: rest => by
    simp only [Stmt.mapAll, Stmt.AllCallsMade, Stmt.callsMade_map s, Stmt.allCallsMade_map rest]

end

theorem Program.callsMade_map (p : Program α) : (p.map f).CallsMade ↔ p.CallsMade := by
  cases p with
  | expression mark body => exact Iff.rfl
  | statements mark body => exact Stmt.allCallsMade_map f body

end Map

section Spelled
variable {fits : α → List Token → Prop}

mutual

theorem Stmt.Spelled.callsMade : {s : Stmt α} → {room : Nat} → {inFunction : Bool} →
    {tokens : List Token} → s.Spelled fits room inFunction tokens → s.CallsMade
  | _, _, _, _, .declaration .. | _, _, _, _, .assignment .. | _, _, _, _, .print ..
  | _, _, _, _, .bareReturn .. | _, _, _, _, .returning .. => by simp only [Stmt.CallsMade]
  | _, _, _, _, .call _ _ => by simp only [Stmt.CallsMade, Expr.isCall]
  | _, _, _, _, .function _ _ _ _ _ _ hbody _ | _, _, _, _, .ifThen _ _ _ _ hbody _
  | _, _, _, _, .loop _ _ _ _ _ _ hbody _ => by
    simp only [Stmt.CallsMade]
    exact hbody.callsMade
  | _, _, _, _, .ifThenElse _ _ _ _ hthen _ helse _ => by
    simp only [Stmt.CallsMade]
    exact ⟨hthen.callsMade, helse.callsMade⟩
  | _, _, _, _, .elseIf _ _ _ _ hthen _ _ helse _ => by
    simp only [Stmt.CallsMade, Stmt.AllCallsMade]
    exact ⟨hthen.callsMade, helse.callsMade, trivial⟩

theorem Stmt.SpelledAll.callsMade : {body : List (Stmt α)} → {room : Nat} → {inFunction : Bool} →
    {tokens : List Token} → Stmt.SpelledAll fits room inFunction body tokens →
    Stmt.AllCallsMade body
  | _, _, _, _, .nil => by simp only [Stmt.AllCallsMade]
  | _, _, _, _, .cons hs hrest => by
    simp only [Stmt.AllCallsMade]
    exact ⟨hs.callsMade, hrest.callsMade⟩

theorem Stmt.SpelledBlock.callsMade : {body : List (Stmt α)} → {room : Nat} → {inFunction : Bool} →
    {tokens : List Token} → Stmt.SpelledBlock fits room inFunction body tokens →
    Stmt.AllCallsMade body
  | _, _, _, _, .braces _ hbody _ => hbody.callsMade

end

theorem Program.Spelled.callsMade {p : Program α} {tokens : List Token} (h : p.Spelled fits tokens) :
    p.CallsMade := by
  cases h with
  | expression => trivial
  | statements hbody => exact hbody.callsMade

end Spelled

/-- In the tree of a text without a report, call statements are of calls. -/
theorem Grammar.parse_callsMade (source : String) (hclean : Clean (parse source).marks) :
    (parse source).CallsMade := by
  obtain ⟨hproper, -⟩ := Cursor.proper_scan source
  obtain ⟨_, _, -, -, hspelled, -⟩ := program_written hproper hclean
  exact hspelled.callsMade

end CatScript
