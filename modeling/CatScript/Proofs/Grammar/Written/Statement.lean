import CatScript.Proofs.Grammar.Written.Expression

/-! # Statements are read as they are written

Where nothing is reported, the tokens that a reader of statements passes write the statement that it
gives.  What is left out or made up on the way to a statement is reported at its mark, so that a
clean mark says that every token was there. -/
set_option autoImplicit false
namespace CatScript

variable {fits : Mark → List Token → Prop}

theorem Stmt.Spelled.mark_fits {s : Stmt Mark} {room : Nat} {inFunction : Bool}
    {tokens : List Token} (h : s.Spelled fits room inFunction tokens) : fits s.mark tokens := by
  cases h <;> assumption

namespace Grammar
open Reader

section Types
variable {cursor : Cursor} {tokens : List Token}

theorem typeExpression_written (hproper : cursor.Proper) (bound : Nat) :
    ∀ {tokens : List Token}, cursor.remaining < bound + tokens.length →
    After cursor tokens (typeExpression bound) fun read passed =>
      ∃ new, passed = tokens ++ new ∧ (read.2 = [] → read.1.Spelled new) := by
  induction bound with
  | zero =>
    intro tokens hbound now hnow
    have hremaining := hnow.remaining
    omega
  | succ bound ih =>
    intro tokens hbound
    refine .bind .current fun token passed htoken => ?_
    obtain ⟨rfl, rfl⟩ := htoken
    by_cases hkind : (cursor.tokenAfter passed).kind = .identifier
    · rw [if_neg (not_not_intro hkind)]
      refine .bind (.take_of_ne hproper (by rw [hkind]; decide)) fun _ behind htaken => ?_
      obtain ⟨-, rfl⟩ := htaken
      dsimp only
      split
      · next htext =>
        refine .bind (.accept hproper (by decide)) fun opened last hopened => ?_
        rcases hopened with ⟨rfl, opening, hopening, rfl⟩ | ⟨rfl, -, rfl⟩
        · refine .bind (ih (by simp only [List.length_append, List.length_singleton]; omega))
            fun (component, errors) all hcomponent => ?_
          obtain ⟨inside, rfl, hcomponent⟩ := hcomponent
          refine .bind (.require hproper (by decide)) fun (closing, missing) final hclosing => ?_
          obtain ⟨new, rfl, hclosing⟩ := hclosing
          refine .pure ⟨cursor.tokenAfter passed :: opening :: (inside ++ new), by simp,
            fun herrors => ?_⟩
          obtain ⟨hgood, hnone⟩ := List.append_eq_nil_iff.1 herrors
          obtain ⟨hgreater, rfl⟩ := hclosing hnone
          exact .list hkind htext hopening (hcomponent hgood) hgreater
        · exact .pure ⟨_, rfl, fun _ => .anyList hkind htext⟩
      · split
        · next ty hty => exact .pure ⟨_, rfl, fun _ => .name hkind (Ty.ofName?_eq_some.1 hty)⟩
        · exact .pure ⟨_, rfl, fun herrors => nomatch herrors⟩
    · rw [if_pos hkind]
      exact .pure ⟨[], (List.append_nil _).symm, fun herrors => nomatch herrors⟩

theorem typeAfterColon_written :
    Spec typeAfterColon? fun read passed => read.2 = [] → Annotates read.1 passed := by
  intro cursor hproper
  refine .bind (.accept hproper (by decide)) fun annotated passed hcolon => ?_
  rcases hcolon with ⟨rfl, colon, hcolon, rfl⟩ | ⟨rfl, -, rfl⟩
  · refine .bind .remaining fun bound behind hbound => ?_
    obtain ⟨hbound, rfl⟩ := hbound
    refine .bind (typeExpression_written hproper _ (by omega)) fun (ty, errors) all hty => .pure ?_
    obtain ⟨new, rfl, hty⟩ := hty
    exact fun herrors => .some hcolon (hty herrors)
  · exact .pure fun _ => .none

theorem parameter_written :
    Spec parameter fun read passed => read.2 = [] → read.1.Spelled passed := by
  intro cursor hproper
  refine .bind (.require hproper (by decide)) fun (name, noName) passed hname => ?_
  obtain ⟨first, rfl, hname⟩ := hname
  refine .bind (.of_spec typeAfterColon_written hproper) fun (ty?, badType) all hty => .pure ?_
  obtain ⟨typed, rfl, hty⟩ := hty
  intro herrors
  obtain ⟨hnone, hgood⟩ := List.append_eq_nil_iff.1 herrors
  obtain ⟨hkind, rfl⟩ := hname hnone
  exact .named hkind (hty hgood)

theorem parameters_written :
    Spec parameters fun read passed => read.2 = [] → Separated Parameter.Spelled read.1 passed := by
  intro cursor hproper
  refine .bind .peek fun kind passed hkind => ?_
  obtain ⟨-, rfl⟩ := hkind
  split
  · exact .pure fun _ => .nil
  · refine .bind .remaining fun bound behind hbound => ?_
    obtain ⟨-, rfl⟩ := hbound
    refine .bind (.of_spec (parameter_written.separated bound) hproper) fun read all hread =>
      .pure ?_
    obtain ⟨new, rfl, -, hread⟩ := hread
    intro herrors
    have hgood : ∀ one ∈ read, one.2 = [] := List.flatMap_eq_nil_iff.1 herrors
    exact hread.map fun one passed hone hspelled => hspelled (hgood one hone)

end Types

section Statements
variable {nested : Nested} {room : Nat} {inFunction : Bool} {cursor : Cursor}

def WrittenStmt (room : Nat) (inFunction : Bool) (s : Stmt Mark) (tokens : List Token) : Prop :=
  Clean s.marks → s.Spelled Mark.Covers room inFunction tokens ∧ s.grouped = true

def BlockReader.Faithful (block : BlockReader) (room : Nat) (inFunction : Bool) : Prop :=
  Spec block fun read passed => read.2 = [] → Clean (Stmt.marksAll read.1) →
    Stmt.SpelledBlock Mark.Covers room inFunction read.1 passed ∧ Stmt.groupedAll read.1 = true

theorem strayStatement_written : Spec strayStatement (WrittenStmt room inFunction) := by
  intro cursor hproper
  refine .bind (.take hproper) fun token passed _ => .pure fun hclean => ?_
  cases (clean_cons.1 hclean).1

section Simple
variable (hnested : nested.Faithful room) (hproper : cursor.Proper)
include hnested hproper

theorem declaration_written (hkind : (cursor.tokenAfter []).kind = .varWord) :
    After cursor [] (declaration nested) (WrittenStmt room inFunction) := by
  refine .bind (.take_of_ne hproper (by rw [hkind]; decide)) fun start first hstart => ?_
  obtain ⟨rfl, rfl⟩ := hstart
  refine .bind (.require hproper (by decide)) fun (name, noName) _ hname => ?_
  obtain ⟨_, rfl, hname⟩ := hname
  refine .bind (.of_spec typeAfterColon_written hproper) fun (ty?, badType) _ hty => ?_
  obtain ⟨typed, rfl, hty⟩ := hty
  refine .bind (.require hproper (by decide)) fun (equal, noEqual) _ hequal => ?_
  obtain ⟨_, rfl, hequal⟩ := hequal
  refine .bind (.of_spec hnested.expression hproper) fun value _ hvalue => ?_
  obtain ⟨tokens, rfl, hvalue⟩ := hvalue
  refine .bind (.spanFrom hproper rfl) fun span _ hspan => .pure fun hclean => ?_
  obtain ⟨rfl, hcovers⟩ := hspan
  rw [Stmt.marks, clean_cons] at hclean
  obtain ⟨herrors, hnoEqual⟩ := List.append_eq_nil_iff.1 hclean.1
  obtain ⟨hnoName, hgood⟩ := List.append_eq_nil_iff.1 herrors
  obtain ⟨hisName, rfl⟩ := hname hnoName
  obtain ⟨hisEqual, rfl⟩ := hequal hnoEqual
  obtain ⟨left, rfl, hspelled, hgrouped⟩ := hvalue hclean.2
  simp only [List.append_assoc, List.nil_append, List.cons_append] at hcovers ⊢
  exact ⟨.declaration hkind hisName (hty hgood) hisEqual hspelled (hcovers _), hgrouped⟩

theorem named_written (hkind : (cursor.tokenAfter []).kind = .identifier) :
    After cursor [] (named nested) (WrittenStmt room inFunction) := by
  refine .bind (.take_of_ne hproper (by rw [hkind]; decide)) fun name first hname => ?_
  obtain ⟨rfl, rfl⟩ := hname
  refine .bind (.accept hproper (by decide)) fun assigned _ hassigned => ?_
  rcases hassigned with ⟨rfl, equal, hequal, rfl⟩ | ⟨rfl, -, rfl⟩
  · refine .bind (.of_spec hnested.expression hproper) fun value _ hvalue => ?_
    obtain ⟨tokens, rfl, hvalue⟩ := hvalue
    refine .bind (.spanFrom hproper rfl) fun span _ hspan => .pure fun hclean => ?_
    obtain ⟨rfl, hcovers⟩ := hspan
    rw [Stmt.marks, clean_cons] at hclean
    obtain ⟨left, rfl, hspelled, hgrouped⟩ := hvalue hclean.2
    exact ⟨.assignment hkind hequal hspelled (hcovers _), hgrouped⟩
  · refine .bind (call_written hnested hproper hkind) fun value tokens hvalue => .pure fun hclean => ?_
    obtain ⟨⟨mark, args, rfl⟩, hvalue⟩ := hvalue
    rw [Stmt.marks, clean_cons] at hclean
    obtain ⟨hspelled, hgrouped, -⟩ := hvalue hclean.2
    exact ⟨.call hspelled hspelled.mark_fits, hgrouped⟩

theorem print_written (hkind : (cursor.tokenAfter []).kind = .printWord) :
    After cursor [] (print nested) (WrittenStmt room inFunction) := by
  refine .bind (.take_of_ne hproper (by rw [hkind]; decide)) fun start first hstart => ?_
  obtain ⟨rfl, rfl⟩ := hstart
  refine .bind (.require hproper (by decide)) fun (opening, noOpening) _ hopening => ?_
  obtain ⟨_, rfl, hopening⟩ := hopening
  refine .bind (.of_spec hnested.expression hproper) fun value _ hvalue => ?_
  obtain ⟨tokens, rfl, hvalue⟩ := hvalue
  refine .bind (.require hproper (by decide)) fun (closing, noClosing) _ hclosing => ?_
  obtain ⟨_, rfl, hclosing⟩ := hclosing
  refine .bind (.spanFrom hproper rfl) fun span _ hspan => .pure fun hclean => ?_
  obtain ⟨rfl, hcovers⟩ := hspan
  rw [Stmt.marks, clean_cons] at hclean
  obtain ⟨hnoOpening, hnoClosing⟩ := List.append_eq_nil_iff.1 hclean.1
  obtain ⟨hisOpening, rfl⟩ := hopening hnoOpening
  obtain ⟨hisClosing, rfl⟩ := hclosing hnoClosing
  obtain ⟨left, rfl, hspelled, hgrouped⟩ := hvalue hclean.2
  simp only [List.nil_append, List.cons_append] at hcovers ⊢
  exact ⟨.print hkind hisOpening hspelled hisClosing (hcovers _), hgrouped⟩

theorem returning_written (hkind : (cursor.tokenAfter []).kind = .returnWord) :
    After cursor [] (returning nested) (WrittenStmt room true) := by
  refine .bind (.take_of_ne hproper (by rw [hkind]; decide)) fun start first hstart => ?_
  obtain ⟨rfl, rfl⟩ := hstart
  refine .bind .peek fun kind _ hnext => ?_
  obtain ⟨-, rfl⟩ := hnext
  split
  · refine .bind (P := fun value? passed => value? = none ∧ passed = [cursor.tokenAfter []])
      (.pure ⟨rfl, rfl⟩) fun value? _ hvalue => ?_
    obtain ⟨rfl, rfl⟩ := hvalue
    refine .bind (.spanFrom hproper rfl) fun span _ hspan => .pure fun _ => ?_
    obtain ⟨rfl, hcovers⟩ := hspan
    exact ⟨.bareReturn hkind (hcovers _), rfl⟩
  · refine .bind (.map (.of_spec hnested.expression hproper)
      (Q := fun value? passed => ∃ value tokens, value? = some value ∧
        passed = cursor.tokenAfter [] :: tokens ∧ (Clean value.marks → ∃ left, room = left + 1 ∧
          value.Spelled Mark.Covers left tokens ∧ value.grouped = true)) ?_) fun value? _ hvalue => ?_
    · rintro value _ ⟨tokens, rfl, hvalue⟩
      exact ⟨value, tokens, rfl, rfl, hvalue⟩
    · obtain ⟨value, tokens, rfl, rfl, hvalue⟩ := hvalue
      refine .bind (.spanFrom hproper rfl) fun span _ hspan => .pure fun hclean => ?_
      obtain ⟨rfl, hcovers⟩ := hspan
      rw [Stmt.marks, clean_cons] at hclean
      obtain ⟨left, rfl, hspelled, hgrouped⟩ := hvalue hclean.2
      exact ⟨.returning hkind hspelled (hcovers _), hgrouped⟩

end Simple

section Blocks
variable {block : BlockReader} (hproper : cursor.Proper)
include hproper

theorem function_written (hblock : block.Faithful room true)
    (hkind : (cursor.tokenAfter []).kind = .functionWord) :
    After cursor [] (function block) (WrittenStmt room inFunction) := by
  refine .bind (.take_of_ne hproper (by rw [hkind]; decide)) fun start first hstart => ?_
  obtain ⟨rfl, rfl⟩ := hstart
  refine .bind (.require hproper (by decide)) fun (name, noName) _ hname => ?_
  obtain ⟨_, rfl, hname⟩ := hname
  refine .bind (.require hproper (by decide)) fun (opening, noOpening) _ hopening => ?_
  obtain ⟨_, rfl, hopening⟩ := hopening
  refine .bind (.of_spec parameters_written hproper) fun (params, badParams) _ hparams => ?_
  obtain ⟨tokens, rfl, hparams⟩ := hparams
  refine .bind (.require hproper (by decide)) fun (closing, noClosing) _ hclosing => ?_
  obtain ⟨_, rfl, hclosing⟩ := hclosing
  refine .bind (.of_spec typeAfterColon_written hproper) fun (ty?, badType) _ hty => ?_
  obtain ⟨typed, rfl, hty⟩ := hty
  refine .bind (.of_spec hblock hproper) fun (body, badBody) _ hbody => ?_
  obtain ⟨inside, rfl, hbody⟩ := hbody
  refine .bind (.spanFrom hproper rfl) fun span _ hspan => .pure fun hclean => ?_
  obtain ⟨rfl, hcovers⟩ := hspan
  rw [Stmt.marks, clean_cons] at hclean
  obtain ⟨herrors, hgoodBody⟩ := List.append_eq_nil_iff.1 hclean.1
  obtain ⟨herrors, hgoodType⟩ := List.append_eq_nil_iff.1 herrors
  obtain ⟨herrors, hnoClosing⟩ := List.append_eq_nil_iff.1 herrors
  obtain ⟨herrors, hgoodParams⟩ := List.append_eq_nil_iff.1 herrors
  obtain ⟨hnoName, hnoOpening⟩ := List.append_eq_nil_iff.1 herrors
  obtain ⟨hisName, rfl⟩ := hname hnoName
  obtain ⟨hisOpening, rfl⟩ := hopening hnoOpening
  obtain ⟨hisClosing, rfl⟩ := hclosing hnoClosing
  obtain ⟨hspelled, hgrouped⟩ := hbody hgoodBody hclean.2
  simp only [List.append_assoc, List.nil_append, List.cons_append] at hcovers ⊢
  exact ⟨.function hkind hisName hisOpening (hparams hgoodParams) hisClosing (hty hgoodType)
    hspelled (hcovers _), hgrouped⟩

variable (hnested : nested.Faithful room) (hblock : block.Faithful room inFunction)
include hnested hblock

theorem loop_written (hkind : (cursor.tokenAfter []).kind = .forWord) :
    After cursor [] (loop nested block) (WrittenStmt room inFunction) := by
  refine .bind (.take_of_ne hproper (by rw [hkind]; decide)) fun start first hstart => ?_
  obtain ⟨rfl, rfl⟩ := hstart
  refine .bind (.require hproper (by decide)) fun (opening, noOpening) _ hopening => ?_
  obtain ⟨_, rfl, hopening⟩ := hopening
  refine .bind (.require hproper (by decide)) fun (name, noName) _ hname => ?_
  obtain ⟨_, rfl, hname⟩ := hname
  refine .bind (.require hproper (by decide)) fun (inWord, noIn) _ hin => ?_
  obtain ⟨_, rfl, hin⟩ := hin
  refine .bind (.of_spec hnested.expression hproper) fun iterable _ hiterable => ?_
  obtain ⟨tokens, rfl, hiterable⟩ := hiterable
  refine .bind (.require hproper (by decide)) fun (closing, noClosing) _ hclosing => ?_
  obtain ⟨_, rfl, hclosing⟩ := hclosing
  refine .bind (.of_spec hblock hproper) fun (body, badBody) _ hbody => ?_
  obtain ⟨inside, rfl, hbody⟩ := hbody
  refine .bind (.spanFrom hproper rfl) fun span _ hspan => .pure fun hclean => ?_
  obtain ⟨rfl, hcovers⟩ := hspan
  rw [Stmt.marks, clean_cons, clean_append] at hclean
  obtain ⟨herrors, hgoodBody⟩ := List.append_eq_nil_iff.1 hclean.1
  obtain ⟨herrors, hnoClosing⟩ := List.append_eq_nil_iff.1 herrors
  obtain ⟨herrors, hnoIn⟩ := List.append_eq_nil_iff.1 herrors
  obtain ⟨hnoOpening, hnoName⟩ := List.append_eq_nil_iff.1 herrors
  obtain ⟨hisOpening, rfl⟩ := hopening hnoOpening
  obtain ⟨hisName, rfl⟩ := hname hnoName
  obtain ⟨hisIn, rfl⟩ := hin hnoIn
  obtain ⟨hisClosing, rfl⟩ := hclosing hnoClosing
  obtain ⟨left, rfl, hspelled, hgrouped⟩ := hiterable hclean.2.1
  obtain ⟨hbodySpelled, hbodyGrouped⟩ := hbody hgoodBody hclean.2.2
  simp only [List.append_assoc, List.nil_append, List.cons_append] at hcovers ⊢
  refine ⟨.loop hkind hisOpening hisName hisIn hspelled hisClosing hbodySpelled (hcovers _), ?_⟩
  rw [Stmt.grouped, hgrouped, hbodyGrouped]
  rfl

theorem conditionalWith_written {elseIf : Reader (Stmt Mark)}
    (helse : ∀ cursor : Cursor, cursor.Proper → (cursor.tokenAfter []).kind = .ifWord →
      After cursor [] elseIf (WrittenStmt room inFunction))
    (hkind : (cursor.tokenAfter []).kind = .ifWord) :
    After cursor [] (conditionalWith nested block elseIf) (WrittenStmt room inFunction) := by
  refine .bind (.take_of_ne hproper (by rw [hkind]; decide)) fun start first hstart => ?_
  obtain ⟨rfl, rfl⟩ := hstart
  refine .bind (.require hproper (by decide)) fun (opening, noOpening) _ hopening => ?_
  obtain ⟨before, rfl, hopening⟩ := hopening
  refine .bind (.of_spec hnested.expression hproper) fun condition _ hcondition => ?_
  obtain ⟨tokens, rfl, hcondition⟩ := hcondition
  refine .bind (.require hproper (by decide)) fun (closing, noClosing) _ hclosing => ?_
  obtain ⟨behind, rfl, hclosing⟩ := hclosing
  refine .bind (.of_spec hblock hproper) fun (thenBody, badThen) _ hthen => ?_
  obtain ⟨inside, rfl, hthen⟩ := hthen
  -- what all three forms of an `if` start with
  have hstart : noOpening ++ noClosing ++ badThen = [] → Clean condition.marks →
      Clean (Stmt.marksAll thenBody) → (before = [opening] ∧ opening.kind = .leftParen) ∧
        (behind = [closing] ∧ closing.kind = .rightParen) ∧
        (∃ left, room = left + 1 ∧ condition.Spelled Mark.Covers left tokens) ∧
        Stmt.SpelledBlock Mark.Covers room inFunction thenBody inside ∧
        condition.grouped = true ∧ Stmt.groupedAll thenBody = true := by
    intro herrors hcleanCondition hcleanThen
    obtain ⟨herrors, hgoodThen⟩ := List.append_eq_nil_iff.1 herrors
    obtain ⟨hnoOpening, hnoClosing⟩ := List.append_eq_nil_iff.1 herrors
    obtain ⟨left, hleft, hspelled, hgrouped⟩ := hcondition hcleanCondition
    obtain ⟨hspelledThen, hgroupedThen⟩ := hthen hgoodThen hcleanThen
    exact ⟨(hopening hnoOpening).symm, (hclosing hnoClosing).symm, ⟨left, hleft, hspelled⟩,
      hspelledThen, hgrouped, hgroupedThen⟩
  refine .bind (.accept hproper (by decide)) fun alternative _ hother => ?_
  rcases hother with ⟨rfl, other, hother, rfl⟩ | ⟨rfl, -, rfl⟩
  · refine .bind .peek fun kind _ hnext => ?_
    obtain ⟨rfl, rfl⟩ := hnext
    split
    · next hif =>
      refine .bind (.of_focus (· = .ifWord) helse hproper hif) fun s _ hs => ?_
      obtain ⟨new, rfl, hs, hfirst⟩ := hs
      refine .bind (P := fun read passed => read = ([s], []) ∧ passed = _) (.pure ⟨rfl, rfl⟩)
        fun read _ hread => ?_
      obtain ⟨rfl, rfl⟩ := hread
      refine .bind (.spanFrom hproper rfl) fun span _ hspan => .pure fun hclean => ?_
      obtain ⟨rfl, hcovers⟩ := hspan
      rw [Stmt.marks, clean_cons, clean_append, clean_append] at hclean
      obtain ⟨⟨rfl, hisOpening⟩, ⟨rfl, hisClosing⟩, ⟨left, rfl, hspelled⟩, hspelledThen,
        hgrouped, hgroupedThen⟩ :=
        hstart (List.append_eq_nil_iff.1 hclean.1).1 hclean.2.1.1 hclean.2.1.2
      obtain ⟨hspelledElse, hgroupedElse⟩ := hs (by simpa [Stmt.marksAll] using hclean.2.2)
      obtain ⟨next, others, rfl⟩ := List.exists_cons_of_ne_nil hspelledElse.mark_fits.ne_nil
      have hisIf : next.kind = .ifWord := hfirst next rfl ▸ hif
      simp only [List.append_assoc, List.nil_append, List.cons_append] at hcovers ⊢
      refine ⟨.elseIf hkind hisOpening hspelled hisClosing hspelledThen hother hisIf hspelledElse
        (hcovers _), ?_⟩
      rw [Stmt.grouped, hgrouped, hgroupedThen, Stmt.groupedAll, hgroupedElse]
      rfl
    · refine .bind (.of_spec hblock hproper) fun read _ helseBody => ?_
      obtain ⟨elseBody, badElse⟩ := read
      obtain ⟨others, rfl, helseBody⟩ := helseBody
      refine .bind (.spanFrom hproper rfl) fun span _ hspan => .pure fun hclean => ?_
      obtain ⟨rfl, hcovers⟩ := hspan
      rw [Stmt.marks, clean_cons, clean_append, clean_append] at hclean
      obtain ⟨herrors, hgoodElse⟩ := List.append_eq_nil_iff.1 hclean.1
      obtain ⟨⟨rfl, hisOpening⟩, ⟨rfl, hisClosing⟩, ⟨left, rfl, hspelled⟩, hspelledThen,
        hgrouped, hgroupedThen⟩ := hstart herrors hclean.2.1.1 hclean.2.1.2
      obtain ⟨hspelledElse, hgroupedElse⟩ := helseBody hgoodElse hclean.2.2
      simp only [List.append_assoc, List.nil_append, List.cons_append] at hcovers ⊢
      refine ⟨.ifThenElse hkind hisOpening hspelled hisClosing hspelledThen hother hspelledElse
        (hcovers _), ?_⟩
      rw [Stmt.grouped, hgrouped, hgroupedThen, hgroupedElse]
      rfl
  · refine .bind (.spanFrom hproper rfl) fun span _ hspan => .pure fun hclean => ?_
    obtain ⟨rfl, hcovers⟩ := hspan
    rw [Stmt.marks, clean_cons, clean_append] at hclean
    obtain ⟨⟨rfl, hisOpening⟩, ⟨rfl, hisClosing⟩, ⟨left, rfl, hspelled⟩, hspelledThen,
      hgrouped, hgroupedThen⟩ := hstart hclean.1 hclean.2.1 hclean.2.2
    simp only [List.append_assoc, List.nil_append, List.cons_append] at hcovers ⊢
    refine ⟨.ifThen hkind hisOpening hspelled hisClosing hspelledThen (hcovers _), ?_⟩
    rw [Stmt.grouped, hgrouped, hgroupedThen]
    rfl

omit hproper hnested hblock in
/-- However many alternatives an `if` may still have, its parts are written there. -/
theorem conditional_written (hnested : nested.Faithful room)
    (hblock : block.Faithful room inFunction) (bound : Nat) : ∀ cursor : Cursor, cursor.Proper →
      (cursor.tokenAfter []).kind = .ifWord →
      After cursor [] (conditional nested block bound) (WrittenStmt room inFunction) := by
  induction bound with
  | zero =>
    intro cursor hproper hkind
    exact conditionalWith_written hproper hnested hblock
      (fun cursor hproper _ => strayStatement_written cursor hproper) hkind
  | succ bound ih =>
    intro cursor hproper hkind
    exact conditionalWith_written hproper hnested hblock ih hkind

end Blocks

theorem statementWith_written {block : Bool → BlockReader} (hnested : nested.Faithful room)
    (hblock : ∀ inside, (block inside).Faithful room inside) :
    Spec (statementWith nested block inFunction) (WrittenStmt room inFunction) := by
  intro cursor hproper
  refine .bind .peek fun kind passed hkind => ?_
  obtain ⟨hkind, rfl⟩ := hkind
  split
  · exact declaration_written hnested hproper hkind.symm
  · exact function_written hproper (hblock true) hkind.symm
  · refine .bind .remaining fun bound passed hbound => ?_
    obtain ⟨-, rfl⟩ := hbound
    exact conditional_written hnested (hblock inFunction) bound cursor hproper hkind.symm
  · exact loop_written hproper hnested (hblock inFunction) hkind.symm
  · exact print_written hnested hproper hkind.symm
  · exact named_written hnested hproper hkind.symm
  · cases inFunction with
    | true => exact returning_written hnested hproper hkind.symm
    | false => exact strayStatement_written cursor hproper
  · exact strayStatement_written cursor hproper

theorem spelledAll_of_pieces {body : List (Stmt Mark)} {pieces : List (List Token)}
    (h : List.Forall₂ (WrittenStmt room inFunction) body pieces)
    (hclean : Clean (Stmt.marksAll body)) :
    Stmt.SpelledAll Mark.Covers room inFunction body pieces.flatten ∧
      Stmt.groupedAll body = true := by
  induction h with
  | nil => exact ⟨.nil, rfl⟩
  | cons hs _ ih =>
    rw [Stmt.marksAll, clean_append] at hclean
    obtain ⟨hspelled, hgrouped⟩ := hs hclean.1
    obtain ⟨hspelled', hgrouped'⟩ := ih hclean.2
    exact ⟨.cons hspelled hspelled', by rw [Stmt.groupedAll, hgrouped, hgrouped']; rfl⟩

/-- Whatever room there is, a block is written in that room. -/
theorem block_faithful (room : Nat) :
    ∀ inFunction, (Grammar.block room inFunction).Faithful room inFunction := by
  induction room with
  | zero =>
    intro inFunction cursor hproper
    refine .bind .current fun token passed htoken => .pure fun hnone => ?_
    cases hnone
  | succ room ih =>
    intro inFunction cursor hproper
    refine .bind (.require hproper (by decide)) fun (opening, noOpening) _ hopening => ?_
    obtain ⟨_, rfl, hopening⟩ := hopening
    refine .bind .remaining fun bound _ hbound => ?_
    obtain ⟨-, rfl⟩ := hbound
    refine .bind (.repeated (statementWith_written (Nested.faithful room) ih) bound hproper)
      fun body _ hbody => ?_
    obtain ⟨pieces, rfl, hpieces, -⟩ := hbody
    refine .bind (.require hproper (by decide)) fun (closing, noClosing) _ hclosing => .pure ?_
    obtain ⟨_, rfl, hclosing⟩ := hclosing
    intro herrors hclean
    obtain ⟨hnoOpening, hnoClosing⟩ := List.append_eq_nil_iff.1 herrors
    obtain ⟨hisOpening, rfl⟩ := hopening hnoOpening
    obtain ⟨hisClosing, rfl⟩ := hclosing hnoClosing
    obtain ⟨hspelled, hgrouped⟩ := spelledAll_of_pieces hpieces hclean
    simp only [List.nil_append, List.cons_append]
    exact ⟨.braces hisOpening hspelled hisClosing, hgrouped⟩

end Statements
end Grammar
end CatScript
