import CatScript.Proofs.Grammar.Descent.Expression

/-! # Statements in one pass

The functions that read statements and blocks agree with the readers for as many nesting levels as
are left (`block_agrees`, `statement_agrees`).  Every statement takes a token, so the bounds of the
readers' loops are never met. -/
set_option autoImplicit false
namespace CatScript.Descent
open Grammar

variable {tokens : List Token} {depth : Nat}

section Types

/-- The step gives what the reader gives, and leaves the arena alone. -/
def ReadsAlike {β : Type} (tokens : List Token) (depth : Nat) (step : Nat → Descent β)
    (reader : Reader β) (arena : Arena) (cursor : Cursor) : Prop :=
  Agrees tokens depth arena cursor step reader fun b c after _ => c = b ∧ after = arena

theorem ReadsAlike.bind {β γ δ : Type} {arena : Arena} {cursor : Cursor} {step : Nat → Descent β}
    {reader : Reader β} {f : Nat → β → Descent γ} {g : β → Reader δ}
    {P : δ → γ → Arena → Cursor → Prop} (h : ReadsAlike tokens depth step reader arena cursor)
    (hnext : ∀ b later, later.remaining ≤ cursor.remaining →
      Agrees tokens depth arena later (fun calls => f calls b) (g b) P) :
    Agrees tokens depth arena cursor (fun calls => step calls >>= f calls) (reader >>= g) P := by
  refine Agrees.bind h fun b c after later hsame hle => ?_
  obtain ⟨rfl, rfl⟩ := hsame
  exact hnext c later hle

/-- A type in a type takes a token, so the reader's bound is never met. -/
theorem typeExpression_agrees (bound : Nat) (arena : Arena) (cursor : Cursor)
    (hbound : cursor.remaining < bound) :
    ReadsAlike tokens depth typeExpression (Grammar.typeExpression bound) arena cursor := by
  induction bound generalizing cursor with
  | zero => omega
  | succ bound ih =>
    rw [Grammar.typeExpression]
    refine .call typeExpression.eq_2 (.current ?_)
    refine .ite (fun _ => .pure ⟨rfl, rfl⟩) fun hkind => .take fun hlt => ?_
    have hlt := hlt (by rw [not_ne_iff.1 hkind]; nofun)
    refine .ite (fun _ => ?_) fun _ => ?_
    · refine .accept nofun (fun hlt' => ?_) (.pure ⟨rfl, rfl⟩)
      refine (ih _ (by omega)).bind fun component later _ => ?_
      exact .require fun _ _ _ _ => .pure ⟨rfl, rfl⟩
    · cases Ty.ofName? cursor.current.text with
      | some ty => exact .pure ⟨rfl, rfl⟩
      | none => exact .pure ⟨rfl, rfl⟩

theorem typeAfterColon_agrees (arena : Arena) (cursor : Cursor) :
    ReadsAlike tokens depth typeAfterColon? Grammar.typeAfterColon? arena cursor := by
  refine .accept nofun (fun _ => .remaining ?_) (.pure ⟨rfl, rfl⟩)
  exact (typeExpression_agrees _ _ _ (Nat.lt_succ_self _)).bind fun ty later _ => .pure ⟨rfl, rfl⟩

theorem parameter_agrees (arena : Arena) (cursor : Cursor) :
    ReadsAlike tokens depth parameter Grammar.parameter arena cursor := by
  refine .require fun name noName later _ => (typeAfterColon_agrees _ _).bind fun ty later' _ => ?_
  exact .pure ⟨rfl, rfl⟩

theorem parameterItems_agree (bound : Nat) (arena : Arena) (cursor : Cursor)
    (hbound : cursor.remaining ≤ bound) : ReadsAlike tokens depth parameterItems
      (Reader.separated Grammar.parameter bound) arena cursor := by
  induction bound generalizing cursor with
  | zero =>
    rw [Reader.separated]
    refine .call parameterItems.eq_2 ?_
    refine (parameter_agrees _ _).bind fun first later hle => ?_
    exact .ended (by omega) (by decide) (.pure ⟨rfl, rfl⟩)
  | succ bound ih =>
    rw [Reader.separated]
    refine .call parameterItems.eq_2 ?_
    refine (parameter_agrees _ _).bind fun first later hle => ?_
    refine .accept (by decide) (fun hlt => ?_) (.pure ⟨rfl, rfl⟩)
    exact (ih _ (by omega)).bind fun rest last _ => .pure ⟨rfl, rfl⟩

theorem parameters_agree (arena : Arena) (cursor : Cursor) :
    ReadsAlike tokens depth parameters Grammar.parameters arena cursor := by
  refine .peek (.ite (fun _ => .pure ⟨rfl, rfl⟩) fun _ => .remaining ?_)
  exact (parameterItems_agree _ _ _ (Nat.le_refl _)).bind fun found later _ => .pure ⟨rfl, rfl⟩

end Types

section Results

def StmtStored (arena : Arena) (s : Stmt Mark) (id : NodeId) (after : Arena) (_ : Cursor) : Prop :=
  id = (s.store.run arena).1 ∧ after = (s.store.run arena).2

def BodyStored (arena : Arena) (body : List (Stmt Mark)) (ids : List NodeId) (after : Arena)
    (_ : Cursor) : Prop :=
  ids = ((Stmt.storeAll body).run arena).1 ∧ after = ((Stmt.storeAll body).run arena).2

def BlockStored (arena : Arena) (block : List (Stmt Mark) × List Diagnostic)
    (result : List NodeId × List Diagnostic) (after : Arena) (_ : Cursor) : Prop :=
  result = (((Stmt.storeAll block.1).run arena).1, block.2) ∧
    after = ((Stmt.storeAll block.1).run arena).2

def ReadsStmt (tokens : List Token) (depth : Nat) (step : Nat → Descent NodeId)
    (reader : Reader (Stmt Mark)) : Prop :=
  ∀ arena cursor, Agrees tokens depth arena cursor step reader fun s id after later =>
    StmtStored arena s id after later ∧ Moved cursor later

def ReadsBlock (tokens : List Token) (depth : Nat)
    (step : Nat → Descent (List NodeId × List Diagnostic)) (reader : BlockReader) : Prop :=
  ∀ arena cursor, Agrees tokens depth arena cursor step reader (BlockStored arena)

theorem ReadsBlock.bind {β γ : Type} {arena : Arena} {cursor : Cursor}
    {step : Nat → Descent (List NodeId × List Diagnostic)} {reader : BlockReader}
    {f : Nat → List NodeId × List Diagnostic → Descent γ}
    {g : List (Stmt Mark) × List Diagnostic → Reader β} {P : β → γ → Arena → Cursor → Prop}
    (h : ReadsBlock tokens depth step reader)
    (hnext : ∀ body errors later, later.remaining ≤ cursor.remaining →
      Agrees tokens depth ((Stmt.storeAll body).run arena).2 later
        (fun calls => f calls (((Stmt.storeAll body).run arena).1, errors)) (g (body, errors))
        P) :
    Agrees tokens depth arena cursor (fun calls => step calls >>= f calls) (reader >>= g) P := by
  refine (h arena cursor).bind fun block result after later hstored hle => ?_
  obtain ⟨rfl, rfl⟩ := hstored
  exact hnext block.1 block.2 later hle

end Results

section Parts

theorem strayStatement_agrees :
    ReadsStmt tokens depth (fun _ => strayStatement) Grammar.strayStatement := by
  intro arena _
  refine .take fun hmoved => ?_
  exact .push (Laid.refl arena) ⟨⟨rfl, rfl⟩, hmoved⟩

variable {nested : Nested} (h : ReadsNested tokens depth nested)
include h

theorem declaration_agrees : ReadsStmt tokens depth declaration (Grammar.declaration nested) := by
  intro arena cursor
  refine .take fun hmoved => .require fun name noName later hle => ?_
  refine (typeAfterColon_agrees _ _).bind fun ty later' hle' => ?_
  refine .require fun _ noEqual last hle'' => h.expression.bind fun value past _ hle''' => ?_
  exact .close (value.store_laid _) fun _ => ⟨⟨rfl, rfl⟩, Moved.later hmoved (by omega)⟩

theorem named_agrees : ReadsStmt tokens depth named (Grammar.named nested) := by
  intro arena cursor
  refine .take fun hmoved => .accept nofun (fun hlt => ?_) ?_
  · refine h.expression.bind fun value later _ hle => ?_
    exact .close (value.store_laid _) fun _ => ⟨⟨rfl, rfl⟩, Moved.later hmoved (by omega)⟩
  · refine (call_agrees h _ _ _).bind fun value id after later hvalue hle => ?_
    obtain ⟨rfl, rfl⟩ := hvalue
    refine .span (value.shows_store _) ?_
    exact .push (value.store_laid _) ⟨⟨rfl, rfl⟩, Moved.later hmoved hle⟩

theorem print_agrees : ReadsStmt tokens depth print (Grammar.print nested) := by
  intro arena cursor
  refine .take fun hmoved => .require fun _ noOpening later hle => ?_
  refine h.expression.bind fun value later' _ hle' => .require fun _ noClosing last hle'' => ?_
  exact .close (value.store_laid _) fun _ => ⟨⟨rfl, rfl⟩, Moved.later hmoved (by omega)⟩

theorem returning_agrees : ReadsStmt tokens depth returning (Grammar.returning nested) := by
  intro arena cursor
  refine .take fun hmoved => .peek ?_
  have hnothing : Agrees tokens depth arena cursor.next
      (fun _ => do
        push (.returning none) ⟨← read (Reader.spanFrom cursor.current.span), []⟩)
      (do return .returning ⟨← Reader.spanFrom cursor.current.span, []⟩ none)
      fun s id after later => StmtStored arena s id after later ∧ Moved cursor later :=
    .close (Laid.refl arena) fun _ => ⟨⟨rfl, rfl⟩, hmoved⟩
  refine .ite (fun _ => hnothing) fun _ => ?_
  refine (h.expression _ _).bind_map fun value id after later hvalue hle => ?_
  obtain ⟨⟨rfl, rfl⟩, -⟩ := hvalue
  exact .close (value.store_laid _) fun _ => ⟨⟨rfl, rfl⟩, Moved.later hmoved hle⟩

end Parts

section Blocks
variable {nested : Nested} {reader : BlockReader} {inFunction : Bool}

theorem function_agrees (hblock : ReadsBlock tokens depth (block true) reader) :
    ReadsStmt tokens depth function (Grammar.function reader) := by
  intro arena cursor
  rw [Grammar.function]
  refine .call function.eq_2 ?_
  refine .take fun hmoved => .require fun name noName c₁ h₁ => .require fun _ noOpening c₂ h₂ => ?_
  refine (parameters_agree _ _).bind fun params c₃ h₃ => .require fun _ noClosing c₄ h₄ => ?_
  refine (typeAfterColon_agrees _ _).bind fun ty c₅ h₅ => hblock.bind fun body badBody c₆ h₆ => ?_
  exact .close (Stmt.storeAll_laid body _) fun _ => ⟨⟨rfl, rfl⟩, Moved.later hmoved (by omega)⟩

variable (h : ReadsNested tokens depth nested)
  (hblock : ReadsBlock tokens depth (block inFunction) reader)
include h hblock

theorem loop_agrees : ReadsStmt tokens depth (loop inFunction) (Grammar.loop nested reader) := by
  intro arena cursor
  rw [Grammar.loop]
  refine .call (loop.eq_2 inFunction) ?_
  refine .take fun hmoved => .require fun _ noOpening c₁ h₁ => .require fun name noName c₂ h₂ => ?_
  refine .require fun _ noIn c₃ h₃ => h.expression.bind fun value c₄ _ h₄ => ?_
  refine .require fun _ noClosing c₅ h₅ => hblock.bind fun body badBody c₆ h₆ => ?_
  have hlaid := (value.store_laid arena).append (Stmt.storeAll_laid body _)
  exact .close hlaid fun _ => ⟨⟨rfl, rfl⟩, Moved.later hmoved (by omega)⟩

theorem conditionalWith_agrees {elseIf : Reader (Stmt Mark)} (arena : Arena) (cursor : Cursor)
    (helse : ∀ arena later, later.remaining < cursor.remaining →
      Agrees tokens depth arena later (conditional inFunction) elseIf fun s id after later' =>
        StmtStored arena s id after later' ∧ Moved later later') :
    Agrees tokens depth arena cursor (conditional inFunction)
      (conditionalWith nested reader elseIf) fun s id after later =>
        StmtStored arena s id after later ∧ Moved cursor later := by
  rw [conditionalWith]
  refine .call (conditional.eq_2 inFunction) ?_
  refine .take fun hmoved => .require fun _ noOpening c₁ h₁ => ?_
  refine h.expression.bind fun condition c₂ _ h₂ => .require fun _ noClosing c₃ h₃ => ?_
  refine hblock.bind fun body badThen c₄ h₄ => ?_
  have hthen := (condition.store_laid arena).append (Stmt.storeAll_laid body _)
  have hmoved₄ : Moved cursor c₄ := Moved.later hmoved (by omega)
  refine .accept nofun (fun hlt => .peek ?_) (.close hthen fun _ => ⟨⟨rfl, rfl⟩, hmoved₄⟩)
  -- An `if` and a block after `else` end in the same node.
  have hend : ∀ others errors last, last.remaining ≤ c₄.remaining → Agrees tokens depth
      ((Stmt.storeAll others).run ((Stmt.storeAll body).run (condition.store.run arena).2).2).2
      last
      (fun _ => do
        push (.ifThenElse (condition.store.run arena).1
            ((Stmt.storeAll body).run (condition.store.run arena).2).1
            ((Stmt.storeAll others).run
              ((Stmt.storeAll body).run (condition.store.run arena).2).2).1)
          ⟨← read (Reader.spanFrom cursor.current.span), errors⟩)
      (do
        return .ifThenElse ⟨← Reader.spanFrom cursor.current.span, errors⟩ condition body others)
      fun s id after later => StmtStored arena s id after later ∧ Moved cursor later := by
    intro others errors last hle
    have hlaid := hthen.append (Stmt.storeAll_laid others _)
    exact .close hlaid fun _ => ⟨⟨rfl, rfl⟩, hmoved₄.later hle⟩
  refine .ite (fun _ => ?_) fun _ => ?_
  · have hnext := cursor.remaining_next
    refine (helse _ _ (by omega)).bind fun other id after c₅ hother h₅ => ?_
    obtain ⟨⟨rfl, rfl⟩, -⟩ := hother
    exact hend [other] _ _ (by omega)
  · exact hblock.bind fun others badElse c₅ h₅ => hend others _ _ (by omega)

/-- Each `else` takes a token, so the reader's bound is never met. -/
theorem conditional_agrees (bound : Nat) (arena : Arena) (cursor : Cursor)
    (hbound : cursor.remaining ≤ bound) :
    Agrees tokens depth arena cursor (conditional inFunction)
      (Grammar.conditional nested reader bound) fun s id after later =>
        StmtStored arena s id after later ∧ Moved cursor later := by
  induction bound generalizing arena cursor with
  | zero => exact conditionalWith_agrees h hblock arena cursor fun _ _ hlt => by omega
  | succ bound ih =>
    exact conditionalWith_agrees h hblock arena cursor fun arena later hlt =>
      ih arena later (by omega)

end Blocks

section Rooms
variable {nested : Nested} {readers : Bool → BlockReader}

/-- Every statement takes a token. -/
theorem statementWith_agrees (h : ReadsNested tokens depth nested)
    (hblock : ∀ inFunction, ReadsBlock tokens depth (block inFunction) (readers inFunction))
    (inFunction : Bool) : ReadsStmt tokens depth (statement inFunction)
      (statementWith nested readers inFunction) := by
  intro arena cursor
  rw [statementWith]
  refine .call (statement.eq_2 inFunction) (.peek ?_)
  cases cursor.current.kind with
  | varWord => exact declaration_agrees h _ _
  | functionWord => exact function_agrees (hblock true) _ _
  | ifWord =>
    exact .remaining (conditional_agrees h (hblock inFunction) _ _ _ (Nat.le_refl _))
  | forWord => exact loop_agrees h (hblock inFunction) _ _
  | printWord => exact print_agrees h _ _
  | identifier => exact named_agrees h _ _
  | returnWord =>
    cases inFunction with
    | true => exact returning_agrees h _ _
    | false => exact strayStatement_agrees _ _
  | _ => exact strayStatement_agrees _ _

/-- Each round takes a token, so the reader's bound is never met. -/
theorem body_agrees {ends : TokenKind → Bool} (hends : ends .endOfInput = true)
    {inFunction : Bool} {reader : Reader (Stmt Mark)}
    (h : ReadsStmt tokens depth (statement inFunction) reader) (bound : Nat) (arena : Arena)
    (cursor : Cursor) (hbound : cursor.remaining ≤ bound) :
    Agrees tokens depth arena cursor (body ends inFunction) (Reader.repeated ends reader bound)
      fun body ids after later =>
        BodyStored arena body ids after later ∧ ends later.current.kind = true := by
  induction bound generalizing arena cursor with
  | zero =>
    refine .of_over fun hover => ?_
    have hend : ends cursor.current.kind = true := by
      rw [hover.kind_eq (Nat.le_zero.1 hbound), hends]
    rw [Reader.repeated]
    refine .call (body.eq_2 ends inFunction) (.aside peek_ok ?_)
    simp only [if_pos hend]
    exact .pure ⟨⟨rfl, rfl⟩, hend⟩
  | succ bound ih =>
    rw [Reader.repeated]
    refine .call (body.eq_2 ends inFunction) (.peek ?_)
    refine .ite (fun hend => .pure ⟨⟨rfl, rfl⟩, hend⟩) fun hgo => ?_
    have hmore : cursor.current.kind ≠ .endOfInput := fun heq => hgo (heq ▸ hends)
    refine (h _ _).bind fun first id after later hfirst _ => ?_
    obtain ⟨⟨rfl, rfl⟩, hmoved⟩ := hfirst
    have hlt := hmoved hmore
    refine (ih _ _ (by omega)).bind fun rest ids after last hrest _ => ?_
    obtain ⟨⟨rfl, rfl⟩, hend⟩ := hrest
    exact .pure ⟨⟨rfl, rfl⟩, hend⟩

/-- A block at a depth that leaves as many levels as the reader is made for. -/
theorem block_agrees (room : Nat) : ∀ depth inFunction, maxNesting - depth = room →
    ReadsBlock tokens depth (block inFunction) (Grammar.block room inFunction) := by
  induction room with
  | zero =>
    intro depth inFunction hdepth arena cursor
    rw [Grammar.block]
    refine .call (block.eq_2 inFunction) ?_
    exact .full (by omega) (.current (.pure ⟨rfl, rfl⟩))
  | succ room ih =>
    intro depth inFunction hdepth arena cursor
    have hroom : depth < maxNesting := by omega
    have hnested : ReadsNested tokens (depth + 1) (Nested.ofRoom room) :=
      nested_agrees room (depth + 1) (by omega)
    have hstatement := statementWith_agrees hnested
      (fun inside => ih (depth + 1) inside (by omega)) inFunction
    rw [Grammar.block]
    refine .call (block.eq_2 inFunction) ?_
    refine .room hroom (.require fun _ noOpening later _ => .remaining ?_)
    refine .deeper hroom (body_agrees rfl hstatement _ _ _ (Nat.le_refl _)) ?_
    intro body ids after last hbody _
    obtain ⟨⟨rfl, rfl⟩, -⟩ := hbody
    exact .require fun _ noClosing past _ => .pure ⟨rfl, rfl⟩

theorem statement_agrees {room : Nat} (hdepth : maxNesting - depth = room) (inFunction : Bool) :
    ReadsStmt tokens depth (statement inFunction) (Grammar.statement room inFunction) :=
  statementWith_agrees (nested_agrees room depth hdepth)
    (fun inside => block_agrees room depth inside hdepth) inFunction

end Rooms
end CatScript.Descent
