import CatScript.Proofs.Code.Layouts

/-! # The layouts of well-typed programs

The code of an expression leaves a value above the layout from which it starts
(`Generation.expression_proceeds`).  The code of a statement starts and ends with nothing on the
stack (`Generation.statement_proceeds`).  So every routine of a well-typed program can be followed
as long as one likes (`Generation.program_steady`). -/
set_option autoImplicit false
namespace CatScript
namespace Generation
open Typing Layout
variable {globals : Globals} {table : Scope Signature} {routine : LinkedRoutine} {count : Nat}
  {rest : List Instruction} {layout : Layout}

theorem coerce_proceeds (source target : Ty)
    (h : Proceeds table routine count rest (.value :: layout)) :
    Proceeds table routine count (coerce source target ++ rest) (.value :: layout) := by
  unfold coerce
  split
  · exact .plain 1 1 rfl rfl h rfl
  · exact .plain 1 1 rfl rfl (.plain 1 1 rfl rfl h rfl) rfl
  · split
    · exact h
    · exact .plain 1 1 rfl rfl h rfl
  · exact h

theorem negation_proceeds (h : Proceeds table routine count rest (.value :: layout)) :
    Proceeds table routine count (negation ++ rest) (.value :: layout) := by
  refine .plain 0 1 rfl rfl (.plain 2 1 rfl rfl h rfl) rfl

theorem related_proceeds (condition : Condition) (label : Label) (hresolves : Resolves routine)
    (hclosed : layout.closed = true) (hsuffix : related condition label ++ rest <:+ routine.code)
    (h : Proceeds table routine count rest (.value :: layout)) :
    Proceeds table routine count (related condition label ++ rest)
      (.value :: .value :: layout) := by
  have hyes := suffix_tail (suffix_tail (suffix_tail hsuffix))
  have hdone := suffix_tail (suffix_tail hyes)
  have hend : Proceeds table routine count (.label (label + 1) :: rest) (.value :: layout) :=
    .plain 0 0 rfl rfl h rfl
  refine .branch 2 rfl rfl hresolves hyes hclosed ?_ ?_
  · exact .plain 0 1 rfl rfl (.jump hresolves hdone rfl hend) rfl
  · exact .plain 0 0 rfl rfl (.plain 0 1 rfl rfl hend rfl) hclosed

theorem isItem_of_ok {symbols : Symbols} {locals : Scopes Local} {item : Expr Info} {ty : Ty}
    (h : HasType symbols item ty) {label label' : Label} {code : List Instruction}
    (hcode : expression globals locals item label = .ok (code, label')) :
    IsItem (code ++ coerce ty .object) := by
  exact ⟨globals, locals, item, label, label', value_iff.2 ⟨ty, code, h.mark, hcode, rfl⟩⟩

theorem listItems_fills {symbols : Symbols} {component : Ty} {locals : Scopes Local} :
    {items : List (Expr Info)} → ItemsFit symbols items component → {label label' : Label} →
    {code : List Instruction} → listItems globals locals items label = .ok (code, label') →
    Fills code
  | [], .nil, label, label', code, hcode => by
    cases items_code hcode
    exact .nil
  | item :: items, .cons hitem _ _ hitems, label, label', code, hcode => by
    cases items_code hcode with
    | cons hty hfirst hmore =>
      cases hitem.mark.symm.trans hty
      have hfills := Fills.cons (isItem_of_ok hitem hfirst) (listItems_fills hitems hmore)
      simpa only [List.cons_append, List.append_assoc, List.nil_append] using hfills

/-- What an expression of a type leaves above a layout. -/
def result (ty : Ty) (layout : Layout) : Layout :=
  if ty = .void then layout else .value :: layout

theorem result_value {ty : Ty} (h : ty ≠ .void) (layout : Layout) :
    result ty layout = .value :: layout :=
  if_neg h

theorem call_proceeds {name : String} {argc : Nat} {returns : Ty}
    (hfound : (table.find? name).isSome = true) (hclosed : layout.closed = true)
    (h : Proceeds table routine count rest (result returns layout)) :
    Proceeds table routine count (.call name argc (returns != .void) :: rest)
      (layout.values (argc + 1)) := by
  have hflow : flow (.call name argc (returns != .void) :: rest) (layout.values (argc + 1)) =
      some (result returns layout) := by
    rw [flow, take?_values]
    by_cases hvoid : returns = .void <;> simp [result, hvoid, values]
  have hsettle : (result returns layout).closed = true := by
    unfold result
    split
    · exact hclosed
    · rfl
  refine .of_successors _ hflow ⟨hfound, ?_⟩ ?_
  · intro below hbelow
    rw [take?_values] at hbelow
    cases hbelow
    exact hclosed
  · intro next hnext
    rw [List.mem_singleton.1 hnext, settle_closed rest hsettle]
    exact h

/-- The code of an expression leaves its value above the layout from which it starts. -/
def Pushes (globals : Globals) (table : Scope Signature) (routine : LinkedRoutine)
    (locals : Scopes Local) (e : Expr Info) (ty : Ty) : Prop :=
  ∀ ⦃label label' : Label⦄ ⦃code : List Instruction⦄,
    expression globals locals e label = .ok (code, label') →
    ∀ ⦃rest : List Instruction⦄, code ++ rest <:+ routine.code →
    ∀ ⦃layout : Layout⦄, layout.closed = true → ∀ ⦃count : Nat⦄,
    Proceeds table routine count rest (result ty layout) →
    Proceeds table routine count (code ++ rest) layout

/-- The code of items goes on with the list that has been begun on top of the layout. -/
def Completes (globals : Globals) (table : Scope Signature) (routine : LinkedRoutine)
    (locals : Scopes Local) (items : List (Expr Info)) : Prop :=
  ∀ ⦃label label' : Label⦄ ⦃code : List Instruction⦄,
    listItems globals locals items label = .ok (code, label') →
    ∀ ⦃rest : List Instruction⦄, code ++ rest <:+ routine.code →
    ∀ ⦃start done : List Instruction⦄, Fills done → start = .newList :: (done ++ (code ++ rest)) →
    rest.head? ≠ some .dup → ∀ ⦃layout : Layout⦄ ⦃count : Nat⦄,
    Proceeds table routine count rest (.value :: layout) →
    Proceeds table routine count (code ++ rest) (settle (code ++ rest) (.begun start :: layout))

def PushesAll (globals : Globals) (table : Scope Signature) (routine : LinkedRoutine)
    (locals : Scopes Local) (args : List (Expr Info)) (params : List Parameter) : Prop :=
  ∀ ⦃label label' : Label⦄ ⦃code : List Instruction⦄,
    arguments globals locals args params label = .ok (code, label') →
    ∀ ⦃rest : List Instruction⦄, code ++ rest <:+ routine.code →
    ∀ ⦃layout : Layout⦄, layout.closed = true → ∀ ⦃count : Nat⦄,
    Proceeds table routine count rest (layout.values args.length) →
    Proceeds table routine count (code ++ rest) layout

section Expressions
variable {types : Scopes Ty} {locals : Scopes Local}

namespace Pushes
variable {info : Info} {left right : Expr Info} {ty tyA tyB : Ty}

theorem identifier {name : String} (hty : ty.Storable) :
    Pushes globals table routine locals (.identifier info name) ty := by
  intro label label' code hcode rest _ layout _ count h
  rw [result_value hty.ne_void] at h
  cases expression_code hcode with
  | inSlot =>
    unfold load
    split
    · exact .plain 0 1 rfl rfl h rfl
    · exact .plain 0 1 rfl rfl h rfl
  | inField => exact .plain 0 1 rfl rfl (.plain 1 1 rfl rfl h rfl) rfl

theorem literal {e : Expr Info} {instruction : Instruction} (hvoid : ty ≠ .void)
    (hcode : expression globals locals e = pure [instruction])
    (hexchange : instruction.exchange? = some (0, 1)) (htarget : instruction.target? = none) :
    Pushes globals table routine locals e ty := by
  intro label label' code hgenerated rest _ layout _ count h
  rw [result_value hvoid] at h
  rw [hcode] at hgenerated
  cases hgenerated
  exact .plain 0 1 hexchange htarget h rfl

theorem list {items : List (Expr Info)} {component : Ty}
    (hitems : ItemsFit ⟨types, table⟩ items component)
    (hcompletes : Completes globals table routine locals items) :
    Pushes globals table routine locals (.list info items) (.list component) := by
  intro label label' code hcode rest hsuffix layout _ count h
  cases expression_code hcode with
  | @list _ _ code _ _ hitemsCode =>
  cases count with
  | zero => trivial
  | succ count =>
    have hends := Proceeds.head_ne_dup h
    have hfills := listItems_fills hitems hitemsCode
    refine .of_successors _ rfl ⟨rest, code, hfills, rfl, hends⟩ ?_
    intro next hnext
    rw [List.mem_singleton.1 hnext]
    exact hcompletes hitemsCode (suffix_tail hsuffix) .nil rfl hends h

theorem parenthesized {inner : Expr Info} (hinner : Pushes globals table routine locals inner ty) :
    Pushes globals table routine locals (.parenthesized info inner) ty := by
  intro label label' code hcode rest hsuffix layout hclosed count h
  cases expression_code hcode with
  | parenthesized hcode => exact hinner hcode hsuffix hclosed h

theorem unary {op : UnaryOp} {operand : Expr Info}
    (hoperand : Pushes globals table routine locals operand (operandType op)) :
    Pushes globals table routine locals (.unary info op operand) (operandType op) := by
  intro label label' code hcode rest hsuffix layout hclosed count h
  cases expression_code hcode with
  | negate hcode =>
    rw [List.append_assoc] at hsuffix ⊢
    exact hoperand hcode hsuffix hclosed (.plain 1 1 rfl rfl h rfl)
  | not hcode =>
    rw [List.append_assoc] at hsuffix ⊢
    exact hoperand hcode hsuffix hclosed (negation_proceeds h)

theorem concat (hleft : Pushes globals table routine locals left tyA)
    (hright : Pushes globals table routine locals right tyB) (hinfo : info.ty = some .string)
    (hmark : left.mark.ty = some tyA) (hmark' : right.mark.ty = some tyB) (ha : tyA ≠ .void)
    (hb : tyB ≠ .void) :
    Pushes globals table routine locals (.binary info .add left right) .string := by
  intro label label' code hcode rest hsuffix layout hclosed count h
  cases expression_code hcode with
  | concat _ htyA htyB hfirst hsecond =>
    cases hmark.symm.trans htyA
    cases hmark'.symm.trans htyB
    simp only [List.append_assoc, List.cons_append, List.nil_append] at hsuffix ⊢
    refine hleft hfirst hsuffix hclosed ?_
    rw [result_value ha]
    refine coerce_proceeds _ _ (.plain 1 1 rfl rfl ?_ rfl)
    refine hright hsecond (suffix_tail (suffix_right (suffix_right hsuffix))) rfl ?_
    rw [result_value hb]
    exact coerce_proceeds _ _ (.plain 1 1 rfl rfl (.plain 2 1 rfl rfl h rfl) rfl)
  | arithmetic hty =>
    obtain ⟨ty, hty, hne⟩ := hty rfl
    cases hinfo.symm.trans hty
    exact absurd rfl hne

theorem arithmetic {op : BinaryOp} (hleft : Pushes globals table routine locals left .int)
    (hright : Pushes globals table routine locals right .int) (hinfo : info.ty = some .int) :
    Pushes globals table routine locals (.binary info op left right) .int := by
  intro label label' code hcode rest hsuffix layout hclosed count h
  cases expression_code hcode with
  | concat hty => cases hinfo.symm.trans hty
  | arithmetic _ hfirst hsecond =>
    simp only [List.append_assoc, List.cons_append, List.nil_append] at hsuffix ⊢
    refine hleft hfirst hsuffix hclosed ?_
    refine hright hsecond (suffix_right hsuffix) rfl ?_
    cases op <;> exact .plain 2 1 rfl rfl h rfl

theorem comparison {op : ComparisonOp} (hresolves : Resolves routine)
    (hleft : Pushes globals table routine locals left .int)
    (hright : Pushes globals table routine locals right .int) :
    Pushes globals table routine locals (.comparison info op left right) .boolean := by
  intro label label' code hcode rest hsuffix layout hclosed count h
  cases expression_code hcode with
  | comparison hfirst hsecond =>
    rw [List.append_assoc, List.append_assoc] at hsuffix ⊢
    refine hleft hfirst hsuffix hclosed ?_
    refine hright hsecond (suffix_right hsuffix) rfl ?_
    exact related_proceeds _ _ hresolves hclosed (suffix_right (suffix_right hsuffix)) h

theorem equality {op : EqualityOp} (hresolves : Resolves routine)
    (hleft : Pushes globals table routine locals left tyA)
    (hright : Pushes globals table routine locals right tyB) (ha : tyA ≠ .void) (hb : tyB ≠ .void) :
    Pushes globals table routine locals (.equality info op left right) .boolean := by
  intro label label' code hcode rest hsuffix layout hclosed count h
  cases expression_code hcode with
  | unboxed _ _ _ hfirst hsecond =>
    rw [List.append_assoc, List.append_assoc] at hsuffix ⊢
    refine hleft hfirst hsuffix hclosed ?_
    rw [result_value ha]
    refine hright hsecond (suffix_right hsuffix) rfl ?_
    rw [result_value hb]
    exact related_proceeds _ _ hresolves hclosed (suffix_right (suffix_right hsuffix)) h
  | boxed _ _ _ hfirst hsecond =>
    simp only [List.append_assoc, List.cons_append] at hsuffix ⊢
    refine hleft hfirst hsuffix hclosed ?_
    rw [result_value ha]
    refine coerce_proceeds _ _ (hright hsecond (suffix_right (suffix_right hsuffix)) rfl ?_)
    rw [result_value hb]
    refine coerce_proceeds _ _ (.plain 2 1 rfl rfl ?_ rfl)
    split
    · exact negation_proceeds h
    · exact h

theorem call {name : String} {args : List (Expr Info)} {params : List Parameter}
    {signature : Signature} (hargs : PushesAll globals table routine locals args params)
    (hentry : globals.functions.find? name = some (params, signature.returns))
    (hfound : (table.find? name).isSome = true) :
    Pushes globals table routine locals (.call info name args) signature.returns := by
  intro label label' code hcode rest hsuffix layout hclosed count h
  cases expression_code hcode with
  | call hentry' hargsCode =>
    cases hentry.symm.trans hentry'
    simp only [List.append_assoc, List.cons_append, List.nil_append] at hsuffix ⊢
    refine .plain 0 1 rfl rfl ?_ rfl
    refine hargs hargsCode (suffix_tail hsuffix) rfl ?_
    rw [show layout.values 1 = .value :: layout from rfl, values_value]
    exact call_proceeds hfound hclosed h

end Pushes

theorem Completes.nil : Completes globals table routine locals [] := by
  intro label label' code hcode rest _ start done _ _ hends layout count h
  cases items_code hcode
  rw [List.nil_append, settle, if_neg hends]
  exact h

/-- What has been done of a list with an item is what had been done and the code of the item. -/
theorem Completes.cons {item : Expr Info} {items : List (Expr Info)} {ty component : Ty}
    (hfirst : Pushes globals table routine locals item ty)
    (hmore : Completes globals table routine locals items)
    (hitem : HasType ⟨types, table⟩ item ty) (hvoid : ty ≠ .void)
    (hitems : ItemsFit ⟨types, table⟩ items component) :
    Completes globals table routine locals (item :: items) := by
  intro label label' code hcode rest hsuffix start done hdone hstart hends layout count h
  cases items_code hcode with
  | @cons _ _ _ _ more _ _ _ hty hfirstCode hmoreCode =>
  cases hitem.mark.symm.trans hty
  simp only [List.append_assoc, List.cons_append, List.nil_append] at hsuffix hstart ⊢
  have hitemCode := isItem_of_ok hitem hfirstCode
  have hfills := listItems_fills hitems hmoreCode
  refine .of_successors (.again :: .begun start :: layout) rfl trivial ?_
  intro next hnext
  rw [List.mem_singleton.1 hnext]
  refine hfirst hfirstCode (suffix_tail hsuffix) rfl ?_
  rw [result_value hvoid]
  refine coerce_proceeds _ _ (.of_successors (.value :: .begun start :: layout) rfl ?_ ?_)
  · intro below other hlayout
    cases hlayout
    refine ⟨done, _, more, rest, hdone, hitemCode, hfills, hends, ?_, rfl⟩
    rw [hstart, List.append_assoc]
  · intro next hnext
    rw [List.mem_singleton.1 hnext]
    refine .of_successors (.begun start :: layout) rfl trivial ?_
    intro next hnext
    rw [List.mem_singleton.1 hnext]
    refine hmore hmoreCode
      (suffix_tail (suffix_tail (suffix_right (suffix_right (suffix_tail hsuffix)))))
      (hdone.append (.cons hitemCode .nil)) ?_ hends h
    rw [hstart]
    simp only [List.append_assoc, List.cons_append, List.nil_append]

theorem PushesAll.nil {params : List Parameter} :
    PushesAll globals table routine locals [] params := by
  intro label label' code hcode rest _ layout _ count h
  cases arguments_code hcode
  exact h

theorem PushesAll.cons {arg : Expr Info} {args : List (Expr Info)} {ty : Ty} {param : Parameter}
    {params : List Parameter} (harg : Pushes globals table routine locals arg ty)
    (hargs : PushesAll globals table routine locals args params) (hvoid : ty ≠ .void) :
    PushesAll globals table routine locals (arg :: args) (param :: params) := by
  intro label label' code hcode rest hsuffix layout hclosed count h
  cases arguments_code hcode with
  | cons _ hfirst hmore =>
    simp only [List.append_assoc] at hsuffix ⊢
    refine harg hfirst hsuffix hclosed ?_
    rw [result_value hvoid]
    refine coerce_proceeds _ _ (hargs hmore (suffix_right (suffix_right hsuffix)) rfl ?_)
    rw [values_value]
    exact h

mutual

theorem expression_proceeds (hserves : Serves globals table) (hresolves : Resolves routine) :
    (e : Expr Info) → {ty : Ty} → HasType ⟨types, table⟩ e ty →
    Pushes globals table routine locals e ty
  | .identifier _ _, _, .identifier _ _ hty => .identifier hty
  | .integer _ _, _, .integer _ => .literal (by simp) (by rw [expression]) rfl rfl
  | .string _ _, _, .string _ => .literal (by simp) (by rw [expression]) rfl rfl
  | .boolean _ _, _, .boolean _ => .literal (by simp) (by rw [expression]) rfl rfl
  | .null _, _, .null _ => .literal (by simp) (by rw [expression]) rfl rfl
  | .list _ items, _, .list _ _ hitems =>
    .list hitems (listItems_proceeds hserves hresolves items hitems)
  | .parenthesized _ inner, _, .parenthesized _ hinner =>
    .parenthesized (expression_proceeds hserves hresolves inner hinner)
  | .unary _ _ operand, _, .unary _ hoperand =>
    .unary (expression_proceeds hserves hresolves operand hoperand)
  | .binary _ _ left right, _, .concat hinfo hleft hright ha hb =>
    .concat (expression_proceeds hserves hresolves left hleft)
      (expression_proceeds hserves hresolves right hright) hinfo hleft.mark hright.mark ha hb
  | .binary _ _ left right, _, .arithmetic hinfo hleft hright =>
    .arithmetic (expression_proceeds hserves hresolves left hleft)
      (expression_proceeds hserves hresolves right hright) hinfo
  | .comparison _ _ left right, _, .comparison _ hleft hright =>
    .comparison hresolves (expression_proceeds hserves hresolves left hleft)
      (expression_proceeds hserves hresolves right hright)
  | .equality _ _ left right, _, .equality _ hleft hright ha hb =>
    .equality hresolves (expression_proceeds hserves hresolves left hleft)
      (expression_proceeds hserves hresolves right hright) ha hb
  | .call _ name args, _, @HasType.call _ _ _ _ signature _ hfunction hargs => by
    obtain ⟨params, hentry, hparams⟩ := hserves name signature hfunction
    rw [← hparams] at hargs
    exact .call (arguments_proceeds hserves hresolves args hargs) hentry
      (Option.isSome_of_eq_some hfunction)

theorem listItems_proceeds (hserves : Serves globals table) (hresolves : Resolves routine) :
    (items : List (Expr Info)) → {component : Ty} → ItemsFit ⟨types, table⟩ items component →
    Completes globals table routine locals items
  | [], _, _ => .nil
  | item :: items, _, .cons hitem hvoid _ hitems =>
    .cons (expression_proceeds hserves hresolves item hitem)
      (listItems_proceeds hserves hresolves items hitems) hitem hvoid hitems

theorem arguments_proceeds (hserves : Serves globals table) (hresolves : Resolves routine) :
    (args : List (Expr Info)) → {params : List Parameter} →
    ArgsFit ⟨types, table⟩ args (params.map Parameter.ty) →
    PushesAll globals table routine locals args params
  | [], _, _ => .nil
  | arg :: args, _ :: _, .cons harg hvoid _ hargs =>
    .cons (expression_proceeds hserves hresolves arg harg)
      (arguments_proceeds hserves hresolves args hargs) hvoid

end
end Expressions

theorem store_proceeds (home : Local) (h : Proceeds table routine count rest []) :
    Proceeds table routine count (store home :: rest) [.value] := by
  unfold store
  split
  · exact .plain 1 0 rfl rfl h rfl
  · exact .plain 1 0 rfl rfl h rfl

/-- The code of a loop leads back to its start, with nothing on the stack. -/
theorem iteration_proceeds (hresolves : Resolves routine) {slot : Slot} {start done : Label}
    {body : List Instruction}
    (hsuffix : iteration slot start done body ++ rest <:+ routine.code)
    (hbody : ∀ {rest : List Instruction} {count : Nat}, body ++ rest <:+ routine.code →
      Proceeds table routine count rest [] → Proceeds table routine count (body ++ rest) [.value])
    (h : Proceeds table routine count rest []) :
    Proceeds table routine count (iteration slot start done body ++ rest) [] := by
  simp only [iteration, List.append_assoc, List.cons_append, List.nil_append] at hsuffix ⊢
  have hitem := suffix_tail (suffix_tail (suffix_tail (suffix_tail (suffix_tail (suffix_tail
    hsuffix)))))
  have hdone := suffix_tail (suffix_right hitem)
  -- The jump back takes an instruction, after which the start needs to be followed for one less.
  induction count with
  | zero => trivial
  | succ count ih =>
    have hback : Proceeds table routine (count + 1) (.jump start :: .label done :: rest) [] := by
      refine ⟨[], rfl, trivial, ?_⟩
      intro next hnext
      simp only [successors, hresolves _ _ hsuffix, Option.toList_some, List.mem_singleton] at hnext
      rw [hnext]
      exact ih h.less
    have hend : Proceeds table routine (count + 1) (.label done :: rest) [] :=
      .plain 0 0 rfl rfl h rfl
    refine .plain 0 0 rfl rfl (.plain 0 1 rfl rfl (.plain 1 1 rfl rfl ?_ rfl) rfl) rfl
    refine .branch 1 rfl rfl hresolves hdone rfl ?_ hend
    exact .plain 0 1 rfl rfl (.plain 1 1 rfl rfl (hbody hitem hback) rfl) rfl

def Clears (globals : Globals) (table : Scope Signature) (routine : LinkedRoutine)
    (returns : Option Ty) (s : Stmt Info) : Prop :=
  ∀ ⦃types : Scopes Ty⦄ ⦃symbols' : Symbols⦄, Checks returns ⟨types, table⟩ s symbols' →
    ∀ ⦃around : Surroundings⦄, Surrounds around ⟨types, table⟩ returns →
    ∀ ⦃frame after : Frame⦄ ⦃code : List Instruction⦄,
    statement globals around s frame = .ok (code, after) →
    ∀ ⦃rest : List Instruction⦄, code ++ rest <:+ routine.code → ∀ ⦃count : Nat⦄,
    Proceeds table routine count rest [] → Proceeds table routine count (code ++ rest) []

def ClearsAll (globals : Globals) (table : Scope Signature) (routine : LinkedRoutine)
    (returns : Option Ty) (body : List (Stmt Info)) : Prop :=
  ∀ ⦃types : Scopes Ty⦄ ⦃symbols' : Symbols⦄, ChecksAll returns ⟨types, table⟩ body symbols' →
    ∀ ⦃around : Surroundings⦄, Surrounds around ⟨types, table⟩ returns →
    ∀ ⦃frame after : Frame⦄ ⦃code : List Instruction⦄,
    statements globals around body frame = .ok (code, after) →
    ∀ ⦃rest : List Instruction⦄, code ++ rest <:+ routine.code → ∀ ⦃count : Nat⦄,
    Proceeds table routine count rest [] → Proceeds table routine count (code ++ rest) []

section Statements
variable {types : Scopes Ty} {returns : Option Ty}

theorem value_proceeds (hserves : Serves globals table) (hresolves : Resolves routine)
    {locals : Scopes Local} {e : Expr Info} {target ty : Ty}
    (he : HasType ⟨types, table⟩ e ty) (hvoid : ty ≠ .void) {label label' : Label}
    {code : List Instruction} (hcode : value globals locals target e label = .ok (code, label'))
    (hsuffix : code ++ rest <:+ routine.code) (hclosed : layout.closed = true)
    (h : Proceeds table routine count rest (.value :: layout)) :
    Proceeds table routine count (code ++ rest) layout := by
  obtain ⟨source, first, -, hfirst, rfl⟩ := value_iff.1 hcode
  rw [List.append_assoc] at hsuffix ⊢
  refine expression_proceeds hserves hresolves e he hfirst hsuffix hclosed ?_
  rw [result_value hvoid]
  exact coerce_proceeds _ _ h

namespace Clears
variable {info : Info} {name : String} {e : Expr Info} {body thenBody elseBody : List (Stmt Info)}

theorem declaration {ty? : Option Ty}
    (hserves : Serves globals table) (hresolves : Resolves routine) :
    Clears globals table routine returns (.declaration info name ty? e) := by
  intro types _ hchecks around haround frame after code hcode rest hsuffix count h
  cases hchecks with
  | declaration _ _ _ he =>
    obtain ⟨ty, hty, hvoid, -⟩ := he
    cases statement_code hcode with
    | declareField _ _ hvalue =>
      simp only [List.cons_append, List.append_assoc, List.nil_append] at hsuffix ⊢
      exact .plain 0 1 rfl rfl (value_proceeds hserves hresolves hty hvoid hvalue
        (suffix_tail hsuffix) rfl (.plain 2 0 rfl rfl h rfl)) rfl
    | declareSlot _ _ hvalue =>
      rw [List.append_assoc] at hsuffix ⊢
      exact value_proceeds hserves hresolves hty hvoid hvalue hsuffix rfl (store_proceeds _ h)

theorem assignment (hserves : Serves globals table) (hresolves : Resolves routine) :
    Clears globals table routine returns (.assignment info name e) := by
  intro types _ hchecks around haround frame after code hcode rest hsuffix count h
  cases hchecks with
  | assignment _ _ _ he =>
    obtain ⟨ty, hty, hvoid, -⟩ := he
    cases statement_code hcode with
    | assignSlot _ hvalue =>
      rw [List.append_assoc] at hsuffix ⊢
      exact value_proceeds hserves hresolves hty hvoid hvalue hsuffix rfl (store_proceeds _ h)
    | assignField _ _ hvalue =>
      simp only [List.cons_append, List.append_assoc, List.nil_append] at hsuffix ⊢
      exact .plain 0 1 rfl rfl (value_proceeds hserves hresolves hty hvoid hvalue
        (suffix_tail hsuffix) rfl (.plain 2 0 rfl rfl h rfl)) rfl

theorem function {params : List Parameter} {ty : Ty} :
    Clears globals table routine returns (.function info name params ty body) := by
  intro types _ _ around _ frame after code hcode rest hsuffix count h
  cases statement_code hcode
  exact h

theorem ifThen (hserves : Serves globals table) (hresolves : Resolves routine)
    (hbody : ClearsAll globals table routine returns thenBody) :
    Clears globals table routine returns (.ifThen info e thenBody) := by
  intro types _ hchecks around haround frame after code hcode rest hsuffix count h
  cases hchecks with
  | ifThen hcondition hthen =>
  cases statement_code hcode with
  | ifThen htest hinner =>
    have hne : (⟨types, table⟩ : Symbols).enter.scopes.nested ≠ [] := List.cons_ne_nil _ _
    simp only [List.append_assoc, List.cons_append, List.nil_append] at hsuffix ⊢
    have hbranch := suffix_tail (suffix_right hsuffix)
    have hotherwise := suffix_tail (suffix_right hbranch)
    have hdone := suffix_tail hotherwise
    have hend : Proceeds table routine count (.label (frame.label + 1) :: rest) [] :=
      .plain 0 0 rfl rfl h rfl
    refine expression_proceeds hserves hresolves e hcondition htest hsuffix rfl ?_
    refine .branch 1 rfl rfl hresolves hotherwise rfl ?_ (.plain 0 0 rfl rfl hend rfl)
    exact hbody hthen (haround.inside hne) hinner hbranch
      (.jump hresolves hdone rfl hend)

theorem ifThenElse (hserves : Serves globals table) (hresolves : Resolves routine)
    (hthenBody : ClearsAll globals table routine returns thenBody)
    (helseBody : ClearsAll globals table routine returns elseBody) :
    Clears globals table routine returns (.ifThenElse info e thenBody elseBody) := by
  intro types _ hchecks around haround frame after code hcode rest hsuffix count h
  cases hchecks with
  | ifThenElse hcondition hthen helse =>
  cases statement_code hcode with
  | ifThenElse htest hfirst hsecond =>
    have hne : (⟨types, table⟩ : Symbols).enter.scopes.nested ≠ [] := List.cons_ne_nil _ _
    simp only [List.append_assoc, List.cons_append, List.nil_append] at hsuffix ⊢
    have hbranch := suffix_tail (suffix_right hsuffix)
    have hotherwise := suffix_tail (suffix_right hbranch)
    have hbranch' := suffix_tail hotherwise
    have hdone := suffix_right hbranch'
    have hend : Proceeds table routine count (.label (frame.label + 1) :: rest) [] :=
      .plain 0 0 rfl rfl h rfl
    have helseCode := helseBody helse (haround.inside hne) hsecond hbranch' hend
    refine expression_proceeds hserves hresolves e hcondition htest hsuffix rfl ?_
    refine .branch 1 rfl rfl hresolves hotherwise rfl ?_ (.plain 0 0 rfl rfl helseCode rfl)
    exact hthenBody hthen (haround.inside hne) hfirst hbranch
      (.jump hresolves hdone rfl hend)

theorem loop (hserves : Serves globals table) (hresolves : Resolves routine)
    (hbody : ClearsAll globals table routine returns body) :
    Clears globals table routine returns (.loop info name e body) := by
  intro types _ hchecks around haround frame after code hcode rest hsuffix count h
  cases hchecks with
  | @loop _ _ _ _ _ _ _ ty hinfo hiterable _ hchecked =>
  cases statement_code hcode with
  | loop _ hitems hinner =>
    have hne : ((⟨types, table⟩ : Symbols).enter.declare name ty).enter.scopes.nested ≠ [] :=
      List.cons_ne_nil _ _
    simp only [List.append_assoc, List.cons_append, List.nil_append] at hsuffix ⊢
    refine expression_proceeds hserves hresolves e hiterable hitems hsuffix rfl ?_
    refine .plain 1 1 rfl rfl (.plain 1 0 rfl rfl ?_ rfl) rfl
    refine iteration_proceeds hresolves (suffix_tail (suffix_tail (suffix_right hsuffix))) ?_ h
    intro rest count hsuffix h
    rw [List.append_assoc, List.cons_append] at hsuffix ⊢
    refine coerce_proceeds _ _ (store_proceeds _ ?_)
    exact hbody hchecked (haround.inside hne) hinner
      (suffix_tail (suffix_right hsuffix)) h

theorem print (hserves : Serves globals table) (hresolves : Resolves routine) :
    Clears globals table routine returns (.print info e) := by
  intro types _ hchecks around haround frame after code hcode rest hsuffix count h
  cases hchecks with
  | print he hvoid =>
  cases statement_code hcode with
  | print hvalue =>
    simp only [List.cons_append, List.append_assoc, List.nil_append] at hsuffix ⊢
    exact .plain 0 1 rfl rfl (value_proceeds hserves hresolves he hvoid hvalue
      (suffix_tail hsuffix) rfl (.plain 2 0 rfl rfl h rfl)) rfl

theorem call (hserves : Serves globals table) (hresolves : Resolves routine) :
    Clears globals table routine returns (.call info e) := by
  intro types _ hchecks around haround frame after code hcode rest hsuffix count h
  cases hchecks with
  | @call _ _ _ _ ty he =>
  cases statement_code hcode with
  | call hty hinner =>
    cases he.mark.symm.trans hty
    by_cases hvoid : ty = .void
    · rw [if_pos hvoid] at hsuffix ⊢
      refine expression_proceeds hserves hresolves e he hinner hsuffix rfl ?_
      rw [hvoid]
      exact h
    · rw [if_neg hvoid, List.append_assoc] at hsuffix ⊢
      refine expression_proceeds hserves hresolves e he hinner hsuffix rfl ?_
      rw [result_value hvoid]
      exact .plain 1 0 rfl rfl h rfl

theorem leave :
    Clears globals table routine returns (.returning info none) := by
  intro types _ _ around _ frame after code hcode rest hsuffix count h
  cases statement_code hcode
  exact .of_successors _ rfl trivial nofun

theorem returning (hserves : Serves globals table) (hresolves : Resolves routine) :
    Clears globals table routine returns (.returning info (some e)) := by
  intro types _ hchecks around haround frame after code hcode rest hsuffix count h
  cases hchecks with
  | returning _ he =>
  cases statement_code hcode with
  | returning _ hvalue =>
    rw [List.append_assoc] at hsuffix ⊢
    obtain ⟨ty, hty, hvoid, -⟩ := he
    refine value_proceeds hserves hresolves hty hvoid hvalue hsuffix rfl ?_
    split
    · exact .of_successors _ rfl trivial nofun
    · exact .of_successors _ rfl trivial nofun

end Clears

theorem ClearsAll.nil : ClearsAll globals table routine returns [] := by
  intro types _ _ around _ frame after code hcode rest _ count h
  cases statements_code hcode
  exact h

theorem ClearsAll.cons {s : Stmt Info} {more : List (Stmt Info)}
    (hs : Clears globals table routine returns s)
    (hmore : ClearsAll globals table routine returns more) :
    ClearsAll globals table routine returns (s :: more) := by
  intro types _ hchecks around haround frame after code hcode rest hsuffix count h
  cases hchecks with
  | @cons _ _ middle _ _ _ hchecked hrest =>
  cases statements_code hcode with
  | cons hfirst hsecond =>
    rw [List.append_assoc] at hsuffix ⊢
    obtain ⟨types', functions⟩ := middle
    obtain rfl : table = functions := hchecked.grows.functions.symm
    exact hs hchecked haround hfirst hsuffix
      (hmore hrest (haround.grows hchecked.grows) hsecond (suffix_right hsuffix) h)

mutual

theorem statement_proceeds (hserves : Serves globals table) (hresolves : Resolves routine) :
    (s : Stmt Info) → Clears globals table routine returns s
  | .declaration .. => .declaration hserves hresolves
  | .assignment .. => .assignment hserves hresolves
  | .function .. => .function
  | .ifThen _ _ thenBody =>
    .ifThen hserves hresolves (statements_proceeds hserves hresolves thenBody)
  | .ifThenElse _ _ thenBody elseBody =>
    .ifThenElse hserves hresolves (statements_proceeds hserves hresolves thenBody)
      (statements_proceeds hserves hresolves elseBody)
  | .loop _ _ _ body => .loop hserves hresolves (statements_proceeds hserves hresolves body)
  | .print .. => .print hserves hresolves
  | .call .. => .call hserves hresolves
  | .returning _ none => .leave
  | .returning _ (some _) => .returning hserves hresolves
  | .broken .. | .bare _ => fun _ _ hchecks => nomatch hchecks

theorem statements_proceeds (hserves : Serves globals table) (hresolves : Resolves routine) :
    (body : List (Stmt Info)) → ClearsAll globals table routine returns body
  | [] => .nil
  | s :: more =>
    .cons (statement_proceeds hserves hresolves s) (statements_proceeds hserves hresolves more)

end
end Statements
end Generation

/-- Every routine that is called can be followed as long as one likes. -/
structure LinkedProgram.Steady (table : Scope Signature) (program : LinkedProgram) : Prop where
  main : ∀ count, Proceeds table program.main count program.main.code []
  routines : ∀ name routine, (table.find? name).isSome = true →
    program.routines.find? name = some routine →
    ∀ count, Proceeds table routine count routine.code []

namespace Generation
open Typing
variable {globals : Globals} {table : Scope Signature}

theorem returnVoid_proceeds (routine : LinkedRoutine) (count : Nat) :
    Proceeds table routine count [.returnVoid] [] :=
  .of_successors _ rfl trivial nofun

theorem implements_proceeds {definition : Definition} {signature : Signature}
    {routine : LinkedRoutine} (hserves : Serves globals table)
    (h : Implements globals table definition signature routine) (count : Nat) :
    Proceeds table routine count routine.code [] := by
  obtain ⟨outermost, after, frame, code, -, hbody, ⟨hcode, -⟩, hlinks⟩ := h.code
  have hsurrounds : Surrounds (.ofFunction definition.returns)
      ⟨⟨outermost, [parameterScope definition.params]⟩, table⟩ (some definition.returns) :=
    ⟨rfl, rfl⟩
  have hlinked := hlinks.code
  rw [routineOf] at hlinked
  by_cases hvoid : definition.returns = .void
  · have hlinked : routine.code = code ++ [.returnVoid] := hlinked.trans (if_pos hvoid)
    have h := statements_proceeds hserves hlinks.resolves definition.body hbody hsurrounds hcode
      (hlinked ▸ List.suffix_refl _) (returnVoid_proceeds routine count)
    rw [hlinked]
    exact h
  · have hlinked : routine.code = code ++ [] :=
      (hlinked.trans (if_neg hvoid)).trans (List.append_nil code).symm
    have hend : Proceeds table routine count [] [] := by cases count <;> trivial
    have h := statements_proceeds hserves hlinks.resolves definition.body hbody hsurrounds hcode
      (hlinked ▸ List.suffix_refl _) hend
    rw [hlinked]
    exact h

theorem printing_proceeds {routine : LinkedRoutine} {ty : Ty} {count : Nat}
    {rest : List Instruction} (h : Proceeds table routine count rest []) :
    Proceeds table routine count (printing ty ++ rest) (result ty [.value]) := by
  have hprint : Proceeds table routine count (.invoke .print :: rest) [.value, .value] :=
    .plain 2 0 rfl rfl h rfl
  unfold printing result
  by_cases hvoid : ty = .void
  · rw [if_pos hvoid, if_pos hvoid]
    exact .plain 0 1 rfl rfl hprint rfl
  · rw [if_neg hvoid, if_neg hvoid, List.append_assoc]
    exact coerce_proceeds _ _ hprint

/-- The code of a well-typed program can be followed as long as one likes. -/
theorem program_steady {p : Program Info} (h : WellTyped p) :
    ∃ executable linked table, program (.ok none) p = .ok executable ∧
      executable.link = .ok linked ∧ linked.Steady table := by
  cases h with
  | @expression mark body ty hbody =>
    obtain ⟨executable, linked, code, hexecutable, hlinked, ⟨label, hcode⟩, hmain⟩ :=
      expression_links (.ok none) hbody
    refine ⟨executable, linked, [], hexecutable, hlinked, fun count => ?_, fun _ _ h => (nomatch h)⟩
    have hserves : Serves ⟨[], []⟩ [] := fun _ _ h => (nomatch h)
    have hlinkedCode : linked.main.code = .loadRef 0 :: (code ++ (printing ty ++ [.returnVoid])) := by
      rw [hmain.code]
      simp [mainRoutine]
    rw [hlinkedCode]
    refine .plain 0 1 rfl rfl ?_ rfl
    refine expression_proceeds hserves hmain.resolves body hbody hcode ?_ rfl
      (printing_proceeds (returnVoid_proceeds _ count))
    rw [hlinkedCode]
    exact List.suffix_cons _ _
  | @statements mark body after hnames hbody =>
    obtain ⟨executable, linked, globals, frame, code, hexecutable, hlinked, hlink⟩ :=
      statements_links hnames hbody
    obtain ⟨symbols, hsymbols⟩ : ∃ symbols, initialSymbols body = symbols := ⟨_, rfl⟩
    obtain ⟨scopes, table⟩ := symbols
    obtain rfl : scopes = .empty :=
      (congrArg Symbols.scopes hsymbols).symm.trans (register_scopes .empty body)
    have hcarries := hlink.carries
    rw [hsymbols] at hbody hcarries
    refine ⟨executable, linked, table, hexecutable, hlinked, fun count => ?_, ?_⟩
    · have hsurrounds : Surrounds (.ofProgram (.ok none)) ⟨.empty, table⟩ none := ⟨rfl, rfl⟩
      have hmain : linked.main.code = code ++ [.returnVoid] := hlink.main.code
      rw [hmain]
      exact statements_proceeds hcarries.serves hlink.main.resolves body hbody hsurrounds
        hlink.statements (hmain ▸ List.suffix_refl _) (returnVoid_proceeds _ count)
    · intro name routine hname hroutine count
      obtain ⟨signature, hsignature⟩ := Option.isSome_iff_exists.1 hname
      obtain ⟨definition, found, -, hfound, himplements⟩ := hcarries.calls name signature hsignature
      cases hfound.symm.trans hroutine
      exact implements_proceeds hcarries.serves himplements count

end Generation
end CatScript
