import CatScript.Code.Generation

/-! # The code of a node

Which code a node has, with one rule for each way through (`Generation.ExpressionCode`,
`Generation.StatementCode`).  Generating gives the code of a rule and no other
(`Generation.expression_code`, `Generation.statement_code`), so what holds of generated code is read
off the rules, and a node has code wherever a rule applies. -/
set_option autoImplicit false
namespace CatScript
namespace Generation

section Monad
variable {σ ε α β : Type}

theorem bind_ok {m : StateT σ (Except ε) α} {f : α → StateT σ (Except ε) β} {s s' : σ} {a : α}
    (h : m s = .ok (a, s')) : (m >>= f) s = f a s' := by
  simp only [bind, StateT.bind, h, Except.bind]

theorem ok_of_bind {m : StateT σ (Except ε) α} {f : α → StateT σ (Except ε) β} {s : σ}
    {result : β × σ} (h : (m >>= f) s = .ok result) :
    ∃ a s', m s = .ok (a, s') ∧ f a s' = .ok result := by
  simp only [bind, StateT.bind] at h
  cases hm : m s with
  | error cause => rw [hm] at h; cases h
  | ok pair => rw [hm] at h; exact ⟨pair.1, pair.2, rfl, h⟩

theorem lift_ok {σ α : Type} {m : Except CompileStop α} {a : α} (h : m = .ok a) :
    (liftM m : StateT σ (Except CompileStop) α) = pure a := by
  subst h
  rfl

theorem ok_of_lift {σ α β : Type} {m : Except CompileStop α}
    {f : α → StateT σ (Except CompileStop) β} {s : σ} {result : β × σ}
    (h : (liftM m >>= f) s = .ok result) : ∃ a, m = .ok a ∧ f a s = .ok result := by
  cases m with
  | error stop => cases h
  | ok a => exact ⟨a, rfl, h⟩

end Monad

theorem typeOf_eq {info : Info} {ty : Ty} (h : info.ty = some ty) : typeOf info = .ok ty := by
  rw [typeOf, h]

/-- Generating goes on after asking for a type only if the type is known. -/
theorem ok_of_typeOf {σ β : Type} {info : Info} {f : Ty → StateT σ (Except CompileStop) β} {s : σ}
    {result : β × σ} (h : (liftM (typeOf info) >>= f) s = .ok result) :
    ∃ ty, info.ty = some ty ∧ f ty s = .ok result := by
  obtain ⟨ty, hty, h⟩ := ok_of_lift h
  cases hinfo : info.ty with
  | none =>
    rw [typeOf, hinfo] at hty
    cases hty
  | some other =>
    rw [typeOf_eq hinfo] at hty
    cases hty
    exact ⟨ty, rfl, h⟩

section Expressions
variable {globals : Globals} {locals : Scopes Local} {first middle last : Label}
  {a b code : List Instruction}

/-- Whether two values are compared unboxed. -/
def direct (a b : Ty) : Bool :=
  a.isPrimitive && a == b

/-- The code that leaves whether two integers are so related, with the label and the one after it. -/
def related (condition : Condition) (label : Label) : List Instruction :=
  [.jumpIf condition label, .pushInt 0, .jump (label + 1), .label label, .pushInt 1,
    .label (label + 1)]

theorem relation_ok (condition : Condition) (label : Label) :
    relation condition label = .ok (related condition label, label + 2) := rfl

/-- The code of an expression, with the next free label before it and after it. -/
inductive ExpressionCode (globals : Globals) (locals : Scopes Local) :
    Expr Info → Label → List Instruction → Label → Prop where
  | inSlot {info : Info} {name : String} {home : Local} {first : Label}
      (hhome : locals.find? name = some home) :
      ExpressionCode globals locals (.identifier info name) first [load home] first
  | inField {info : Info} {name : String} {ty : Ty} {first : Label}
      (hnone : locals.find? name = none) (hfield : globals.fields.find? name = some ty) :
      ExpressionCode globals locals (.identifier info name) first
        [.loadRef 0, .getField name (.of ty)] first
  | integer {info : Info} {value : Int64} {first : Label} :
      ExpressionCode globals locals (.integer info value) first [.pushInt value] first
  | string {info : Info} {text : String} {first : Label} :
      ExpressionCode globals locals (.string info text) first [.pushString text] first
  | boolean {info : Info} {value : Bool} {first : Label} :
      ExpressionCode globals locals (.boolean info value) first
        [.pushInt (if value then 1 else 0)] first
  | null {info : Info} {first : Label} :
      ExpressionCode globals locals (.null info) first [.pushNull] first
  | list {info : Info} {items : List (Expr Info)} {code : List Instruction} {first last : Label}
      (hitems : listItems globals locals items first = .ok (code, last)) :
      ExpressionCode globals locals (.list info items) first (.newList :: code) last
  | parenthesized {info : Info} {inner : Expr Info} {code : List Instruction} {first last : Label}
      (hinner : expression globals locals inner first = .ok (code, last)) :
      ExpressionCode globals locals (.parenthesized info inner) first code last
  | negate {info : Info} {operand : Expr Info} {code : List Instruction} {first last : Label}
      (hoperand : expression globals locals operand first = .ok (code, last)) :
      ExpressionCode globals locals (.unary info .negate operand) first (code ++ [.neg]) last
  | not {info : Info} {operand : Expr Info} {code : List Instruction} {first last : Label}
      (hoperand : expression globals locals operand first = .ok (code, last)) :
      ExpressionCode globals locals (.unary info .not operand) first (code ++ negation) last
  | concat {info : Info} {left right : Expr Info} {tyA tyB : Ty} {a b : List Instruction}
      {first middle last : Label} (hinfo : info.ty = some .string)
      (hleft : left.mark.ty = some tyA) (hright : right.mark.ty = some tyB)
      (ha : expression globals locals left first = .ok (a, middle))
      (hb : expression globals locals right middle = .ok (b, last)) :
      ExpressionCode globals locals (.binary info .add left right) first
        (a ++ coerce tyA .object ++ .invoke .stringValueOf :: (b ++ coerce tyB .object) ++
          [.invoke .stringValueOf, .invoke .stringConcat]) last
  | arithmetic {info : Info} {op : BinaryOp} {left right : Expr Info} {a b : List Instruction}
      {first middle last : Label} (hinfo : op = .add → ∃ ty, info.ty = some ty ∧ ty ≠ .string)
      (ha : expression globals locals left first = .ok (a, middle))
      (hb : expression globals locals right middle = .ok (b, last)) :
      ExpressionCode globals locals (.binary info op left right) first
        (a ++ b ++ [Generation.arithmetic op]) last
  | comparison {info : Info} {op : ComparisonOp} {left right : Expr Info} {a b : List Instruction}
      {first middle last : Label} (ha : expression globals locals left first = .ok (a, middle))
      (hb : expression globals locals right middle = .ok (b, last)) :
      ExpressionCode globals locals (.comparison info op left right) first
        (a ++ b ++ related (ordering op) last) (last + 2)
  | unboxed {info : Info} {op : EqualityOp} {left right : Expr Info} {tyA tyB : Ty}
      {a b : List Instruction} {first middle last : Label} (hleft : left.mark.ty = some tyA)
      (hright : right.mark.ty = some tyB) (hdirect : direct tyA tyB = true)
      (ha : expression globals locals left first = .ok (a, middle))
      (hb : expression globals locals right middle = .ok (b, last)) :
      ExpressionCode globals locals (.equality info op left right) first
        (a ++ b ++ related (sameness op) last) (last + 2)
  | boxed {info : Info} {op : EqualityOp} {left right : Expr Info} {tyA tyB : Ty}
      {a b : List Instruction} {first middle last : Label} (hleft : left.mark.ty = some tyA)
      (hright : right.mark.ty = some tyB) (hdirect : direct tyA tyB = false)
      (ha : expression globals locals left first = .ok (a, middle))
      (hb : expression globals locals right middle = .ok (b, last)) :
      ExpressionCode globals locals (.equality info op left right) first
        (a ++ coerce tyA .object ++ b ++ coerce tyB .object ++ .invoke .objectsEquals ::
          if op = .notEqual then negation else []) last
  | call {info : Info} {name : String} {args : List (Expr Info)} {params : List Parameter}
      {returns : Ty} {code : List Instruction} {first last : Label}
      (hentry : globals.functions.find? name = some (params, returns))
      (hargs : arguments globals locals args params first = .ok (code, last)) :
      ExpressionCode globals locals (.call info name args) first
        (.loadRef 0 :: code ++ [.call name args.length (returns != .void)]) last

section Binary
variable {info : Info} {left right : Expr Info}

theorem expression_concat {tyA tyB : Ty} (hinfo : info.ty = some .string)
    (hleft : left.mark.ty = some tyA) (hright : right.mark.ty = some tyB) :
    expression globals locals (.binary info .add left right) = (do
      let a ← expression globals locals left
      let b ← expression globals locals right
      return a ++ coerce tyA .object ++ .invoke .stringValueOf :: (b ++ coerce tyB .object) ++
        [.invoke .stringValueOf, .invoke .stringConcat]) := by
  rw [expression]
  simp only [lift_ok (typeOf_eq hinfo), lift_ok (typeOf_eq hleft), lift_ok (typeOf_eq hright),
    if_true, pure_bind, beq_self_eq_true]

theorem expression_arithmetic {op : BinaryOp}
    (hinfo : op = .add → ∃ ty, info.ty = some ty ∧ ty ≠ .string) :
    expression globals locals (.binary info op left right) = (do
      let a ← expression globals locals left
      let b ← expression globals locals right
      return a ++ b ++ [arithmetic op]) := by
  rw [expression]
  by_cases hop : op = .add
  · obtain ⟨ty, hty, hne⟩ := hinfo hop
    simp only [lift_ok (typeOf_eq hty), if_pos hop, pure_bind, beq_eq_false_iff_ne.2 hne]
    rfl
  · simp only [if_neg hop, pure_bind]
    rfl

theorem expression_equality {op : EqualityOp} {tyA tyB : Ty}
    (hleft : left.mark.ty = some tyA) (hright : right.mark.ty = some tyB) :
    expression globals locals (.equality info op left right) = (do
      let a ← expression globals locals left
      let b ← expression globals locals right
      if direct tyA tyB then return a ++ b ++ (← relation (sameness op))
      else return a ++ coerce tyA .object ++ b ++ coerce tyB .object ++ .invoke .objectsEquals ::
        if op = .notEqual then negation else []) := by
  have hturned : ∀ same : List Instruction,
      (if op = .notEqual then same ++ [.invoke .objectsEquals] ++ negation
        else same ++ [.invoke .objectsEquals]) =
      same ++ .invoke .objectsEquals :: if op = .notEqual then negation else [] := by
    intro same
    split <;> simp
  rw [expression]
  simp only [lift_ok (typeOf_eq hleft), lift_ok (typeOf_eq hright), pure_bind, direct, hturned]
  by_cases h : tyA.isPrimitive = true
  · simp only [h, if_true, Bool.true_and]
  · simp only [Bool.not_eq_true] at h
    simp only [h, Bool.false_eq_true, if_false, Bool.false_and]

end Binary

section Types
variable {info : Info} {left right : Expr Info}

/-- A sum has code only where its type is known. -/
theorem ty_of_sum
    (h : expression globals locals (.binary info .add left right) first = .ok (code, last)) :
    ∃ ty, info.ty = some ty := by
  rw [expression, if_pos rfl] at h
  obtain ⟨ty, hty, -⟩ := ok_of_typeOf h
  exact ⟨ty, hty⟩

theorem tys_of_concat (hinfo : info.ty = some .string)
    (h : expression globals locals (.binary info .add left right) first = .ok (code, last)) :
    ∃ tyA tyB, left.mark.ty = some tyA ∧ right.mark.ty = some tyB := by
  rw [expression] at h
  simp only [lift_ok (typeOf_eq hinfo), if_true, pure_bind, beq_self_eq_true] at h
  obtain ⟨a, middle, -, h⟩ := ok_of_bind h
  obtain ⟨tyA, hleft, h⟩ := ok_of_typeOf h
  obtain ⟨b, last, -, h⟩ := ok_of_bind h
  obtain ⟨tyB, hright, -⟩ := ok_of_typeOf h
  exact ⟨tyA, tyB, hleft, hright⟩

theorem tys_of_equality {op : EqualityOp}
    (h : expression globals locals (.equality info op left right) first = .ok (code, last)) :
    ∃ tyA tyB, left.mark.ty = some tyA ∧ right.mark.ty = some tyB := by
  rw [expression] at h
  obtain ⟨tyA, hleft, h⟩ := ok_of_typeOf h
  by_cases hprimitive : tyA.isPrimitive = true
  · rw [if_pos hprimitive] at h
    obtain ⟨tyB, hright, -⟩ := ok_of_typeOf h
    exact ⟨tyA, tyB, hleft, hright⟩
  · simp only [if_neg hprimitive, pure_bind, Bool.false_eq_true, if_false] at h
    obtain ⟨a, middle, -, h⟩ := ok_of_bind h
    obtain ⟨b, last, -, h⟩ := ok_of_bind h
    obtain ⟨tyB, hright, -⟩ := ok_of_typeOf h
    exact ⟨tyA, tyB, hleft, hright⟩

end Types

theorem binary_code {info : Info} {op : BinaryOp} {left right : Expr Info}
    (h : expression globals locals (.binary info op left right) first = .ok (code, last)) :
    ExpressionCode globals locals (.binary info op left right) first code last := by
  by_cases hjoins : op = .add ∧ info.ty = some .string
  · obtain ⟨rfl, hinfo⟩ := hjoins
    obtain ⟨tyA, tyB, hleft, hright⟩ := tys_of_concat hinfo h
    rw [expression_concat hinfo hleft hright] at h
    obtain ⟨a, middle, ha, h⟩ := ok_of_bind h
    obtain ⟨b, last, hb, h⟩ := ok_of_bind h
    cases h
    exact .concat hinfo hleft hright ha hb
  · have hinfo : op = .add → ∃ ty, info.ty = some ty ∧ ty ≠ .string := by
      rintro rfl
      obtain ⟨ty, hty⟩ := ty_of_sum h
      exact ⟨ty, hty, fun heq => hjoins ⟨rfl, heq ▸ hty⟩⟩
    rw [expression_arithmetic hinfo] at h
    obtain ⟨a, middle, ha, h⟩ := ok_of_bind h
    obtain ⟨b, last, hb, h⟩ := ok_of_bind h
    cases h
    exact .arithmetic hinfo ha hb

/-- Operands of one primitive type are compared as the stack has them, all others as objects. -/
theorem equality_code {info : Info} {op : EqualityOp} {left right : Expr Info}
    (h : expression globals locals (.equality info op left right) first = .ok (code, last)) :
    ExpressionCode globals locals (.equality info op left right) first code last := by
  obtain ⟨tyA, tyB, hleft, hright⟩ := tys_of_equality h
  rw [expression_equality hleft hright] at h
  obtain ⟨a, middle, ha, h⟩ := ok_of_bind h
  obtain ⟨b, before, hb, h⟩ := ok_of_bind h
  cases hdirect : direct tyA tyB with
  | true =>
    rw [hdirect, if_pos rfl, bind_ok (relation_ok _ before)] at h
    cases h
    exact .unboxed hleft hright hdirect ha hb
  | false =>
    rw [hdirect, if_neg Bool.false_ne_true] at h
    cases h
    exact .boxed hleft hright hdirect ha hb

theorem expression_code {e : Expr Info}
    (h : expression globals locals e first = .ok (code, last)) :
    ExpressionCode globals locals e first code last := by
  cases e with
  | identifier info name =>
    rw [expression] at h
    cases hhome : locals.find? name with
    | some home =>
      rw [hhome] at h
      cases h
      exact .inSlot hhome
    | none =>
      cases hfield : globals.fields.find? name with
      | some ty =>
        rw [hhome, hfield] at h
        cases h
        exact .inField hhome hfield
      | none =>
        rw [hhome, hfield] at h
        cases h
  | integer =>
    rw [expression] at h
    cases h
    exact .integer
  | string =>
    rw [expression] at h
    cases h
    exact .string
  | boolean =>
    rw [expression] at h
    cases h
    exact .boolean
  | null =>
    rw [expression] at h
    cases h
    exact .null
  | list =>
    rw [expression] at h
    obtain ⟨code, last, hitems, h⟩ := ok_of_bind h
    cases h
    exact .list hitems
  | parenthesized =>
    rw [expression] at h
    exact .parenthesized h
  | unary info op =>
    rw [expression] at h
    obtain ⟨code, last, hoperand, h⟩ := ok_of_bind h
    cases op with
    | negate =>
      cases h
      exact .negate hoperand
    | not =>
      cases h
      exact .not hoperand
  | binary => exact binary_code h
  | comparison =>
    rw [expression] at h
    obtain ⟨a, middle, ha, h⟩ := ok_of_bind h
    obtain ⟨b, before, hb, h⟩ := ok_of_bind h
    rw [bind_ok (relation_ok _ before)] at h
    cases h
    exact .comparison ha hb
  | equality => exact equality_code h
  | call info name =>
    rw [expression] at h
    cases hentry : globals.functions.find? name with
    | none =>
      rw [hentry] at h
      cases h
    | some entry =>
      rw [hentry] at h
      obtain ⟨code, last, hargs, h⟩ := ok_of_bind h
      cases h
      exact .call hentry hargs
  | broken =>
    rw [expression] at h
    cases h

theorem ExpressionCode.ok {e : Expr Info} (h : ExpressionCode globals locals e first code last) :
    expression globals locals e first = .ok (code, last) := by
  cases h with
  | inSlot hhome =>
    rw [expression, hhome]
    rfl
  | inField hnone hfield =>
    rw [expression, hnone, hfield]
    rfl
  | integer | string | boolean | null =>
    rw [expression]
    rfl
  | list hitems =>
    rw [expression, bind_ok hitems]
    rfl
  | parenthesized hinner =>
    rw [expression]
    exact hinner
  | negate hoperand | not hoperand =>
    rw [expression, bind_ok hoperand]
    rfl
  | concat hinfo hleft hright ha hb =>
    rw [expression_concat hinfo hleft hright, bind_ok ha, bind_ok hb]
    rfl
  | arithmetic hinfo ha hb =>
    rw [expression_arithmetic hinfo, bind_ok ha, bind_ok hb]
    rfl
  | comparison ha hb =>
    rw [expression, bind_ok ha, bind_ok hb, bind_ok (relation_ok _ _)]
    rfl
  | unboxed hleft hright hdirect ha hb =>
    rw [expression_equality hleft hright, bind_ok ha, bind_ok hb, hdirect, if_pos rfl,
      bind_ok (relation_ok _ _)]
    rfl
  | boxed hleft hright hdirect ha hb =>
    rw [expression_equality hleft hright, bind_ok ha, bind_ok hb, hdirect,
      if_neg Bool.false_ne_true]
    rfl
  | call hentry hargs =>
    rw [expression, hentry]
    dsimp only
    rw [bind_ok hargs]
    rfl

inductive ItemsCode (globals : Globals) (locals : Scopes Local) :
    List (Expr Info) → Label → List Instruction → Label → Prop where
  | nil {first : Label} : ItemsCode globals locals [] first [] first
  | cons {item : Expr Info} {rest : List (Expr Info)} {ty : Ty} {a b : List Instruction}
      {first middle last : Label} (hty : item.mark.ty = some ty)
      (ha : expression globals locals item first = .ok (a, middle))
      (hb : listItems globals locals rest middle = .ok (b, last)) :
      ItemsCode globals locals (item :: rest) first
        (.dup :: a ++ coerce ty .object ++ [.invoke .listAdd, .pop] ++ b) last

theorem items_code {items : List (Expr Info)}
    (h : listItems globals locals items first = .ok (code, last)) :
    ItemsCode globals locals items first code last := by
  cases items with
  | nil =>
    rw [listItems] at h
    cases h
    exact .nil
  | cons item rest =>
    rw [listItems] at h
    obtain ⟨a, middle, ha, h⟩ := ok_of_bind h
    obtain ⟨ty, hty, h⟩ := ok_of_typeOf h
    obtain ⟨b, last, hb, h⟩ := ok_of_bind h
    cases h
    exact .cons hty ha hb

theorem ItemsCode.ok {items : List (Expr Info)} (h : ItemsCode globals locals items first code last) :
    listItems globals locals items first = .ok (code, last) := by
  cases h with
  | nil =>
    rw [listItems]
    rfl
  | cons hty ha hb =>
    rw [listItems, bind_ok ha, lift_ok (typeOf_eq hty), pure_bind, bind_ok hb]
    rfl

inductive ArgumentsCode (globals : Globals) (locals : Scopes Local) :
    List (Expr Info) → List Parameter → Label → List Instruction → Label → Prop where
  | nil {params : List Parameter} {first : Label} :
      ArgumentsCode globals locals [] params first [] first
  | beyond {arg : Expr Info} {args : List (Expr Info)} {first : Label} :
      ArgumentsCode globals locals (arg :: args) [] first [] first
  | cons {arg : Expr Info} {args : List (Expr Info)} {param : Parameter} {params : List Parameter}
      {ty : Ty} {a b : List Instruction} {first middle last : Label}
      (hty : arg.mark.ty = some ty) (ha : expression globals locals arg first = .ok (a, middle))
      (hb : arguments globals locals args params middle = .ok (b, last)) :
      ArgumentsCode globals locals (arg :: args) (param :: params) first
        (a ++ coerce ty param.ty ++ b) last

theorem arguments_code {args : List (Expr Info)} {params : List Parameter}
    (h : arguments globals locals args params first = .ok (code, last)) :
    ArgumentsCode globals locals args params first code last := by
  cases args with
  | nil =>
    simp only [arguments] at h
    cases h
    exact .nil
  | cons arg args =>
    cases params with
    | nil =>
      simp only [arguments] at h
      cases h
      exact .beyond
    | cons param params =>
      rw [arguments] at h
      obtain ⟨a, middle, ha, h⟩ := ok_of_bind h
      obtain ⟨ty, hty, h⟩ := ok_of_typeOf h
      obtain ⟨b, last, hb, h⟩ := ok_of_bind h
      cases h
      exact .cons hty ha hb

theorem ArgumentsCode.ok {args : List (Expr Info)} {params : List Parameter}
    (h : ArgumentsCode globals locals args params first code last) :
    arguments globals locals args params first = .ok (code, last) := by
  cases h with
  | nil | beyond =>
    simp only [arguments]
    rfl
  | cons hty ha hb =>
    rw [arguments, bind_ok ha, lift_ok (typeOf_eq hty), pure_bind, bind_ok hb]
    rfl

theorem value_iff {target : Ty} {e : Expr Info} :
    value globals locals target e first = .ok (code, last) ↔ ∃ ty inner, e.mark.ty = some ty ∧
      expression globals locals e first = .ok (inner, last) ∧ code = inner ++ coerce ty target := by
  constructor
  · intro h
    rw [value] at h
    obtain ⟨inner, last, hinner, h⟩ := ok_of_bind h
    obtain ⟨ty, hty, h⟩ := ok_of_typeOf h
    cases h
    exact ⟨ty, inner, hty, hinner, rfl⟩
  · rintro ⟨ty, inner, hty, hinner, rfl⟩
    rw [value, bind_ok hinner, lift_ok (typeOf_eq hty)]
    rfl

theorem ok_of_value {target ty : Ty} {e : Expr Info} (hmark : e.mark.ty = some ty)
    (h : value globals locals target e first = .ok (code, last)) :
    ∃ inner, expression globals locals e first = .ok (inner, last) ∧
      code = inner ++ coerce ty target := by
  obtain ⟨other, inner, hty, hinner, rfl⟩ := value_iff.1 h
  cases hmark.symm.trans hty
  exact ⟨inner, hinner, rfl⟩

end Expressions

section Statements
variable {globals : Globals} {around : Surroundings} {frame after : Frame}
  {code : List Instruction}

theorem withLocals_ok {α : Type} {generate : Scopes Local → Labels α} {a : α} {label : Label}
    (h : generate frame.locals frame.label = .ok (a, label)) :
    withLocals generate frame = .ok (a, { frame with label }) := by
  simp only [withLocals, StateT.run, h]
  rfl

theorem ok_of_withLocals {α : Type} {generate : Scopes Local → Labels α} {result : α × Frame}
    (h : withLocals generate frame = .ok result) :
    ∃ label, generate frame.locals frame.label = .ok (result.1, label) ∧
      result.2 = { frame with label } := by
  simp only [withLocals, StateT.run] at h
  cases hrun : generate frame.locals frame.label with
  | error cause => rw [hrun] at h; cases h
  | ok pair => rw [hrun] at h; cases h; exact ⟨pair.2, rfl, rfl⟩

theorem withLocals_freshLabel (frame : Frame) :
    withLocals (fun _ => freshLabel) frame =
      .ok (frame.label, { frame with label := frame.label + 1 }) := rfl

theorem freshSlot_ok (frame : Frame) :
    freshSlot frame = .ok (frame.slot, { frame with slot := frame.slot + 1 }) := rfl

theorem declareLocal_ok (name : String) (ty : Ty) (frame : Frame) :
    declareLocal name ty frame = .ok (⟨frame.slot, ty⟩,
      { frame with
        slot := frame.slot + 1
        locals := frame.locals.declare name ⟨frame.slot, ty⟩ }) := rfl

theorem inScope_ok {α : Type} {generate : Frames α} {a : α}
    (h : generate { frame with locals := frame.locals.push } = .ok (a, after)) :
    inScope generate frame = .ok (a, { after with locals := after.locals.pop }) := by
  have hrun : inScope generate frame =
      (generate { frame with locals := frame.locals.push } >>= fun pair =>
        .ok (pair.1, { pair.2 with locals := pair.2.locals.pop })) := rfl
  rw [hrun, h]
  rfl

theorem ok_of_inScope {α : Type} {generate : Frames α} {result : α × Frame}
    (h : inScope generate frame = .ok result) :
    ∃ after, generate { frame with locals := frame.locals.push } = .ok (result.1, after) ∧
      result.2 = { after with locals := after.locals.pop } := by
  have hrun : inScope generate frame =
      (generate { frame with locals := frame.locals.push } >>= fun pair =>
        .ok (pair.1, { pair.2 with locals := pair.2.locals.pop })) := rfl
  rw [hrun] at h
  cases hgenerate : generate { frame with locals := frame.locals.push } with
  | error cause => rw [hgenerate] at h; cases h
  | ok pair => rw [hgenerate] at h; cases h; exact ⟨pair.2, rfl, rfl⟩

def itemFrame (frame : Frame) (name : String) (ty : Ty) : Frame :=
  ⟨frame.label, frame.slot + 1, frame.locals.push.declare name ⟨frame.slot, ty⟩⟩

def forBody (frame : Frame) (name : String) (ty : Ty) : Frame :=
  { itemFrame frame name ty with locals := (itemFrame frame name ty).locals.push }

inductive StatementCode (globals : Globals) (around : Surroundings) :
    Stmt Info → Frame → List Instruction → Frame → Prop where
  | declareField {info : Info} {name : String} {ty? : Option Ty} {e : Expr Info} {ty : Ty}
      {code : List Instruction} {frame : Frame} {label : Label} (hinfo : info.ty = some ty)
      (htop : around.topLevel = true)
      (hvalue : value globals frame.locals ty e frame.label = .ok (code, label)) :
      StatementCode globals around (.declaration info name ty? e) frame
        (.loadRef 0 :: code ++ [putField name ty]) { frame with label }
  | declareSlot {info : Info} {name : String} {ty? : Option Ty} {e : Expr Info} {ty : Ty}
      {code : List Instruction} {frame : Frame} {label : Label} (hinfo : info.ty = some ty)
      (htop : around.topLevel = false)
      (hvalue : value globals frame.locals ty e frame.label = .ok (code, label)) :
      StatementCode globals around (.declaration info name ty? e) frame
        (code ++ [store ⟨frame.slot, ty⟩])
        ⟨label, frame.slot + 1, frame.locals.declare name ⟨frame.slot, ty⟩⟩
  | assignSlot {info : Info} {name : String} {e : Expr Info} {home : Local}
      {code : List Instruction} {frame : Frame} {label : Label}
      (hhome : frame.locals.find? name = some home)
      (hvalue : value globals frame.locals home.ty e frame.label = .ok (code, label)) :
      StatementCode globals around (.assignment info name e) frame (code ++ [store home])
        { frame with label }
  | assignField {info : Info} {name : String} {e : Expr Info} {ty : Ty} {code : List Instruction}
      {frame : Frame} {label : Label} (hnone : frame.locals.find? name = none)
      (hfield : globals.fields.find? name = some ty)
      (hvalue : value globals frame.locals ty e frame.label = .ok (code, label)) :
      StatementCode globals around (.assignment info name e) frame
        (.loadRef 0 :: code ++ [putField name ty]) { frame with label }
  | function {info : Info} {name : String} {params : List Parameter} {returns : Ty}
      {body : List (Stmt Info)} {frame : Frame} :
      StatementCode globals around (.function info name params returns body) frame [] frame
  | ifThen {info : Info} {condition : Expr Info} {thenBody : List (Stmt Info)}
      {test thenCode : List Instruction} {frame last : Frame} {label : Label}
      (htest : expression globals frame.locals condition (frame.label + 2) = .ok (test, label))
      (hthen : statements globals around.inside thenBody ⟨label, frame.slot, frame.locals.push⟩ =
        .ok (thenCode, last)) :
      StatementCode globals around (.ifThen info condition thenBody) frame
        (test ++ .jumpIfZero frame.label :: thenCode ++
          [.jump (frame.label + 1), .label frame.label, .label (frame.label + 1)])
        { last with locals := last.locals.pop }
  | ifThenElse {info : Info} {condition : Expr Info} {thenBody elseBody : List (Stmt Info)}
      {test thenCode elseCode : List Instruction} {frame middle last : Frame} {label : Label}
      (htest : expression globals frame.locals condition (frame.label + 2) = .ok (test, label))
      (hthen : statements globals around.inside thenBody ⟨label, frame.slot, frame.locals.push⟩ =
        .ok (thenCode, middle))
      (helse : statements globals around.inside elseBody
        ⟨middle.label, middle.slot, middle.locals.pop.push⟩ = .ok (elseCode, last)) :
      StatementCode globals around (.ifThenElse info condition thenBody elseBody) frame
        (test ++ .jumpIfZero frame.label :: thenCode ++
          [.jump (frame.label + 1), .label frame.label] ++ elseCode ++ [.label (frame.label + 1)])
        { last with locals := last.locals.pop }
  | loop {info : Info} {name : String} {iterable : Expr Info} {body : List (Stmt Info)} {ty : Ty}
      {items inner : List Instruction} {frame last : Frame} {label : Label}
      (hinfo : info.ty = some ty)
      (hitems : expression globals frame.locals iterable (frame.label + 2) = .ok (items, label))
      (hbody : statements globals around.inside body
        (forBody ⟨label, frame.slot + 1, frame.locals⟩ name ty) = .ok (inner, last)) :
      StatementCode globals around (.loop info name iterable body) frame
        (items ++ [.invoke .listIterator, .storeRef frame.slot] ++
          iteration frame.slot frame.label (frame.label + 1)
            (coerce .object ty ++ store ⟨frame.slot + 1, ty⟩ :: inner))
        { last with locals := last.locals.pop.pop }
  | print {info : Info} {e : Expr Info} {code : List Instruction} {frame : Frame} {label : Label}
      (hvalue : value globals frame.locals .object e frame.label = .ok (code, label)) :
      StatementCode globals around (.print info e) frame
        (.loadRef 0 :: code ++ [.invoke .print]) { frame with label }
  | call {info : Info} {e : Expr Info} {ty : Ty} {code : List Instruction} {frame : Frame}
      {label : Label} (hty : e.mark.ty = some ty)
      (hcode : expression globals frame.locals e frame.label = .ok (code, label)) :
      StatementCode globals around (.call info e) frame
        (if ty = .void then code else code ++ [.pop]) { frame with label }
  | leave {info : Info} {returns : Option Ty} {frame : Frame}
      (hreturns : around.returnType = .ok returns) :
      StatementCode globals around (.returning info none) frame [.returnVoid] frame
  | returning {info : Info} {e : Expr Info} {returns : Option Ty} {code : List Instruction}
      {frame : Frame} {label : Label} (hreturns : around.returnType = .ok returns)
      (hvalue : value globals frame.locals (returns.getD .void) e frame.label =
        .ok (code, label)) :
      StatementCode globals around (.returning info (some e)) frame
        (code ++ [if (returns.getD .void).isPrimitive then .returnInt else .returnRef])
        { frame with label }
  | bare {e : Expr Info} {code : List Instruction} {frame : Frame} {label : Label}
      (hcode : expression globals frame.locals e frame.label = .ok (code, label)) :
      StatementCode globals around (.bare e) frame code { frame with label }

theorem ok_of_returnType {σ β : Type} {f : Ty → StateT σ (Except CompileStop) β} {s : σ}
    {result : β × σ} (h : (liftM (returnType around) >>= f) s = .ok result) :
    ∃ returns, around.returnType = .ok returns ∧ f (returns.getD .void) s = .ok result := by
  obtain ⟨ty, hty, h⟩ := ok_of_lift h
  cases hreturns : around.returnType with
  | error fault =>
    rw [returnType, hreturns] at hty
    cases hty
  | ok returns =>
    rw [returnType, hreturns] at hty
    cases hty
    exact ⟨returns, rfl, h⟩

/-- The code of the body of a loop, which finds the next item on the stack. -/
def loopBody (globals : Globals) (around : Surroundings) (name : String) (ty : Ty)
    (body : List (Stmt Info)) : Frames (List Instruction) :=
  inScope do
    let home ← declareLocal name ty
    let code ← inScope (statements globals around.inside body)
    pure (coerce .object ty ++ store home :: code)

theorem loopBody_ok {name : String} {ty : Ty} {body : List (Stmt Info)}
    (h : statements globals around.inside body (forBody frame name ty) = .ok (code, after)) :
    loopBody globals around name ty body frame =
      .ok (coerce .object ty ++ store ⟨frame.slot, ty⟩ :: code,
        { after with locals := after.locals.pop.pop }) := by
  have hinner : inScope (statements globals around.inside body) (itemFrame frame name ty) =
      .ok (code, { after with locals := after.locals.pop }) := inScope_ok h
  have houter : (do
      let home ← declareLocal name ty
      let code ← inScope (statements globals around.inside body)
      pure (coerce .object ty ++ store home :: code)) { frame with locals := frame.locals.push } =
        .ok (coerce .object ty ++ store ⟨frame.slot, ty⟩ :: code,
          { after with locals := after.locals.pop }) := by
    rw [bind_ok (declareLocal_ok _ _ _)]
    exact bind_ok hinner
  exact inScope_ok houter

theorem ok_of_loopBody {name : String} {ty : Ty} {body : List (Stmt Info)}
    {result : List Instruction × Frame}
    (h : loopBody globals around name ty body frame = .ok result) :
    ∃ code after,
      statements globals around.inside body (forBody frame name ty) = .ok (code, after) ∧
      result = (coerce .object ty ++ store ⟨frame.slot, ty⟩ :: code,
        { after with locals := after.locals.pop.pop }) := by
  obtain ⟨outer, houter, hresult⟩ := ok_of_inScope h
  rw [bind_ok (declareLocal_ok _ _ _)] at houter
  obtain ⟨code, inner, hinner, houter⟩ := ok_of_bind houter
  obtain ⟨after, hafter, rfl⟩ := ok_of_inScope hinner
  refine ⟨code, after, hafter, ?_⟩
  obtain ⟨bodyCode, last⟩ := result
  cases houter
  cases hresult
  rfl

theorem statement_loop {info : Info} {name : String} {iterable : Expr Info}
    {body : List (Stmt Info)} {ty : Ty} (hinfo : info.ty = some ty) :
    statement globals around (.loop info name iterable body) = (do
      let start ← withLocals fun _ => freshLabel
      let done ← withLocals fun _ => freshLabel
      let items ← withLocals fun locals => expression globals locals iterable
      let iterator ← freshSlot
      let bodyCode ← loopBody globals around name ty body
      return items ++ [.invoke .listIterator, .storeRef iterator] ++
        iteration iterator start done bodyCode) := by
  rw [statement]
  simp only [lift_ok (typeOf_eq hinfo), pure_bind]
  rfl

theorem assignment_code {info : Info} {name : String} {e : Expr Info}
    (h : statement globals around (.assignment info name e) frame = .ok (code, after)) :
    StatementCode globals around (.assignment info name e) frame code after := by
  have hget : (get : Frames Frame) frame = .ok (frame, frame) := rfl
  rw [statement, bind_ok hget] at h
  cases hhome : frame.locals.find? name with
  | some home =>
    rw [hhome] at h
    obtain ⟨inner, middle, hvalue, h⟩ := ok_of_bind h
    obtain ⟨label, hvalue, rfl⟩ := ok_of_withLocals hvalue
    cases h
    exact .assignSlot hhome hvalue
  | none =>
    cases hfield : globals.fields.find? name with
    | some ty =>
      rw [hhome, hfield] at h
      obtain ⟨inner, middle, hvalue, h⟩ := ok_of_bind h
      obtain ⟨label, hvalue, rfl⟩ := ok_of_withLocals hvalue
      cases h
      exact .assignField hhome hfield hvalue
    | none =>
      rw [hhome, hfield] at h
      cases h

theorem ifThen_code {info : Info} {condition : Expr Info} {thenBody : List (Stmt Info)}
    (h : statement globals around (.ifThen info condition thenBody) frame = .ok (code, after)) :
    StatementCode globals around (.ifThen info condition thenBody) frame code after := by
  rw [statement, bind_ok (withLocals_freshLabel _), bind_ok (withLocals_freshLabel _)] at h
  obtain ⟨test, middle, htest, h⟩ := ok_of_bind h
  obtain ⟨label, htest, rfl⟩ := ok_of_withLocals htest
  obtain ⟨thenCode, last, hthen, h⟩ := ok_of_bind h
  obtain ⟨inner, hthen, rfl⟩ := ok_of_inScope hthen
  cases h
  exact .ifThen htest hthen

theorem ifThenElse_code {info : Info} {condition : Expr Info} {thenBody elseBody : List (Stmt Info)}
    (h : statement globals around (.ifThenElse info condition thenBody elseBody) frame =
      .ok (code, after)) :
    StatementCode globals around (.ifThenElse info condition thenBody elseBody) frame code
      after := by
  rw [statement, bind_ok (withLocals_freshLabel _), bind_ok (withLocals_freshLabel _)] at h
  obtain ⟨test, middle, htest, h⟩ := ok_of_bind h
  obtain ⟨label, htest, rfl⟩ := ok_of_withLocals htest
  obtain ⟨thenCode, between, hthen, h⟩ := ok_of_bind h
  obtain ⟨first, hthen, rfl⟩ := ok_of_inScope hthen
  obtain ⟨elseCode, last, helse, h⟩ := ok_of_bind h
  obtain ⟨second, helse, rfl⟩ := ok_of_inScope helse
  cases h
  exact .ifThenElse htest hthen helse

theorem loop_code {info : Info} {name : String} {iterable : Expr Info} {body : List (Stmt Info)}
    (h : statement globals around (.loop info name iterable body) frame = .ok (code, after)) :
    StatementCode globals around (.loop info name iterable body) frame code after := by
  obtain ⟨ty, hinfo⟩ : ∃ ty, info.ty = some ty := by
    rw [statement] at h
    obtain ⟨ty, hinfo, -⟩ := ok_of_typeOf h
    exact ⟨ty, hinfo⟩
  rw [statement_loop hinfo, bind_ok (withLocals_freshLabel _),
    bind_ok (withLocals_freshLabel _)] at h
  obtain ⟨items, middle, hitems, h⟩ := ok_of_bind h
  obtain ⟨label, hitems, rfl⟩ := ok_of_withLocals hitems
  rw [bind_ok (freshSlot_ok _)] at h
  obtain ⟨bodyCode, last, hloop, h⟩ := ok_of_bind h
  obtain ⟨inner, final, hbody, hlast⟩ := ok_of_loopBody hloop
  cases hlast
  cases h
  exact .loop hinfo hitems hbody

theorem statement_code {s : Stmt Info}
    (h : statement globals around s frame = .ok (code, after)) :
    StatementCode globals around s frame code after := by
  cases s with
  | declaration info name ty? e =>
    rw [statement] at h
    obtain ⟨ty, hinfo, h⟩ := ok_of_typeOf h
    obtain ⟨inner, middle, hvalue, h⟩ := ok_of_bind h
    obtain ⟨label, hvalue, rfl⟩ := ok_of_withLocals hvalue
    cases htop : around.topLevel with
    | true =>
      rw [htop, if_pos rfl] at h
      cases h
      exact .declareField hinfo htop hvalue
    | false =>
      rw [htop, if_neg Bool.false_ne_true, bind_ok (declareLocal_ok _ _ _)] at h
      cases h
      exact .declareSlot hinfo htop hvalue
  | assignment => exact assignment_code h
  | function =>
    rw [statement] at h
    cases h
    exact .function
  | ifThen => exact ifThen_code h
  | ifThenElse => exact ifThenElse_code h
  | loop => exact loop_code h
  | print =>
    rw [statement] at h
    obtain ⟨inner, middle, hvalue, h⟩ := ok_of_bind h
    obtain ⟨label, hvalue, rfl⟩ := ok_of_withLocals hvalue
    cases h
    exact .print hvalue
  | call =>
    rw [statement] at h
    obtain ⟨inner, middle, hcode, h⟩ := ok_of_bind h
    obtain ⟨label, hcode, rfl⟩ := ok_of_withLocals hcode
    obtain ⟨ty, hty, h⟩ := ok_of_typeOf h
    cases h
    exact .call hty hcode
  | returning info e? =>
    cases e? with
    | none =>
      rw [statement] at h
      obtain ⟨returns, hreturns, h⟩ := ok_of_returnType h
      cases h
      exact .leave hreturns
    | some e =>
      rw [statement] at h
      obtain ⟨returns, hreturns, h⟩ := ok_of_returnType h
      obtain ⟨inner, middle, hvalue, h⟩ := ok_of_bind h
      obtain ⟨label, hvalue, rfl⟩ := ok_of_withLocals hvalue
      cases h
      exact .returning hreturns hvalue
  | broken =>
    rw [statement] at h
    cases h
  | bare =>
    rw [statement] at h
    obtain ⟨label, hcode, rfl⟩ := ok_of_withLocals h
    exact .bare hcode

theorem StatementCode.ok {s : Stmt Info} (h : StatementCode globals around s frame code after) :
    statement globals around s frame = .ok (code, after) := by
  have hget : (get : Frames Frame) frame = .ok (frame, frame) := rfl
  cases h with
  | declareField hinfo htop hvalue =>
    rw [statement, lift_ok (typeOf_eq hinfo), pure_bind, bind_ok (withLocals_ok hvalue), htop,
      if_pos rfl]
    rfl
  | declareSlot hinfo htop hvalue =>
    rw [statement, lift_ok (typeOf_eq hinfo), pure_bind, bind_ok (withLocals_ok hvalue), htop,
      if_neg Bool.false_ne_true, bind_ok (declareLocal_ok _ _ _)]
    rfl
  | assignSlot hhome hvalue =>
    rw [statement, bind_ok hget, hhome]
    dsimp only
    rw [bind_ok (withLocals_ok hvalue)]
    rfl
  | assignField hnone hfield hvalue =>
    rw [statement, bind_ok hget, hnone, hfield]
    dsimp only
    rw [bind_ok (withLocals_ok hvalue)]
    rfl
  | function =>
    rw [statement]
    rfl
  | ifThen htest hthen =>
    rw [statement, bind_ok (withLocals_freshLabel _), bind_ok (withLocals_freshLabel _),
      bind_ok (withLocals_ok htest), bind_ok (inScope_ok hthen)]
    rfl
  | ifThenElse htest hthen helse =>
    rw [statement, bind_ok (withLocals_freshLabel _), bind_ok (withLocals_freshLabel _),
      bind_ok (withLocals_ok htest), bind_ok (inScope_ok hthen), bind_ok (inScope_ok helse)]
    rfl
  | loop hinfo hitems hbody =>
    rw [statement_loop hinfo, bind_ok (withLocals_freshLabel _), bind_ok (withLocals_freshLabel _),
      bind_ok (withLocals_ok hitems), bind_ok (freshSlot_ok _), bind_ok (loopBody_ok hbody)]
    rfl
  | print hvalue =>
    rw [statement, bind_ok (withLocals_ok hvalue)]
    rfl
  | call hty hcode =>
    rw [statement, bind_ok (withLocals_ok hcode), lift_ok (typeOf_eq hty)]
    rfl
  | leave hreturns =>
    rw [statement, returnType, hreturns]
    rfl
  | returning hreturns hvalue =>
    rw [statement, returnType, hreturns]
    dsimp only
    rw [lift_ok rfl, pure_bind, bind_ok (withLocals_ok hvalue)]
    rfl
  | bare hcode =>
    rw [statement]
    exact withLocals_ok hcode

inductive StatementsCode (globals : Globals) (around : Surroundings) :
    List (Stmt Info) → Frame → List Instruction → Frame → Prop where
  | nil {frame : Frame} : StatementsCode globals around [] frame [] frame
  | cons {s : Stmt Info} {rest : List (Stmt Info)} {first more : List Instruction}
      {frame middle last : Frame}
      (hfirst : statement globals around s frame = .ok (first, middle))
      (hmore : statements globals around rest middle = .ok (more, last)) :
      StatementsCode globals around (s :: rest) frame (first ++ more) last

theorem statements_code {body : List (Stmt Info)}
    (h : statements globals around body frame = .ok (code, after)) :
    StatementsCode globals around body frame code after := by
  cases body with
  | nil =>
    rw [statements] at h
    cases h
    exact .nil
  | cons s rest =>
    rw [statements] at h
    obtain ⟨first, middle, hfirst, h⟩ := ok_of_bind h
    obtain ⟨more, last, hmore, h⟩ := ok_of_bind h
    cases h
    exact .cons hfirst hmore

theorem StatementsCode.ok {body : List (Stmt Info)}
    (h : StatementsCode globals around body frame code after) :
    statements globals around body frame = .ok (code, after) := by
  cases h with
  | nil =>
    rw [statements]
    rfl
  | cons hfirst hmore =>
    rw [statements, bind_ok hfirst, bind_ok hmore]
    rfl

end Statements
end Generation
end CatScript
