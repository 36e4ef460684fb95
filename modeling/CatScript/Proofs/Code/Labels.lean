import CatScript.Proofs.Code.Levels
import CatScript.Proofs.Code.Steps
import CatScript.Proofs.Typing.Judgement

/-! # Well-typed trees have code

A well-typed expression has code (`Generation.expression_ok`), and so has a well-typed statement
(`Generation.statement_ok`).  The labels in the code are all different, they are the ones that were
handed out for it, and the code jumps to no other ones (`Labelled`). -/
set_option autoImplicit false
namespace CatScript

def Instruction.place? : Instruction → Option Label
  | .label place => some place
  | _ => none

def places (code : List Instruction) : List Nat := code.filterMap Instruction.place?

def targets (code : List Instruction) : List Nat := code.filterMap Instruction.target?

/-- The labels of a piece of code are all different and come from a range of labels, and all jumps
stay in the piece. -/
structure Labelled (first last : Nat) (code : List Instruction) : Prop where
  le : first ≤ last
  distinct : (places code).Nodup
  range : ∀ place ∈ places code, first ≤ place ∧ place < last
  closed : ∀ place ∈ targets code, place ∈ places code

@[simp] theorem places_nil : places [] = [] := rfl

@[simp] theorem targets_nil : targets [] = [] := rfl

@[simp] theorem places_cons (instruction : Instruction) (code : List Instruction) :
    places (instruction :: code) = instruction.place?.toList ++ places code := by
  unfold places
  rw [List.filterMap_cons]
  cases instruction.place? <;> rfl

@[simp] theorem targets_cons (instruction : Instruction) (code : List Instruction) :
    targets (instruction :: code) = instruction.target?.toList ++ targets code := by
  unfold targets
  rw [List.filterMap_cons]
  cases instruction.target? <;> rfl

@[simp] theorem places_append (a b : List Instruction) : places (a ++ b) = places a ++ places b :=
  List.filterMap_append

@[simp] theorem targets_append (a b : List Instruction) :
    targets (a ++ b) = targets a ++ targets b :=
  List.filterMap_append

/-- The code has the labels and jumps of its parts, and two labels of its own that it jumps to. -/
structure Joins (first : Nat) (parts code : List Instruction) : Prop where
  places : (places code).Perm (first :: (first + 1) :: places parts)
  targets : ∀ place ∈ targets code, place = first ∨ place = first + 1 ∨ place ∈ targets parts

namespace Labelled
variable {first middle last : Nat} {a b code : List Instruction}

theorem plain (first : Nat) (hplaces : places code = []) (htargets : targets code = []) :
    Labelled first first code := by
  refine ⟨Nat.le_refl _, ?_, ?_, ?_⟩
  · rw [hplaces]; exact List.nodup_nil
  · rw [hplaces]; exact fun _ h => (nomatch h)
  · rw [htargets]; exact fun _ h => (nomatch h)

theorem append (ha : Labelled first middle a) (hb : Labelled middle last b) :
    Labelled first last (a ++ b) := by
  have hab := ha.le
  have hbc := hb.le
  refine ⟨by omega, ?_, fun place hplace => ?_, fun place hplace => ?_⟩
  · rw [places_append, List.nodup_append]
    refine ⟨ha.distinct, hb.distinct, fun x hx y hy heq => ?_⟩
    have hx := ha.range x hx
    have hy := hb.range y hy
    omega
  · rw [places_append, List.mem_append] at hplace
    rcases hplace with h | h
    · have := ha.range place h; omega
    · have := hb.range place h; omega
  · rw [targets_append, List.mem_append] at hplace
    rw [places_append, List.mem_append]
    exact hplace.imp (ha.closed place) (hb.closed place)

theorem of_same (h : Labelled first last a) (hplaces : places code = places a)
    (htargets : targets code = targets a) : Labelled first last code := by
  refine ⟨h.le, ?_, ?_, ?_⟩
  · rw [hplaces]; exact h.distinct
  · rw [hplaces]; exact h.range
  · rw [hplaces, htargets]; exact h.closed

/-- Two labels handed out before the code of the parts may stand between them. -/
theorem of_two (h : Labelled (first + 2) last a) (hjoins : Joins first a code) :
    Labelled first last code := by
  have hle := h.le
  obtain ⟨hplaces, htargets⟩ := hjoins
  refine ⟨by omega, ?_, fun place hplace => ?_, fun place hplace => ?_⟩
  · rw [hplaces.nodup_iff, List.nodup_cons, List.nodup_cons]
    refine ⟨fun hmem => ?_, fun hmem => ?_, h.distinct⟩
    · rcases List.mem_cons.1 hmem with heq | hmem
      · omega
      · have := h.range first hmem; omega
    · have := h.range (first + 1) hmem; omega
  · rw [hplaces.mem_iff, List.mem_cons, List.mem_cons] at hplace
    rcases hplace with rfl | rfl | hplace
    · omega
    · omega
    · have := h.range place hplace; omega
  · rw [hplaces.mem_iff, List.mem_cons, List.mem_cons]
    exact (htargets place hplace).imp_right fun h' => h'.imp_right (h.closed place)

end Labelled

namespace Generation

@[simp] theorem places_coerce (source target : Ty) : places (coerce source target) = [] := by
  unfold coerce
  cases Primitive.of? source <;> cases Primitive.of? target <;> dsimp only
  · split <;> rfl
  all_goals rfl

@[simp] theorem targets_coerce (source target : Ty) : targets (coerce source target) = [] := by
  unfold coerce
  cases Primitive.of? source <;> cases Primitive.of? target <;> dsimp only
  · split <;> rfl
  all_goals rfl

/-- What code needs to know of the names in sight: variables have slots or fields of their types,
and functions have signatures. -/
structure Provides (symbols : Symbols) (globals : Globals) (locals : Scopes Local) : Prop where
  based : locals.Based
  levels : List.Forall₂ (Scope.Match fun home ty => home.ty = ty) locals.levels
    symbols.scopes.nested
  fields : Scope.Sub symbols.scopes.outermost globals.fields
  functions : ∀ name signature, symbols.functions.find? name = some signature →
    ∃ params, globals.functions.find? name = some (params, signature.returns) ∧
      params.map Parameter.ty = signature.params

theorem Provides.find {symbols : Symbols} {globals : Globals} {locals : Scopes Local}
    (h : Provides symbols globals locals) {name : String} {ty : Ty}
    (hty : symbols.typeOf? name = some ty) :
    (∃ home, locals.find? name = some home ∧ home.ty = ty) ∨
      locals.find? name = none ∧ globals.fields.find? name = some ty := by
  have hrel := Scopes.findSome?_match h.levels name
  rw [Scopes.find?_levels h.based] at hrel
  rw [Symbols.typeOf?, Scopes.find?] at hty
  cases ht : symbols.scopes.nested.findSome? (·.find? name) with
  | some inner =>
    rw [ht] at hty hrel
    cases hty
    cases hhome : locals.find? name with
    | none => rw [hhome] at hrel; cases hrel
    | some home => rw [hhome] at hrel; cases hrel with | some heq => exact .inl ⟨home, rfl, heq⟩
  | none =>
    rw [ht] at hty hrel
    cases hhome : locals.find? name with
    | none => exact .inr ⟨rfl, h.fields name ty hty⟩
    | some home => rw [hhome] at hrel; cases hrel

theorem labelled_related (condition : Condition) (label : Nat) :
    Labelled label (label + 2) (related condition label) := by
  have hnone : Labelled (label + 2) (label + 2) [] := .plain _ rfl rfl
  refine hnone.of_two ⟨?_, ?_⟩
  · simp [related, Instruction.place?]
  · simp [related, Instruction.target?]

section Parts
variable (first : Label) (test thenCode elseCode body : List Instruction)

theorem joins_ifThen : Joins first (test ++ thenCode)
    (test ++ .jumpIfZero first :: thenCode ++
      [.jump (first + 1), .label first, .label (first + 1)]) := by
  constructor
  · rw [List.perm_iff_count]
    intro place
    simp [Instruction.place?, List.count_cons, List.count_append]
    omega
  · simp [Instruction.target?]
    tauto

theorem joins_ifThenElse : Joins first (test ++ thenCode ++ elseCode)
    (test ++ .jumpIfZero first :: thenCode ++ [.jump (first + 1), .label first] ++ elseCode ++
      [.label (first + 1)]) := by
  constructor
  · rw [List.perm_iff_count]
    intro place
    simp [Instruction.place?, List.count_cons, List.count_append]
    omega
  · simp [Instruction.target?]
    tauto

theorem joins_loop (slot : Slot) : Joins first (test ++ body)
    (test ++ [.invoke .listIterator, .storeRef slot] ++
      iteration slot first (first + 1) body) := by
  constructor
  · rw [List.perm_iff_count]
    intro place
    simp [Instruction.place?, List.count_cons, List.count_append, iteration]
    omega
  · simp [Instruction.target?, iteration]
    tauto

end Parts

section Expressions
open Typing
variable {symbols : Symbols} {globals : Globals} {locals : Scopes Local}

mutual

theorem expression_ok (h : Provides symbols globals locals) :
    (e : Expr Info) → {ty : Ty} → HasType symbols e ty → (label : Label) →
    ∃ code label', expression globals locals e label = .ok (code, label') ∧
      Labelled label label' code
  | .identifier _ name, ty, .identifier _ hty _, label => by
    rcases h.find hty with ⟨home, hhome, -⟩ | ⟨hnone, hfield⟩
    · refine ⟨_, _, (ExpressionCode.inSlot hhome).ok, .plain label ?_ ?_⟩ <;> unfold load <;>
        split <;> rfl
    · exact ⟨_, _, (ExpressionCode.inField hnone hfield).ok, .plain label rfl rfl⟩
  | .integer .., _, _, label => ⟨_, _, ExpressionCode.integer.ok, .plain label rfl rfl⟩
  | .string .., _, _, label => ⟨_, _, ExpressionCode.string.ok, .plain label rfl rfl⟩
  | .boolean .., _, _, label => ⟨_, _, ExpressionCode.boolean.ok, .plain label rfl rfl⟩
  | .null _, _, _, label => ⟨_, _, ExpressionCode.null.ok, .plain label rfl rfl⟩
  | .list _ items, _, .list _ _ hitems, label => by
    obtain ⟨code, label', hcode, hlabels⟩ := listItems_ok h items hitems label
    exact ⟨_, _, (ExpressionCode.list hcode).ok, hlabels.of_same rfl rfl⟩
  | .parenthesized _ inner, _, .parenthesized _ hinner, label => by
    obtain ⟨code, label', hcode, hlabels⟩ := expression_ok h inner hinner label
    exact ⟨_, _, (ExpressionCode.parenthesized hcode).ok, hlabels⟩
  | .unary _ op operand, _, .unary _ hoperand, label => by
    obtain ⟨code, label', hcode, hlabels⟩ := expression_ok h operand hoperand label
    cases op with
    | negate => exact ⟨_, _, (ExpressionCode.negate hcode).ok, hlabels.append (.plain _ rfl rfl)⟩
    | not => exact ⟨_, _, (ExpressionCode.not hcode).ok, hlabels.append (.plain _ rfl rfl)⟩
  | .binary _ _ left right, _, .concat hinfo hleft hright _ _, label => by
    obtain ⟨a, middle, ha, hla⟩ := expression_ok h left hleft label
    obtain ⟨b, last, hb, hlb⟩ := expression_ok h right hright middle
    refine ⟨_, _, (ExpressionCode.concat hinfo hleft.mark hright.mark ha hb).ok,
      (hla.append hlb).of_same ?_ ?_⟩
    · simp [Instruction.place?]
    · simp [Instruction.target?]
  | .binary _ op left right, _, .arithmetic hinfo hleft hright, label => by
    obtain ⟨a, middle, ha, hla⟩ := expression_ok h left hleft label
    obtain ⟨b, last, hb, hlb⟩ := expression_ok h right hright middle
    refine ⟨_, _, (ExpressionCode.arithmetic (fun _ => ⟨.int, hinfo, by simp⟩) ha hb).ok,
      (hla.append hlb).append (.plain last ?_ ?_)⟩ <;> cases op <;> rfl
  | .comparison _ op left right, _, .comparison _ hleft hright, label => by
    obtain ⟨a, middle, ha, hla⟩ := expression_ok h left hleft label
    obtain ⟨b, last, hb, hlb⟩ := expression_ok h right hright middle
    exact ⟨_, _, (ExpressionCode.comparison ha hb).ok,
      (hla.append hlb).append (labelled_related _ last)⟩
  | .equality _ op left right, _, .equality (a := tyA) (b := tyB) _ hleft hright _ _, label => by
    obtain ⟨a, middle, ha, hla⟩ := expression_ok h left hleft label
    obtain ⟨b, last, hb, hlb⟩ := expression_ok h right hright middle
    cases hdirect : direct tyA tyB with
    | true =>
      exact ⟨_, _, (ExpressionCode.unboxed hleft.mark hright.mark hdirect ha hb).ok,
        (hla.append hlb).append (labelled_related _ last)⟩
    | false =>
      refine ⟨_, _, (ExpressionCode.boxed hleft.mark hright.mark hdirect ha hb).ok,
        (hla.append hlb).of_same ?_ ?_⟩ <;> split <;>
          simp [negation, Instruction.place?, Instruction.target?]
  | .call _ name args, _, .call _ hfunction hargs, label => by
    obtain ⟨params, hfind, hparams⟩ := h.functions name _ hfunction
    rw [← hparams] at hargs
    obtain ⟨code, last, hcode, hlcode⟩ := arguments_ok h args hargs label
    refine ⟨_, _, (ExpressionCode.call hfind hcode).ok, hlcode.of_same ?_ ?_⟩
    · simp [Instruction.place?]
    · simp [Instruction.target?]

theorem listItems_ok (h : Provides symbols globals locals) :
    (items : List (Expr Info)) → {component : Ty} → ItemsFit symbols items component →
    (label : Label) →
    ∃ code label', listItems globals locals items label = .ok (code, label') ∧
      Labelled label label' code
  | [], _, _, label => ⟨_, _, ItemsCode.nil.ok, .plain label rfl rfl⟩
  | item :: rest, _, .cons hitem _ _ hrest, label => by
    obtain ⟨code, middle, hcode, hlcode⟩ := expression_ok h item hitem label
    obtain ⟨more, last, hmore, hlmore⟩ := listItems_ok h rest hrest middle
    refine ⟨_, _, (ItemsCode.cons hitem.mark hcode hmore).ok,
      (hlcode.append hlmore).of_same ?_ ?_⟩
    · simp [Instruction.place?]
    · simp [Instruction.target?]

theorem arguments_ok (h : Provides symbols globals locals) :
    (args : List (Expr Info)) → {params : List Parameter} →
    ArgsFit symbols args (params.map Parameter.ty) → (label : Label) →
    ∃ code label', arguments globals locals args params label = .ok (code, label') ∧
      Labelled label label' code
  | [], [], _, label => ⟨_, _, ArgumentsCode.nil.ok, .plain label rfl rfl⟩
  | arg :: args, param :: params, .cons harg _ _ hargs, label => by
    obtain ⟨code, middle, hcode, hlcode⟩ := expression_ok h arg harg label
    obtain ⟨more, last, hmore, hlmore⟩ := arguments_ok h args hargs middle
    refine ⟨_, _, (ArgumentsCode.cons harg.mark hcode hmore).ok,
      (hlcode.append hlmore).of_same ?_ ?_⟩
    · simp
    · simp

end
end Expressions
end Generation
end CatScript
