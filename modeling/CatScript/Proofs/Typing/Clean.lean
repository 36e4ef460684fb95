import CatScript.Proofs.Typing.Judgement
import CatScript.Proofs.Typing.Shape

/-! # Expressions that typing finds nothing wrong with

Where typing reports nothing, an expression has the type that it is given
(`Typing.expression_hasType`).  What could not be read is reported before typing starts, so it is
enough that nothing is reported afterwards. -/
set_option autoImplicit false
namespace CatScript

def Info.Flagged (info : Info) : Prop :=
  info.errors ≠ []

def Clean (marks : List Info) : Prop :=
  ∀ info ∈ marks, info.errors = []

theorem Clean.head {info : Info} {marks : List Info} (h : Clean (info :: marks)) :
    info.errors = [] :=
  h info List.mem_cons_self

theorem Clean.tail {info : Info} {marks : List Info} (h : Clean (info :: marks)) : Clean marks := by
  intro other hother
  exact h other (List.mem_cons_of_mem _ hother)

theorem Clean.left {marks others : List Info} (h : Clean (marks ++ others)) : Clean marks := by
  intro info hinfo
  exact h info (List.mem_append_left _ hinfo)

theorem Clean.right {marks others : List Info} (h : Clean (marks ++ others)) : Clean others := by
  intro info hinfo
  exact h info (List.mem_append_right _ hinfo)

theorem Info.flag_errors (problem : Problem) (info : Info) : (info.flag problem).errors ≠ [] :=
  List.append_ne_nil_of_right_ne_nil _ (List.cons_ne_nil _ _)

theorem Info.flagIf_clean {wrong : Bool} {problem : Problem} {info : Info}
    (h : (info.flagIf wrong problem).errors = []) : wrong = false ∧ info.errors = [] := by
  cases wrong with
  | false => exact ⟨rfl, h⟩
  | true => exact absurd h (info.flag_errors problem)

namespace Typing

namespace Typed
variable {typed : Typed}

def Clean (typed : Typed) : Prop :=
  CatScript.Clean typed.expr.marks

theorem Clean.flagIf {wrong : Bool} {problem : Problem} (h : (typed.flagIf wrong problem).Clean) :
    wrong = false ∧ typed.flagIf wrong problem = typed := by
  have hmark := h _ (Expr.mark_mem_marks _)
  rw [Typed.flagIf, Expr.mark_adjust] at hmark
  obtain ⟨rfl, -⟩ := Info.flagIf_clean hmark
  exact ⟨rfl, congrArg (Typed.mk typed.ty) (Expr.adjust_self rfl)⟩

theorem Clean.expect {ty : Ty} (h : (typed.expect ty).Clean) :
    typed.expect ty = typed ∧ ∀ given, typed.ty = some given → given = ty := by
  obtain ⟨hwrong, hsame⟩ := Clean.flagIf h
  refine ⟨hsame, fun given hgiven => ?_⟩
  rw [hgiven] at hwrong
  simpa using hwrong

theorem Clean.fit {target : Ty} (h : (typed.fit target).Clean) :
    typed.fit target = typed ∧ ∀ given, typed.ty = some given → target.accepts given = true := by
  obtain ⟨hwrong, hsame⟩ := Clean.flagIf h
  refine ⟨hsame, fun given hgiven => ?_⟩
  rw [hgiven] at hwrong
  simpa using hwrong

theorem Clean.asValue (h : typed.asValue.Clean) :
    typed.asValue = typed ∧ typed.ty ≠ some .void := by
  obtain ⟨hwrong, hsame⟩ := Clean.flagIf h
  refine ⟨hsame, fun hvoid => ?_⟩
  rw [hvoid] at hwrong
  cases hwrong

end Typed

structure Storing (symbols : Symbols) : Prop where
  found : ∀ name ty, symbols.typeOf? name = some ty → ty.Storable
  params : ∀ name signature, symbols.function? name = some signature →
    ∀ ty ∈ signature.params, ty.Storable
  results : StorableResults symbols.functions

/-- Both symbols have the same names in sight, for the same things. -/
structure SameSight (symbols others : Symbols) : Prop where
  typeOf : ∀ name, others.typeOf? name = symbols.typeOf? name
  functions : others.functions = symbols.functions

def Typed.Sound (symbols : Symbols) (typed : Typed) : Prop :=
  ∃ ty, typed.ty = some ty ∧ HasType symbols typed.expr ty

section Lists
variable {symbols : Symbols}

theorem clean_of_mem {values : List Typed} (h : Clean (Expr.marksAll (values.map Typed.expr))) :
    ∀ value ∈ values, value.Clean := by
  induction values with
  | nil => exact fun value hvalue => (nomatch hvalue)
  | cons first rest ih =>
    simp only [List.map_cons, Expr.marksAll] at h
    intro value hvalue
    rcases List.mem_cons.1 hvalue with rfl | hvalue
    · exact h.left
    · exact ih h.right value hvalue

theorem map_asValue {values : List Typed}
    (h : Clean (Expr.marksAll ((values.map Typed.asValue).map Typed.expr))) :
    values.map Typed.asValue = values ∧ ∀ value ∈ values, value.ty ≠ some .void := by
  have hall : ∀ value ∈ values, value.asValue = value ∧ value.ty ≠ some .void :=
    fun value hvalue => Typed.Clean.asValue (clean_of_mem h _ (List.mem_map_of_mem hvalue))
  refine ⟨?_, fun value hvalue => (hall value hvalue).2⟩
  rw [List.map_congr_left fun value hvalue => (hall value hvalue).1, List.map_id']

theorem itemsFit {values : List Typed} {wider : Ty}
    (hsound : ∀ value ∈ values, value.Sound symbols)
    (hvoid : ∀ value ∈ values, value.ty ≠ some .void)
    (hwider : ∀ value ∈ values, ∀ ty, value.ty = some ty → wider.accepts ty = true) :
    ItemsFit symbols (values.map Typed.expr) wider := by
  induction values with
  | nil => exact .nil
  | cons first rest ih =>
    obtain ⟨ty, hty, hfirst⟩ := hsound first List.mem_cons_self
    refine .cons hfirst (fun heq => hvoid first List.mem_cons_self (heq ▸ hty))
      (hwider first List.mem_cons_self ty hty)
      (ih (fun value hvalue => ?_) (fun value hvalue => ?_) fun value hvalue => ?_)
    · exact hsound value (List.mem_cons_of_mem _ hvalue)
    · exact hvoid value (List.mem_cons_of_mem _ hvalue)
    · exact hwider value (List.mem_cons_of_mem _ hvalue)

theorem argsFit {values : List Typed} {params : List Ty} (hlength : params.length = values.length)
    (hparams : ∀ ty ∈ params, ty.Storable) (hclean : Clean (Expr.marksAll (fitAll values params)))
    (hsound : ∀ value ∈ values, value.Clean → value.Sound symbols) :
    ArgsFit symbols (fitAll values params) params := by
  induction values generalizing params with
  | nil =>
    obtain rfl : params = [] := List.length_eq_zero_iff.1 hlength
    simp only [fitAll, List.map_nil]
    exact .nil
  | cons first rest ih =>
    cases params with
    | nil => cases hlength
    | cons param params =>
      rw [fitAll] at hclean ⊢
      rw [Expr.marksAll] at hclean
      obtain ⟨hsame, haccepts⟩ := Typed.Clean.fit hclean.left
      have hfirst := hclean.left
      rw [hsame] at hfirst ⊢
      obtain ⟨ty, hty, hhas⟩ := hsound first List.mem_cons_self hfirst
      have haccepts := haccepts ty hty
      refine .cons hhas ((hparams param List.mem_cons_self).accepts_ne_void haccepts) haccepts
        (ih (Nat.succ.inj hlength) (fun ty hin => ?_) hclean.right fun value hvalue => ?_)
      · exact hparams ty (List.mem_cons_of_mem _ hin)
      · exact hsound value (List.mem_cons_of_mem _ hvalue)

end Lists

section Expressions
variable {symbols others : Symbols}

/-- Where nothing is reported of the expression, it has the type it is given, also under other
symbols. -/
def Shown (symbols others : Symbols) (e : Expr Info) : Prop :=
  e.Whole Info.Flagged → ∀ ⦃typed : Typed⦄, expression symbols e = .ok typed → typed.Clean →
    typed.Sound others

def AllShown (symbols others : Symbols) (items : List (Expr Info)) : Prop :=
  Expr.WholeAll Info.Flagged items → ∀ ⦃values : List Typed⦄,
    expressions symbols items = .ok values → ∀ value ∈ values, value.Clean → value.Sound others

namespace Shown
variable {info : Info} {name : String} {e left right : Expr Info} {items : List (Expr Info)}
  {typed : Typed} {ty : Ty}

theorem expect (he : Shown symbols others e) (hwhole : e.Whole Info.Flagged)
    (h : expression symbols e = .ok typed) (hclean : (typed.expect ty).Clean) :
    HasType others (typed.expect ty).expr ty := by
  obtain ⟨hsame, hexpected⟩ := Typed.Clean.expect hclean
  rw [hsame] at hclean ⊢
  obtain ⟨given, hgiven, hhas⟩ := he hwhole h hclean
  cases hexpected given hgiven
  exact hhas

theorem asValue (he : Shown symbols others e) (hwhole : e.Whole Info.Flagged)
    (h : expression symbols e = .ok typed) (hclean : typed.asValue.Clean) :
    ∃ ty, HasType others typed.asValue.expr ty ∧ ty ≠ .void := by
  obtain ⟨hsame, hvoid⟩ := Typed.Clean.asValue hclean
  rw [hsame] at hclean ⊢
  obtain ⟨given, hgiven, hhas⟩ := he hwhole h hclean
  exact ⟨given, hhas, fun heq => hvoid (heq ▸ hgiven)⟩

theorem fit (he : Shown symbols others e) (hwhole : e.Whole Info.Flagged)
    (h : expression symbols e = .ok typed) (hty : ty.Storable) (hclean : (typed.fit ty).Clean) :
    Fits others (typed.fit ty).expr ty := by
  obtain ⟨hsame, haccepts⟩ := Typed.Clean.fit hclean
  rw [hsame] at hclean ⊢
  obtain ⟨given, hgiven, hhas⟩ := he hwhole h hclean
  have haccepts := haccepts given hgiven
  exact ⟨given, hhas, hty.accepts_ne_void haccepts, haccepts⟩

theorem identifier (hsight : SameSight symbols others) (hstoring : Storing others) :
    Shown symbols others (.identifier info name) := by
  intro _ typed h hclean
  cases expression_step h with
  | @known _ _ ty hty =>
    have hty := (hsight.typeOf name).trans hty
    exact ⟨ty, rfl, .identifier rfl hty (hstoring.found name ty hty)⟩
  | unknown => exact absurd hclean.head (info.flag_errors .unknownName)

/-- The type of the items is the least that accepts all of them. -/
theorem list (hstoring : Storing others) (hitems : AllShown symbols others items) :
    Shown symbols others (.list info items) := by
  intro hwhole typed h hclean
  rw [Expr.Whole] at hwhole
  cases expression_step h with
  | @list _ _ values _ hvalues hty =>
    subst hty
    obtain ⟨hsame, hvoid⟩ := map_asValue hclean.tail
    rw [hsame] at hclean ⊢
    have hsound : ∀ value ∈ values, value.Sound others := fun value hvalue =>
      hitems hwhole hvalues value hvalue (clean_of_mem hclean.tail value hvalue)
    refine ⟨_, rfl, .list rfl (component_storable fun value hvalue ty hty => ?_)
      (itemsFit hsound hvoid fun value hvalue ty hty => component_accepts hvoid hvalue hty)⟩
    obtain ⟨_, hgiven, hhas⟩ := hsound value hvalue
    cases hgiven.symm.trans hty
    exact (hhas.storable hstoring.results).resolve_left fun heq => hvoid value hvalue (heq ▸ hty)

theorem parenthesized (he : Shown symbols others e) :
    Shown symbols others (.parenthesized info e) := by
  intro hwhole typed h hclean
  rw [Expr.Whole] at hwhole
  cases expression_step h with
  | parenthesized hinner hgiven =>
    obtain ⟨ty, hty, hhas⟩ := he hwhole hinner hclean.tail
    rw [hgiven, hty]
    exact ⟨ty, rfl, .parenthesized rfl hhas⟩

theorem unary {op : UnaryOp} (he : Shown symbols others e) :
    Shown symbols others (.unary info op e) := by
  intro hwhole typed h hclean
  rw [Expr.Whole] at hwhole
  cases expression_step h with
  | unary hoperand => exact ⟨_, rfl, .unary rfl (he.expect hwhole hoperand hclean.tail)⟩

theorem binary {op : BinaryOp} (hleft : Shown symbols others left)
    (hright : Shown symbols others right) : Shown symbols others (.binary info op left right) := by
  intro hwhole typed h hclean
  rw [Expr.Whole] at hwhole
  cases expression_step h with
  | concat ha hb hjoins =>
    obtain ⟨rfl, -⟩ := hjoins
    obtain ⟨s, hs, hvoid⟩ := hleft.asValue hwhole.1 ha hclean.tail.left
    obtain ⟨t, ht, hvoid'⟩ := hright.asValue hwhole.2 hb hclean.tail.right
    exact ⟨_, rfl, .concat rfl hs ht hvoid hvoid'⟩
  | arithmetic ha hb =>
    exact ⟨_, rfl, .arithmetic rfl (hleft.expect hwhole.1 ha hclean.tail.left)
      (hright.expect hwhole.2 hb hclean.tail.right)⟩

theorem comparison {op : ComparisonOp} (hleft : Shown symbols others left)
    (hright : Shown symbols others right) :
    Shown symbols others (.comparison info op left right) := by
  intro hwhole typed h hclean
  rw [Expr.Whole] at hwhole
  cases expression_step h with
  | comparison ha hb =>
    exact ⟨_, rfl, .comparison rfl (hleft.expect hwhole.1 ha hclean.tail.left)
      (hright.expect hwhole.2 hb hclean.tail.right)⟩

theorem equality {op : EqualityOp} (hleft : Shown symbols others left)
    (hright : Shown symbols others right) :
    Shown symbols others (.equality info op left right) := by
  intro hwhole typed h hclean
  rw [Expr.Whole] at hwhole
  cases expression_step h with
  | equality ha hb =>
    obtain ⟨s, hs, hvoid⟩ := hleft.asValue hwhole.1 ha hclean.tail.left
    obtain ⟨t, ht, hvoid'⟩ := hright.asValue hwhole.2 hb hclean.tail.right
    exact ⟨_, rfl, .equality rfl hs ht hvoid hvoid'⟩

theorem call (hsight : SameSight symbols others) (hstoring : Storing others)
    (hitems : AllShown symbols others items) : Shown symbols others (.call info name items) := by
  intro hwhole typed h hclean
  rw [Expr.Whole] at hwhole
  cases expression_step h with
  | stray => exact absurd hclean.head (info.flag_errors .unknownName)
  | @call _ _ _ values signature hvalues hname =>
    have hsignature : others.function? name = some signature := by
      rw [Symbols.function?, hsight.functions]
      exact hname
    obtain ⟨hcount, -⟩ := Info.flagIf_clean hclean.head
    refine ⟨_, rfl, .call rfl hsignature (argsFit ?_ (hstoring.params name signature hsignature)
      hclean.tail (hitems hwhole hvalues))⟩
    simpa using hcount

end Shown

theorem AllShown.nil : AllShown symbols others [] := by
  intro _ values h
  rw [expressions_nil h]
  exact fun value hvalue => absurd hvalue List.not_mem_nil

theorem AllShown.cons {e : Expr Info} {rest : List (Expr Info)} (he : Shown symbols others e)
    (hrest : AllShown symbols others rest) : AllShown symbols others (e :: rest) := by
  intro hwhole values h
  rw [Expr.WholeAll] at hwhole
  obtain ⟨first, more, hfirst, hmore, rfl⟩ := expressions_cons h
  intro value hvalue hclean
  rcases List.mem_cons.1 hvalue with rfl | hvalue
  · exact he hwhole.1 hfirst hclean
  · exact hrest hwhole.2 hmore value hvalue hclean

mutual

theorem expression_hasType (hsight : SameSight symbols others) (hstoring : Storing others) :
    (e : Expr Info) → Shown symbols others e
  | .broken info _ => fun hwhole typed h hclean => by
    cases expression_step h
    rw [Expr.Whole] at hwhole
    exact absurd (hclean info List.mem_cons_self) hwhole
  | .identifier .. => .identifier hsight hstoring
  | .integer .. => fun _ typed h _ => by
    cases expression_step h
    exact ⟨_, rfl, .integer rfl⟩
  | .string .. => fun _ typed h _ => by
    cases expression_step h
    exact ⟨_, rfl, .string rfl⟩
  | .boolean .. => fun _ typed h _ => by
    cases expression_step h
    exact ⟨_, rfl, .boolean rfl⟩
  | .null _ => fun _ typed h _ => by
    cases expression_step h
    exact ⟨_, rfl, .null rfl⟩
  | .list _ items => .list hstoring (expressions_hasType hsight hstoring items)
  | .parenthesized _ inner => .parenthesized (expression_hasType hsight hstoring inner)
  | .unary _ _ operand => .unary (expression_hasType hsight hstoring operand)
  | .binary _ _ left right =>
    .binary (expression_hasType hsight hstoring left) (expression_hasType hsight hstoring right)
  | .comparison _ _ left right =>
    .comparison (expression_hasType hsight hstoring left) (expression_hasType hsight hstoring right)
  | .equality _ _ left right =>
    .equality (expression_hasType hsight hstoring left) (expression_hasType hsight hstoring right)
  | .call _ _ args => .call hsight hstoring (expressions_hasType hsight hstoring args)

theorem expressions_hasType (hsight : SameSight symbols others) (hstoring : Storing others) :
    (items : List (Expr Info)) → AllShown symbols others items
  | [] => .nil
  | e :: rest =>
    .cons (expression_hasType hsight hstoring e) (expressions_hasType hsight hstoring rest)

end
end Expressions

end Typing
end CatScript
