import CatScript.Proofs.Typing.Functions
import CatScript.Proofs.Typing.Clean

/-! # Programs that typing finds nothing wrong with

Where typing reports nothing, every statement can stand where it does (`Typing.statement_checks`),
and the program is well typed (`Typing.program_wellTyped`).  Typing has one scope for the variable
of a loop and its body; the rules have two, with the same names in sight. -/
set_option autoImplicit false
namespace CatScript

namespace Typing

section Shape
variable (f : Info → Info)

mutual

theorem returns_map : (s : Stmt Info) → returns (s.map f) = returns s
  | .ifThenElse _ _ thenBody elseBody => by
    simp only [Stmt.map, returns, alwaysReturns_map thenBody, alwaysReturns_map elseBody]
  | .returning _ none | .returning _ (some _) => by simp only [Stmt.map, returns]
  | .declaration .. | .assignment .. | .function .. | .ifThen .. | .loop .. | .print .. | .call ..
  | .broken .. | .bare _ => by simp only [Stmt.map, returns]

theorem alwaysReturns_map : (body : List (Stmt Info)) →
    alwaysReturns (Stmt.mapAll f body) = alwaysReturns body
  | [] => rfl
  | s :: rest => by
    simp only [Stmt.mapAll, alwaysReturns, returns_map s, alwaysReturns_map rest]

end

/-- The functions among statements are registered the same whatever their marks are. -/
theorem register_map (symbols : Symbols) (body : List (Stmt Info)) :
    (register symbols (Stmt.mapAll f body)).1 = (register symbols body).1 := by
  induction body generalizing symbols with
  | nil => rfl
  | cons s rest ih =>
    cases s with
    | function info name params returns inner => simp only [Stmt.mapAll, Stmt.map, register, ih]
    | returning info value => cases value <;> simp only [Stmt.mapAll, Stmt.map, register, ih]
    | _ => simp only [Stmt.mapAll, Stmt.map, register, ih]

theorem functionNames_map (body : List (Stmt Info)) :
    functionNames (Stmt.mapAll f body) = functionNames body := by
  induction body with
  | nil => rfl
  | cons s rest ih =>
    simp only [functionNames] at ih
    cases s with
    | returning info value =>
      cases value <;> simp only [Stmt.mapAll, Stmt.map, functionNames, List.filterMap_cons, ih]
    | _ => simp only [Stmt.mapAll, Stmt.map, functionNames, List.filterMap_cons, ih]

end Shape

theorem alwaysReturns_of_shape {body typed : List (Stmt Info)}
    (h : Stmt.mapAll Info.bare typed = Stmt.mapAll Info.bare body) :
    alwaysReturns typed = alwaysReturns body := by
  rw [← alwaysReturns_map Info.bare typed, h, alwaysReturns_map]

theorem initialSymbols_of_shape {body typed : List (Stmt Info)}
    (h : Stmt.mapAll Info.bare typed = Stmt.mapAll Info.bare body) :
    initialSymbols typed = initialSymbols body := by
  rw [initialSymbols, ← register_map Info.bare, h, register_map, initialSymbols]

section Symbols
variable {symbols others : Symbols} {name : String} {ty : Ty}

theorem typeOf?_declare (other : String) : (symbols.declare name ty).typeOf? other =
    if name = other then some ty else symbols.typeOf? other :=
  Scopes.find?_declare ..

theorem typeOf?_enter (other : String) : symbols.enter.typeOf? other = symbols.typeOf? other :=
  Scopes.find?_push ..

theorem declaredHere_declare (other : String) : (symbols.declare name ty).declaredHere other =
    (decide (name = other) || symbols.declaredHere other) := by
  rw [Symbols.declaredHere, Symbols.declare, Scopes.innermost_declare]
  by_cases h : name = other
  · simp [h]
  · simp [h, Symbols.declaredHere]

theorem SameSight.refl (symbols : Symbols) : SameSight symbols symbols :=
  ⟨fun _ => rfl, rfl⟩

theorem SameSight.enter (h : SameSight symbols others) : SameSight symbols.enter others.enter :=
  ⟨fun other => by rw [typeOf?_enter, typeOf?_enter, h.typeOf], h.functions⟩

theorem SameSight.declare (h : SameSight symbols others) (name : String) (ty : Ty) :
    SameSight (symbols.declare name ty) (others.declare name ty) :=
  ⟨fun other => by rw [typeOf?_declare, typeOf?_declare, h.typeOf], h.functions⟩

theorem SameSight.enter_right (h : SameSight symbols others) : SameSight symbols others.enter := by
  refine ⟨fun other => ?_, h.functions⟩
  exact (typeOf?_enter other).trans (h.typeOf other)

theorem Storing.enter (h : Storing symbols) : Storing symbols.enter := by
  refine ⟨fun other ty hty => ?_, h.params, h.results⟩
  exact h.found other ty (typeOf?_enter other ▸ hty)

theorem Storing.declare (h : Storing symbols) (name : String) (hty : ty.Storable) :
    Storing (symbols.declare name ty) := by
  refine ⟨fun other found hfound => ?_, h.params, h.results⟩
  rw [typeOf?_declare] at hfound
  split at hfound
  · cases hfound
    exact hty
  · exact h.found other found hfound

end Symbols

/-- Where a statement stands: what is around it, what typing knows there, and what the rules know. -/
structure Placed (around : Surroundings) (returns : Option Ty) (symbols others : Symbols) :
    Prop where
  returnType : around.returnType = .ok returns
  storable : ∀ ty, returns = some ty → ty = .void ∨ ty.Storable
  sight : SameSight symbols others
  /-- What typing takes for new is new. -/
  fresh : ∀ name, symbols.declaredHere name = false → others.declaredHere name = false
  storing : Storing others
  top : around.topLevel = true → others = symbols ∧ symbols.scopes.nested = [] ∧ returns = none

namespace Placed
variable {around : Surroundings} {returns : Option Ty} {symbols others : Symbols} {name : String}
  {ty : Ty}

theorem shown (h : Placed around returns symbols others) (e : Expr Info) : Shown symbols others e :=
  expression_hasType h.sight h.storing e

theorem inside (h : Placed around returns symbols others) :
    Placed around.inside returns symbols.enter others.enter :=
  ⟨h.returnType, h.storable, h.sight.enter, fun _ _ => rfl, h.storing.enter, nofun⟩

theorem loop (h : Placed around returns symbols others) (name : String) (hty : ty.Storable) :
    Placed around.inside returns (symbols.enter.declare name ty)
      (others.enter.declare name ty).enter := by
  have hsight := (h.sight.enter.declare name ty).enter_right
  have hstoring := (h.storing.enter.declare name hty).enter
  exact ⟨h.returnType, h.storable, hsight, fun _ _ => rfl, hstoring, nofun⟩

theorem declare (h : Placed around returns symbols others) (name : String) (hty : ty.Storable) :
    Placed around returns (symbols.declare name ty) (others.declare name ty) := by
  refine ⟨h.returnType, h.storable, h.sight.declare name ty, fun other hother => ?_,
    h.storing.declare name hty, fun htop => ?_⟩
  · rw [declaredHere_declare, Bool.or_eq_false_iff] at hother ⊢
    exact ⟨hother.1, h.fresh other hother.2⟩
  · obtain ⟨rfl, hnested, hreturns⟩ := h.top htop
    refine ⟨rfl, ?_, hreturns⟩
    rw [Symbols.declare, Scopes.declare, hnested]

end Placed

section Functions

theorem flagTimes_clean {problem : Problem} {times : Nat} {info : Info}
    (h : (flagTimes problem times info).errors = []) : times = 0 ∧ info.errors = [] := by
  induction times generalizing info with
  | zero => exact ⟨rfl, h⟩
  | succ times ih => exact absurd (ih h).2 (info.flag_errors problem)

theorem bindParameters_eq {params : List Parameter} {symbols inner : Symbols} {scope : Scope Ty}
    {rest : List (Scope Ty)} (hnested : symbols.scopes.nested = scope :: rest)
    (h : bindParameters symbols params = (inner, 0)) :
    (params.map Parameter.name).Nodup ∧
      (∀ name ∈ params.map Parameter.name, scope.find? name = none) ∧
      inner = ⟨⟨symbols.scopes.outermost,
        params.foldl (fun scope param => scope.bind param.name param.ty) scope :: rest⟩,
        symbols.functions⟩ := by
  induction params generalizing symbols scope with
  | nil =>
    obtain ⟨⟨outermost, nested⟩, functions⟩ := symbols
    cases hnested
    rw [bindParameters] at h
    cases h
    exact ⟨.nil, nofun, rfl⟩
  | cons param params ih =>
    rw [bindParameters] at h
    split at h
    · cases h
    · next hfresh =>
      have hinner : (symbols.declare param.name param.ty).scopes.nested =
          scope.bind param.name param.ty :: rest := by
        rw [Symbols.declare, Scopes.declare, hnested]
      obtain ⟨hnodup, hnone, heq⟩ := ih hinner h
      have hscope : scope.find? param.name = none := by
        simpa [Symbols.declaredHere, Scopes.innermost, hnested] using hfresh
      have hothers : ∀ name ∈ params.map Parameter.name,
          param.name ≠ name ∧ scope.find? name = none := by
        intro name hname
        have hbind := hnone name hname
        rw [Scope.find?_bind] at hbind
        by_cases hsame : param.name = name
        · rw [if_pos hsame] at hbind
          cases hbind
        · rw [if_neg hsame] at hbind
          exact ⟨hsame, hbind⟩
      refine ⟨List.nodup_cons.2 ⟨fun hmem => (hothers _ hmem).1 rfl, hnodup⟩,
        fun name hname => ?_, ?_⟩
      · rcases List.mem_cons.1 hname with rfl | hname
        · exact hscope
        · exact (hothers name hname).2
      · have houtermost : (symbols.declare param.name param.ty).scopes.outermost =
            symbols.scopes.outermost :=
          Scopes.outermost_declare (by rw [hnested]; exact List.cons_ne_nil _ _) _ _
        rw [heq, List.foldl_cons, houtermost]
        rfl

theorem parameterScope_storable {params : List Parameter} (h : ∀ param ∈ params, param.ty.Storable)
    {name : String} {ty : Ty} (hty : (parameterScope params).find? name = some ty) : ty.Storable := by
  have hfold : ∀ scope : Scope Ty, (∀ name ty, scope.find? name = some ty → ty.Storable) →
      ∀ name ty, (params.foldl (fun scope param => scope.bind param.name param.ty) scope).find? name =
        some ty → ty.Storable := by
    clear hty
    induction params with
    | nil => exact fun scope hscope => hscope
    | cons param rest ih =>
      refine fun scope hscope => ih (fun other hother => h other (List.mem_cons_of_mem _ hother)) _
        fun name ty hty => ?_
      rw [Scope.find?_bind] at hty
      split at hty
      · cases hty
        exact h param List.mem_cons_self
      · exact hscope name ty hty
  exact hfold [] nofun name ty hty

theorem Storing.function {symbols : Symbols} {params : List Parameter} (h : Storing symbols)
    (hnested : symbols.scopes.nested = []) (hparams : ∀ param ∈ params, param.ty.Storable) :
    Storing ⟨⟨symbols.scopes.outermost, [parameterScope params]⟩, symbols.functions⟩ := by
  refine ⟨fun name ty hty => ?_, h.params, h.results⟩
  rw [Symbols.typeOf?, Scopes.find?_cons] at hty
  rcases Option.or_eq_some_iff.1 hty with hfound | ⟨-, hfound⟩
  · exact parameterScope_storable hparams hfound
  · refine h.found name ty ?_
    rw [Symbols.typeOf?, ← hfound, ← hnested]

/-- A function without errors can be called by its name. -/
def Announced (symbols : Symbols) : Stmt Info → Prop
  | .function info name params returns _ =>
    info.errors = [] → symbols.function? name = some ⟨params.map Parameter.ty, returns⟩
  | _ => True

theorem register_keeps {symbols : Symbols} {name : String} {signature : Signature}
    (h : symbols.function? name = some signature) (body : List (Stmt Info)) :
    (register symbols body).1.function? name = some signature := by
  induction body generalizing symbols with
  | nil => exact h
  | cons s rest ih =>
    cases s with
    | function info other params returns inner =>
      rw [register]
      simp only [Symbols.register]
      cases hfound : symbols.functions.find? other with
      | some old => exact ih h
      | none =>
        refine ih ?_
        rw [Symbols.function?, Scope.find?_bind]
        by_cases hname : other = name
        · subst hname
          rw [Symbols.function?, hfound] at h
          cases h
        · rw [if_neg hname]
          exact h
    | _ => exact ih h

theorem register_announces (symbols : Symbols) (body : List (Stmt Info)) :
    ∀ s ∈ (register symbols body).2, Announced (register symbols body).1 s := by
  induction body generalizing symbols with
  | nil => exact fun s hs => (nomatch hs)
  | cons first rest ih =>
    cases first with
    | function info name params returns inner =>
      rw [register]
      simp only [Symbols.register]
      cases hfound : symbols.functions.find? name with
      | some old =>
        intro s hs
        rcases List.mem_cons.1 hs with rfl | hs
        · exact fun hclean => absurd hclean (info.flag_errors _)
        · exact ih symbols s hs
      | none =>
        intro s hs
        rcases List.mem_cons.1 hs with rfl | hs
        · refine fun _ => register_keeps ?_ rest
          rw [Symbols.function?, Scope.find?_bind, if_pos rfl]
        · exact ih _ s hs
    | _ =>
      intro s hs
      rcases List.mem_cons.1 hs with rfl | hs
      · trivial
      · exact ih symbols s hs

def Unflagged : Stmt Info → Prop
  | .function info .. => info.errors = []
  | _ => True

theorem register_names {symbols : Symbols} {body : List (Stmt Info)}
    (h : ∀ s ∈ (register symbols body).2, Unflagged s) :
    (functionNames body).Nodup ∧
      ∀ name ∈ functionNames body, symbols.function? name = none := by
  induction body generalizing symbols with
  | nil => exact ⟨.nil, nofun⟩
  | cons first rest ih =>
    cases first with
    | function info name params returns inner =>
      rw [register] at h
      simp only [Symbols.register] at h
      cases hfound : symbols.functions.find? name with
      | some old =>
        rw [hfound] at h
        exact absurd (h _ List.mem_cons_self) (info.flag_errors _)
      | none =>
        rw [hfound] at h
        obtain ⟨hnodup, hnone⟩ := ih fun s hs => h s (List.mem_cons_of_mem _ hs)
        have hothers : ∀ other ∈ functionNames rest,
            name ≠ other ∧ symbols.function? other = none := by
          intro other hother
          have hbind := hnone other hother
          rw [Symbols.function?, Scope.find?_bind] at hbind
          by_cases hsame : name = other
          · rw [if_pos hsame] at hbind
            cases hbind
          · rw [if_neg hsame] at hbind
            exact ⟨hsame, hbind⟩
        have hnames : functionNames (.function info name params returns inner :: rest) =
            name :: functionNames rest := rfl
        rw [hnames]
        refine ⟨List.nodup_cons.2 ⟨fun hmem => (hothers _ hmem).1 rfl, hnodup⟩,
          fun other hother => ?_⟩
        rcases List.mem_cons.1 hother with rfl | hother
        · exact hfound
        · exact (hothers other hother).2
    | _ => exact ih fun s hs => h s (List.mem_cons_of_mem _ hs)

theorem register_storing {body : List (Stmt Info)} :
    {symbols : Symbols} → Storing symbols → Stmt.WholeAll Info.Flagged false body →
    Storing (register symbols body).1 := by
  induction body with
  | nil => exact fun h _ => h
  | cons s rest ih =>
    intro symbols h hwhole
    rw [Stmt.WholeAll] at hwhole
    cases s with
    | function info name params returns inner =>
      rw [register]
      simp only [Symbols.register]
      cases hfound : symbols.functions.find? name with
      | some old => exact ih h hwhole.2
      | none =>
        have hs := hwhole.1
        rw [Stmt.Whole] at hs
        refine ih ⟨h.found, fun other signature hsignature => ?_, fun other signature hsignature => ?_⟩
          hwhole.2
        all_goals
          simp only [Symbols.function?, Scope.find?_bind] at hsignature
          split at hsignature
        · cases hsignature
          intro ty hty
          obtain ⟨param, hparam, rfl⟩ := List.mem_map.1 hty
          exact hs.1 param hparam
        · exact h.params other signature hsignature
        · cases hsignature
          exact hs.2.1
        · exact h.results other signature hsignature
    | _ => exact ih h hwhole.2

end Functions

theorem declaredType_fits {symbols : Symbols} {ty? : Option Ty} {value : Typed}
    (hstoring : Storing symbols) (hannotated : ∀ ty, ty? = some ty → ty.Storable)
    (hvalue : value.Sound symbols) (hvoid : value.ty ≠ some .void)
    (hfits : (ty?.any fun ty => value.ty.any fun given => !ty.accepts given) = false) :
    (declaredType ty? value.ty).Storable ∧
      Fits symbols value.expr (declaredType ty? value.ty) := by
  obtain ⟨given, hgiven, hhas⟩ := hvalue
  rw [hgiven] at hvoid hfits ⊢
  have hne : given ≠ .void := fun heq => hvoid (congrArg some heq)
  cases ty? with
  | some ty =>
    have haccepts : ty.accepts given = true := by simpa using hfits
    exact ⟨hannotated ty rfl, given, hhas, hne, haccepts⟩
  | none =>
    have hstorable := (hhas.storable hstoring.results).resolve_left hne
    by_cases hnull : given = .null
    · subst hnull
      exact ⟨trivial, .null, hhas, hne, rfl⟩
    · have hinferred : declaredType none (some given) = given := by
        cases given <;> first | rfl | exact absurd rfl hne | exact absurd rfl hnull
      rw [hinferred]
      exact ⟨hstorable, given, hhas, hne, Ty.accepts_self given⟩

theorem returning_nothing (expected : Ty) (info : Info) : returning (some expected) info none =
    (info.flagIf (expected != .void) .incompatibleTypes, none) := by
  cases expected <;> rfl

theorem returning_value {expected : Ty} (h : expected ≠ .void) (info : Info) (value : Typed) :
    returning (some expected) info (some value) = (info, some (value.fit expected)) := by
  cases expected <;> first | rfl | exact absurd rfl h

section Statements

theorem Announced.congr {symbols after : Symbols} (hsame : after.functions = symbols.functions)
    {s : Stmt Info} (h : Announced symbols s) : Announced after s := by
  cases s with
  | function info name params returns inner =>
    intro hclean
    rw [Symbols.function?, hsame]
    exact h hclean
  | _ => trivial

/-- Where nothing is reported of the statement, it can stand where it does. -/
def Accepted (s : Stmt Info) : Prop :=
  ∀ ⦃around : Surroundings⦄ ⦃returns : Option Ty⦄ ⦃symbols others after : Symbols⦄
    ⦃typed : Stmt Info⦄,
    s.Whole Info.Flagged returns.isSome → Placed around returns symbols others →
    (around.topLevel = true → Announced symbols s) →
    statement around symbols s = .ok (after, typed) → Clean typed.marks →
    ∃ later, Checks returns others typed later ∧ Placed around returns after later

def AllAccepted (body : List (Stmt Info)) : Prop :=
  ∀ ⦃around : Surroundings⦄ ⦃returns : Option Ty⦄ ⦃symbols others after : Symbols⦄
    ⦃typed : List (Stmt Info)⦄,
    Stmt.WholeAll Info.Flagged returns.isSome body → Placed around returns symbols others →
    (around.topLevel = true → ∀ s ∈ body, Announced symbols s) →
    statements around symbols body = .ok (after, typed) → Clean (Stmt.marksAll typed) →
    ∃ later, ChecksAll returns others typed later ∧ Placed around returns after later

namespace Accepted
variable {info : Info} {name : String} {value condition : Expr Info}
  {body thenBody elseBody : List (Stmt Info)}

theorem declaration {ty? : Option Ty} : Accepted (.declaration info name ty? value) := by
  intro around returns symbols others after typed hwhole hplaced _ h hclean
  rw [Stmt.Whole] at hwhole
  cases statement_step h with
  | declaration hvalue hty =>
    subst hty
    rw [Stmt.marks] at hclean
    obtain ⟨hsame, hvoid⟩ := Typed.Clean.asValue hclean.tail
    rw [hsame] at hclean ⊢
    obtain ⟨hagain, hmark⟩ := Info.flagIf_clean hclean.head
    obtain ⟨hmisfit, -⟩ := Info.flagIf_clean hmark
    rw [hagain]
    have hshown := hplaced.shown value hwhole.2 hvalue hclean.tail
    obtain ⟨hty, hfits⟩ := declaredType_fits hplaced.storing hwhole.1 hshown hvoid hmisfit
    exact ⟨_, .declaration rfl (hplaced.fresh name hagain) hty hfits, hplaced.declare name hty⟩

theorem assignment : Accepted (.assignment info name value) := by
  intro around returns symbols others after typed hwhole hplaced _ h hclean
  rw [Stmt.Whole] at hwhole
  cases statement_step h with
  | @assignment _ _ _ _ ty hvalue hty =>
    rw [Stmt.marks] at hclean
    have hty := (hplaced.sight.typeOf name).trans hty
    have hstorable := hplaced.storing.found name ty hty
    have hfits := (hplaced.shown value).fit hwhole hvalue hstorable hclean.tail
    exact ⟨_, .assignment rfl hty hstorable hfits, hplaced⟩
  | stray => exact absurd hclean.head (info.flag_errors .unknownName)

theorem function {params : List Parameter} {returns : Ty} (accepted : AllAccepted body) :
    Accepted (.function info name params returns body) := by
  intro around outer symbols others after typed hwhole hplaced hannounced h hclean
  rw [Stmt.Whole] at hwhole
  cases statement_step h with
  | function hbody =>
    rw [Stmt.marks] at hclean
    obtain ⟨hmissing, hmark⟩ := Info.flagIf_clean hclean.head
    obtain ⟨hagain, hmark⟩ := flagTimes_clean hmark
    obtain ⟨htop, hinfo⟩ := Info.flagIf_clean hmark
    have htop : around.topLevel = true := by simpa using htop
    obtain ⟨rfl, hnested, rfl⟩ := hplaced.top htop
    generalize hbound : bindParameters others.enter params = bound at hbody hagain
    obtain ⟨start, again⟩ := bound
    cases hagain
    obtain ⟨hdistinct, -, rfl⟩ := bindParameters_eq rfl hbound
    have hshape := alwaysReturns_of_shape (statements_shape body hbody)
    rw [hnested] at hbody
    have hinside := hplaced.storing.function hnested hwhole.1
    have hwholeBody : Stmt.WholeAll Info.Flagged (some returns).isSome body := hwhole.2.2
    obtain ⟨later, hchecks, -⟩ := accepted hwholeBody
      (⟨rfl, fun ty hty => Option.some.inj hty ▸ hwhole.2.1, .refl _, fun _ h => h, hinside,
        nofun⟩ : Placed (.ofFunction returns) (some returns) _ _) nofun hbody hclean.tail
    refine ⟨others, .function hnested (hannounced htop hinfo) ⟨hdistinct, hwhole.1, ?_⟩ hchecks,
      hplaced⟩
    by_cases hvoid : returns = .void
    · exact .inl hvoid
    · refine .inr ⟨hwhole.2.1.resolve_left hvoid, ?_⟩
      rw [hshape]
      simpa [hvoid] using hmissing

theorem ifThen (accepted : AllAccepted thenBody) : Accepted (.ifThen info condition thenBody) := by
  intro around returns symbols others after typed hwhole hplaced _ h hclean
  rw [Stmt.Whole] at hwhole
  cases statement_step h with
  | ifThen hcondition hthen =>
    rw [Stmt.marks] at hclean
    have hhas := (hplaced.shown condition).expect hwhole.1 hcondition hclean.tail.left
    obtain ⟨_, hchecks, -⟩ := accepted hwhole.2 hplaced.inside nofun hthen hclean.tail.right
    exact ⟨_, .ifThen hhas hchecks, hplaced⟩

theorem ifThenElse (hthenBody : AllAccepted thenBody) (helseBody : AllAccepted elseBody) :
    Accepted (.ifThenElse info condition thenBody elseBody) := by
  intro around returns symbols others after typed hwhole hplaced _ h hclean
  rw [Stmt.Whole] at hwhole
  cases statement_step h with
  | ifThenElse hcondition hthen helse =>
    rw [Stmt.marks] at hclean
    have hhas := (hplaced.shown condition).expect hwhole.1 hcondition hclean.tail.left.left
    obtain ⟨_, hchecks, -⟩ :=
      hthenBody hwhole.2.1 hplaced.inside nofun hthen hclean.tail.left.right
    obtain ⟨_, hchecks', -⟩ := helseBody hwhole.2.2 hplaced.inside nofun helse hclean.tail.right
    exact ⟨_, .ifThenElse hhas hchecks hchecks', hplaced⟩

/-- The variable of a loop has a scope of its own in the rules, around that of the body. -/
theorem loop (accepted : AllAccepted body) : Accepted (.loop info name value body) := by
  intro around returns symbols others after typed hwhole hplaced _ h hclean
  rw [Stmt.Whole] at hwhole
  cases statement_step h with
  | @loop _ _ _ _ _ items _ _ hiterable hty hbody =>
    subst hty
    rw [Stmt.marks] at hclean
    obtain ⟨given, hgiven, hhas⟩ := hplaced.shown value hwhole.1 hiterable hclean.tail.left
    rw [hgiven] at hclean hbody ⊢
    have hstorable := hhas.storable hplaced.storing.results
    cases given with
    | list component =>
      obtain ⟨hagain, -⟩ := Info.flagIf_clean hclean.head
      have hfresh : others.typeOf? name = none := by
        rw [hplaced.sight.typeOf]
        simpa using hagain
      have hcomponent : component.Storable := (hstorable.resolve_left nofun).component
      obtain ⟨_, hchecks, -⟩ := accepted hwhole.2 (hplaced.loop name hcomponent) nofun
        hbody hclean.tail.right
      exact ⟨_, .loop rfl hhas hfresh hchecks, hplaced⟩
    | _ => exact absurd hclean.head (List.append_ne_nil_of_right_ne_nil _ (List.cons_ne_nil _ _))

theorem print : Accepted (.print info value) := by
  intro around returns symbols others after typed hwhole hplaced _ h hclean
  rw [Stmt.Whole] at hwhole
  cases statement_step h with
  | print hvalue =>
    rw [Stmt.marks] at hclean
    obtain ⟨given, hhas, hvoid⟩ := (hplaced.shown value).asValue hwhole hvalue hclean.tail
    exact ⟨_, .print hhas hvoid, hplaced⟩

theorem call : Accepted (.call info value) := by
  intro around returns symbols others after typed hwhole hplaced _ h hclean
  rw [Stmt.Whole] at hwhole
  cases statement_step h with
  | call hvalue =>
    rw [Stmt.marks] at hclean
    obtain ⟨given, hgiven, hhas⟩ := hplaced.shown value hwhole hvalue hclean.tail
    exact ⟨_, .call hhas, hplaced⟩

theorem leave : Accepted (.returning info none) := by
  intro around returns symbols others after typed hwhole hplaced _ h hclean
  rw [Stmt.Whole] at hwhole
  obtain ⟨expected, rfl⟩ := Option.isSome_iff_exists.1 hwhole
  cases statement_step h with
  | leave hreturns =>
    cases hreturns.symm.trans hplaced.returnType
    rw [returning_nothing, Stmt.marks] at hclean
    obtain ⟨hvoid, -⟩ := Info.flagIf_clean hclean.head
    obtain rfl : expected = .void := by simpa using hvoid
    exact ⟨_, .leave, hplaced⟩

theorem returning : Accepted (.returning info (some value)) := by
  intro around returns symbols others after typed hwhole hplaced _ h hclean
  rw [Stmt.Whole] at hwhole
  obtain ⟨expected, rfl⟩ := Option.isSome_iff_exists.1 hwhole.1
  cases statement_step h with
  | returning hvalue hreturns =>
    cases hreturns.symm.trans hplaced.returnType
    by_cases hvoid : expected = .void
    · subst hvoid
      exact absurd (hclean _ (Stmt.mark_mem_marks _)) (info.flag_errors .incompatibleTypes)
    · rw [returning_value hvoid] at hclean ⊢
      rw [Option.map_some, Stmt.marks] at hclean
      have hstorable := (hplaced.storable expected rfl).resolve_left hvoid
      have hfits := (hplaced.shown value).fit hwhole.2 hvalue hstorable hclean.tail
      exact ⟨_, .returning hstorable hfits, hplaced⟩

theorem broken {text : String} : Accepted (.broken info text) := by
  intro around returns symbols others after typed hwhole hplaced _ h hclean
  rw [Stmt.Whole] at hwhole
  cases statement_step h
  exact absurd (hclean _ (Stmt.mark_mem_marks _)) hwhole

theorem bare : Accepted (.bare value) := by
  intro around returns symbols others after typed hwhole _ _ _ _
  rw [Stmt.Whole] at hwhole
  exact hwhole.elim

end Accepted

theorem AllAccepted.nil : AllAccepted [] := by
  intro around returns symbols others after typed _ hplaced _ h _
  obtain ⟨rfl, rfl⟩ := statements_nil h
  exact ⟨others, .nil, hplaced⟩

/-- The first statement announces no function, so that those after it still know them all. -/
theorem AllAccepted.cons {s : Stmt Info} {rest : List (Stmt Info)} (hs : Accepted s)
    (hrest : AllAccepted rest) : AllAccepted (s :: rest) := by
  intro around returns symbols others after typed hwhole hplaced hannounced h hclean
  rw [Stmt.WholeAll] at hwhole
  obtain ⟨middle, first, more, hfirst, hmore, rfl⟩ := statements_cons h
  rw [Stmt.marksAll] at hclean
  obtain ⟨later, hchecks, hlater⟩ := hs hwhole.1 hplaced
    (fun htop => hannounced htop s List.mem_cons_self) hfirst hclean.left
  have hsame : middle.functions = symbols.functions := by
    rw [← hlater.sight.functions, hchecks.grows.functions, hplaced.sight.functions]
  obtain ⟨latest, hchecksAll, hlatest⟩ := hrest hwhole.2 hlater
    (fun htop other hother =>
      (hannounced htop other (List.mem_cons_of_mem _ hother)).congr hsame) hmore hclean.right
  exact ⟨latest, .cons hchecks hchecksAll, hlatest⟩

mutual

theorem statement_checks : (s : Stmt Info) → Accepted s
  | .declaration .. => .declaration
  | .assignment .. => .assignment
  | .function _ _ _ _ body => .function (statements_checks body)
  | .ifThen _ _ thenBody => .ifThen (statements_checks thenBody)
  | .ifThenElse _ _ thenBody elseBody =>
    .ifThenElse (statements_checks thenBody) (statements_checks elseBody)
  | .loop _ _ _ body => .loop (statements_checks body)
  | .print .. => .print
  | .call .. => .call
  | .returning _ none => .leave
  | .returning _ (some _) => .returning
  | .broken .. => .broken
  | .bare _ => .bare

theorem statements_checks : (body : List (Stmt Info)) → AllAccepted body
  | [] => .nil
  | s :: rest => .cons (statement_checks s) (statements_checks rest)

end

/-- What is reported of a function stays reported. -/
theorem statement_unflagged {around : Surroundings} {symbols after : Symbols} {s typed : Stmt Info}
    (h : statement around symbols s = .ok (after, typed)) (hclean : Clean typed.marks) :
    Unflagged s := by
  cases s with
  | function info name params returns body =>
    cases statement_step h
    rw [Stmt.marks] at hclean
    obtain ⟨-, hmark⟩ := Info.flagIf_clean hclean.head
    obtain ⟨-, hmark⟩ := flagTimes_clean hmark
    exact (Info.flagIf_clean hmark).2
  | _ => trivial

theorem statements_unflagged {around : Surroundings} {body : List (Stmt Info)} :
    {symbols after : Symbols} → {typed : List (Stmt Info)} →
    statements around symbols body = .ok (after, typed) → Clean (Stmt.marksAll typed) →
    ∀ s ∈ body, Unflagged s := by
  induction body with
  | nil =>
    intro symbols after typed h hclean s hs
    cases hs
  | cons first rest ih =>
    intro symbols after typed h hclean s hs
    obtain ⟨middle, first', more, hfirst, hmore, rfl⟩ := statements_cons h
    rw [Stmt.marksAll] at hclean
    rcases List.mem_cons.1 hs with rfl | hs
    · exact statement_unflagged hfirst hclean.left
    · exact ih hmore hclean.right s hs

end Statements

theorem Storing.empty : Storing .empty :=
  ⟨nofun, nofun, nofun⟩

/-- A program of which typing reports nothing is well typed. -/
theorem program_wellTyped {p typed : Program Info} (hwhole : p.Whole Info.Flagged)
    (h : program (.ok none) p = .ok typed) (hclean : Clean typed.marks) : WellTyped typed := by
  cases program_step h with
  | @expression _ body _ hbody =>
    obtain ⟨ty, -, hhas⟩ :=
      expression_hasType (.refl .empty) .empty body hwhole hbody hclean.tail
    exact .expression hhas
  | @statements _ body inner last hbody =>
    have hinner : Clean (Stmt.marksAll inner) := hclean.tail
    have hbare : Stmt.mapAll Info.bare inner = Stmt.mapAll Info.bare body :=
      (statements_shape _ hbody).trans (register_shape .empty body)
    have hsymbols : initialSymbols inner = (register .empty body).1 := initialSymbols_of_shape hbare
    have hnames : functionNames inner = functionNames body := by
      rw [← functionNames_map Info.bare, hbare, functionNames_map]
    have hreturns : ∀ ty, (none : Option Ty) = some ty → ty = .void ∨ ty.Storable := by
      intro ty hty
      cases hty
    have hplaced : Placed (.ofProgram (.ok none)) none (register .empty body).1
        (register .empty body).1 :=
      ⟨rfl, hreturns, .refl _, fun _ h => h, register_storing .empty hwhole, fun _ =>
        ⟨rfl, congrArg Scopes.nested (register_scopes .empty body), rfl⟩⟩
    have hregistered : Stmt.WholeAll Info.Flagged (none : Option Ty).isSome
        (register .empty body).2 := register_whole .empty hwhole
    obtain ⟨later, hchecks, -⟩ := statements_checks _ hregistered hplaced
      (fun _ => register_announces .empty body) hbody hinner
    rw [← hsymbols] at hchecks
    exact .statements (hnames ▸ (register_names (statements_unflagged hbody hinner)).1) hchecks

end Typing
end CatScript
