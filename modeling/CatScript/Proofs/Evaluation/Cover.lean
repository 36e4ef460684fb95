import CatScript.Proofs.Evaluation.Alignment
import CatScript.Proofs.Evaluation.Follows
import CatScript.Proofs.Typing.Functions

/-! # Runs that cover each other

A run in which the variables of loops have scopes of their own, and in which no variable is used
before it is declared, does not change when loops declare their variables in the scope around them,
nor when variables have values from the start (`Covering.program`). -/
set_option autoImplicit false
namespace CatScript

/-- The second scopes hold what the first ones hold, and other names only out of sight. -/
structure Covers (shape : List Standing) (types : Scopes Ty) (scopes scopes' : Scopes Value) :
    Prop where
  outermost : Scope.Sub scopes.outermost scopes'.outermost
  nested : Aligned types.outermost scopes.outermost scopes'.outermost shape types.nested
    scopes.nested scopes'.nested
  names : Standing.scope ∉ shape → ∀ name, types.find? name = none →
    scopes.outermost.find? name = none

/-- From the first outermost scopes to the last, the one gets no names, and what only the covering
one has stays as it is; the latter holds as long as no variable of a loop is kept there. -/
structure Kept (shape : List Standing) (before before' after after' : Scope Value) : Prop where
  names : shape ≠ [] → ∀ name, before.find? name = none → after.find? name = none
  extras : shape.getLast? = some .scope → ∀ name, before.find? name = none →
    after'.find? name = before'.find? name

namespace Kept
variable {shape : List Standing} {standing : Standing} {a a' b b' c c' : Scope Value}

theorem refl : Kept shape a a' a a' := ⟨fun _ _ h => h, fun _ _ _ => rfl⟩

theorem trans (hab : Kept shape a a' b b') (hbc : Kept shape b b' c c') : Kept shape a a' c c' := by
  refine ⟨fun hshape name h => hbc.names hshape name (hab.names hshape name h),
    fun hshape name h => ?_⟩
  have hne : shape ≠ [] := by rintro rfl; cases hshape
  exact (hbc.extras hshape name (hab.names hne name h)).trans (hab.extras hshape name h)

theorem of_call (h : Kept [.scope] a a' b b') : Kept shape a a' b b' := by
  refine ⟨?_, ?_⟩
  · intro _
    exact h.names (List.cons_ne_nil _ _)
  · intro _
    exact h.extras rfl

theorem tail (h : Kept (standing :: shape) a a' b b') : Kept shape a a' b b' := by
  refine ⟨fun _ => h.names (List.cons_ne_nil _ _), fun hshape => h.extras ?_⟩
  cases shape with
  | nil => cases hshape
  | cons other shape => rwa [List.getLast?_cons_cons]

end Kept

/-- Nothing but the values of top-level variables has changed. -/
structure Calm (before before' after after' : Scopes Value) : Prop where
  nested : after.nested = before.nested
  nested' : after'.nested = before'.nested
  outermost : Scope.Sub after.outermost after'.outermost
  kept : Kept [.scope] before.outermost before'.outermost after.outermost after'.outermost

theorem Calm.trans {a a' b b' c c' : Scopes Value} (hab : Calm a a' b b') (hbc : Calm b b' c c') :
    Calm a a' c c' :=
  ⟨hbc.nested.trans hab.nested, hbc.nested'.trans hab.nested', hbc.outermost,
    hab.kept.trans hbc.kept⟩

namespace Covers
variable {shape : List Standing} {types : Scopes Ty} {scopes scopes' after after' : Scopes Value}
  {name : String} {value : Value}

theorem refl_calm (h : Covers shape types scopes scopes') : Calm scopes scopes' scopes scopes' :=
  ⟨rfl, rfl, h.outermost, .refl⟩

theorem calm (h : Covers shape types scopes scopes') (hcalm : Calm scopes scopes' after after') :
    Covers shape types after after' := by
  refine ⟨hcalm.outermost, ?_, fun hnil name hname => ?_⟩
  · rw [hcalm.nested, hcalm.nested']
    exact h.nested.outermost fun name hname =>
      ⟨hcalm.kept.names (List.cons_ne_nil _ _) name hname, hcalm.kept.extras rfl name hname⟩
  · exact hcalm.kept.names (List.cons_ne_nil _ _) name
      (h.names hnil name hname)

theorem find? (h : Covers shape types scopes scopes') {ty : Ty}
    (hty : types.find? name = some ty) (hvalue : scopes.find? name = some value) :
    scopes'.find? name = some value :=
  h.nested.find? h.outermost hty hvalue

theorem assign (h : Covers shape types scopes scopes') {ty : Ty}
    (hty : types.find? name = some ty) (hassign : scopes.assign? name value = some after) :
    ∃ after', scopes'.assign? name value = some after' ∧ Covers shape types after after' ∧
      Kept shape scopes.outermost scopes'.outermost after.outermost after'.outermost := by
  obtain ⟨after', hassign', hchanged⟩ := h.nested.assign h.outermost hty hassign
  refine ⟨after', hassign', ⟨hchanged.outermost, hchanged.aligned, fun hnone other hother => ?_⟩,
    fun _ => hchanged.names, fun hshape => hchanged.extras (by rw [hshape]; simp)⟩
  exact hchanged.names other (h.names hnone other hother)

theorem push (h : Covers shape types scopes scopes') :
    Covers (.scope :: shape) types.push scopes.push scopes'.push := by
  refine ⟨h.outermost, .scope .nil (.refl _) (fun _ _ hne => absurd rfl hne) h.nested,
    fun hnone => ?_⟩
  exact absurd List.mem_cons_self hnone

theorem declare (h : Covers shape types scopes scopes') (hshape : shape.head? ≠ some .loop)
    (name : String) (value : Value) (ty : Ty) :
    Covers shape (types.declare name ty) (scopes.declare name value)
      (scopes'.declare name value) ∧
      Kept shape scopes.outermost scopes'.outermost (scopes.declare name value).outermost
        (scopes'.declare name value).outermost := by
  obtain ⟨outermost, nested, names⟩ := h
  obtain ⟨globals, inner⟩ := types
  obtain ⟨values, rest⟩ := scopes
  obtain ⟨values', rest'⟩ := scopes'
  cases nested with
  | nil =>
    refine ⟨⟨outermost.bind name value, .nil, fun _ other hother => ?_⟩,
      fun hne => absurd rfl hne, fun hlast => (nomatch hlast)⟩
    have hother' := (Scopes.find?_declare ⟨globals, []⟩ name ty other).symm.trans hother
    by_cases hname : name = other
    · rw [if_pos hname] at hother'; cases hother'
    · rw [if_neg hname] at hother'
      exact (Scope.find?_bind ..).trans ((if_neg hname).trans (names List.not_mem_nil other hother'))
  | loop => exact absurd rfl hshape
  | @scope shape own nested first first' rest rest' hmatch hfirst hextra hrest =>
    refine ⟨⟨outermost, .scope (hmatch.bind name trivial) (hfirst.bind name value)
      (fun other hother hother' => ?_) hrest,
      fun hnone => absurd List.mem_cons_self hnone⟩, fun _ _ h => h, fun _ _ _ => rfl⟩
    rw [Scope.find?_bind] at hother hother'
    by_cases hname : name = other
    · rw [if_pos hname] at hother; cases hother
    · rw [if_neg hname] at hother hother'; exact hextra other hother hother'

/-- The variable of a loop has a scope of its own in the first scopes alone. -/
theorem leak (h : Covers shape types scopes scopes') (hname : types.find? name = none)
    (value : Value) (ty : Ty) :
    Covers (.loop :: shape) ⟨types.outermost, [(name, ty)] :: types.nested⟩
      ⟨scopes.outermost, [(name, value)] :: scopes.nested⟩ (scopes'.declare name value) ∧
      Kept shape scopes.outermost scopes'.outermost scopes.outermost
        (scopes'.declare name value).outermost := by
  have hextra := h.nested.extra hname value
  refine ⟨⟨fun other found hfound => ?_, .loop hname ?_ (fun hnil => ?_) hextra,
    fun hnone other hother => ?_⟩, fun _ _ h => h, fun hshape _ _ => ?_⟩
  · have hold := h.outermost other found hfound
    have hnested := h.nested
    obtain ⟨values', rest'⟩ := scopes'
    cases rest' with
    | cons first' rest' => exact hold
    | nil =>
      refine (Scope.find?_bind ..).trans ((if_neg ?_).trans hold)
      rintro rfl
      rw [h.names hnested.not_mem_of_nil name hname] at hfound
      cases hfound
  · exact Scopes.innermost_declare.trans (if_pos rfl)
  · rw [hnil] at hextra
    exact h.names hextra.not_mem_of_nil name hname
  · rw [Scopes.find?_cons, Option.or_eq_none_iff] at hother
    exact h.names (fun hmem => hnone (List.mem_cons_of_mem _ hmem)) other hother.2
  · have hne := h.nested.ne_nil hshape
    obtain ⟨values', rest'⟩ := scopes'
    cases rest' with
    | nil => exact absurd rfl hne
    | cons first' rest' => rfl

theorem pop {inner types : Scopes Ty} (h : Covers (.scope :: shape) inner scopes scopes')
    (houtermost : types.outermost = inner.outermost) (htail : inner.nested.tail = types.nested)
    (hnames : Standing.scope ∉ shape → ∀ name, types.find? name = none →
      scopes.outermost.find? name = none) :
    Covers shape types scopes.pop scopes'.pop := by
  obtain ⟨globals, nested⟩ := types
  obtain ⟨globals', nested'⟩ := inner
  obtain ⟨values, rest⟩ := scopes
  obtain ⟨values', rest'⟩ := scopes'
  obtain ⟨hsub, haligned, -⟩ := h
  cases houtermost
  cases haligned with
  | scope hmatch hfirst hextra hrest => cases htail; exact ⟨hsub, hrest, hnames⟩

theorem pop_loop {name : String} {ty : Ty}
    (h : Covers (.loop :: shape) ⟨types.outermost, [(name, ty)] :: types.nested⟩ scopes scopes')
    (hnames : Standing.scope ∉ shape → ∀ name, types.find? name = none →
      scopes.outermost.find? name = none) :
    Covers shape types scopes.pop scopes' ∧ ∃ value, scopes.nested.head? = some [(name, value)] := by
  obtain ⟨globals, nested⟩ := types
  obtain ⟨values, rest⟩ := scopes
  obtain ⟨hsub, haligned, -⟩ := h
  cases haligned with
  | loop hhidden hbound hfresh hrest => exact ⟨⟨hsub, hrest, hnames⟩, _, rfl⟩

end Covers

namespace Covering
open Typing Watch

def After (shape : List Standing) (types : Scopes Ty) (before before' : Scope Value) :
    Flow → Scopes Value → Scopes Value → Prop
  | .normal, after, after' =>
    Covers shape types after after' ∧ Kept shape before before' after.outermost after'.outermost
  | .returned _, after, after' =>
    Scope.Sub after.outermost after'.outermost ∧
      Kept shape before before' after.outermost after'.outermost

theorem After.trans {shape : List Standing} {types : Scopes Ty} {a a' b b' : Scope Value}
    {c c' : Scopes Value} {flow : Flow} (hkept : Kept shape a a' b b')
    (h : After shape types b b' flow c c') :
    After shape types a a' flow c c' := by
  cases flow with
  | normal => exact ⟨h.1, hkept.trans h.2⟩
  | returned value => exact ⟨h.1, hkept.trans h.2⟩

def CallsFollow (globals : Scope Ty) (table : Scope Signature) (invoke invoke' : Invoke Watch) :
    Prop :=
  ∀ definition signature, definition.WellTyped globals table signature →
    ∀ (bound : Scope Value) (store other : Store),
      Scope.Match (fun _ _ => True) bound (parameterScope definition.params) →
      store.output = other.output → Scope.Sub store.scopes.outermost other.scopes.outermost →
      Follows (invoke definition bound) (invoke' definition bound) store other
        fun _ => Calm store.scopes other.scopes

theorem block {m n : Watch Flow} {types : Scopes Ty} {table : Scope Signature} {inner : Symbols}
    {shape : List Standing} {store other : Store}
    (hcovers : Covers shape types store.scopes other.scopes)
    (hgrows : Grows ⟨types.push, table⟩ inner)
    (h : Follows m n (store.onScopes Scopes.push) (other.onScopes Scopes.push)
      (After (.scope :: shape) inner.scopes store.scopes.outermost other.scopes.outermost)) :
    Follows (Evaluator.inScope m) (Evaluator.inScope n) store other
      (After shape types store.scopes.outermost other.scopes.outermost) := by
  refine .inScope (h.mono fun flow after after' hflow => ?_)
  cases flow with
  | normal =>
    obtain ⟨hinner, hkept⟩ := hflow
    refine ⟨hinner.pop (hgrows.nested (List.cons_ne_nil _ _)).symm hgrows.tail
      fun hnone name hname => ?_, hkept.tail⟩
    exact hkept.names (List.cons_ne_nil _ _) name (hcovers.names hnone name hname)
  | returned value => exact ⟨hflow.1, hflow.2.tail⟩

section Loops
variable {types : Scopes Ty} {table : Scope Signature} {inner : Symbols} {shape : List Standing}
  {name : String} {ty : Ty} {m n : Watch Flow}

/-- The body of a loop follows itself in whatever scope the variable of the loop is. -/
def BodyFollows (types : Scopes Ty) (shape : List Standing) (name : String) (ty : Ty)
    (inner : Scopes Ty) (m n : Watch Flow) : Prop :=
  ∀ (standing : Standing) (store other : Store), store.output = other.output →
    Covers (.scope :: standing :: shape) ⟨types.outermost, [] :: [(name, ty)] :: types.nested⟩
      store.scopes other.scopes →
    Follows m n store other
      (After (.scope :: standing :: shape) inner store.scopes.outermost other.scopes.outermost)

def round (name : String) (ty : Ty) (m : Watch Flow) (item : Value) : Watch Flow := do
  let item ← Evaluator.lift (Evaluation.stored (some ty) item)
  Evaluator.lift (Evaluation.declare name item)
  Evaluator.inScope m

theorem round_follows (standing : Standing) {item : Value} {store other : Store}
    {post : Flow → Scopes Value → Scopes Value → Prop}
    (hgrows : Grows ⟨⟨types.outermost, [] :: [(name, ty)] :: types.nested⟩, table⟩ inner)
    (hbody : BodyFollows types shape name ty inner.scopes m n)
    (houtput : store.output = other.output)
    (hsub : Scope.Sub store.scopes.outermost other.scopes.outermost)
    (hdeclare : ∀ value, Covers (standing :: shape)
      ⟨types.outermost, [(name, ty)] :: types.nested⟩ (store.scopes.declare name value)
      (other.scopes.declare name value))
    (hpost : ∀ value flow after after', After (standing :: shape)
      ⟨types.outermost, [(name, ty)] :: types.nested⟩ (store.scopes.declare name value).outermost
      (other.scopes.declare name value).outermost flow after after' → post flow after after') :
    Follows (round name ty m item) (round name ty n item) store other post := by
  refine Follows.bind (P := fun _ t t' => t = store.scopes ∧ t' = other.scopes)
    (.lift (Evaluation.uniform_stored _ item) houtput hsub fun _ => ⟨rfl, rfl⟩) ?_
  intro value middle middle' houtput ⟨hmiddle, hmiddle'⟩
  refine Follows.bind (P := fun _ t t' => t = store.scopes.declare name value ∧
    t' = other.scopes.declare name value) (.ok rfl rfl houtput ?_) ?_
  · exact ⟨by rw [← hmiddle]; rfl, by rw [← hmiddle']; rfl⟩
  · intro _ middle middle' houtput ⟨hmiddle, hmiddle'⟩
    have hcovers := hdeclare value
    rw [← hmiddle, ← hmiddle'] at hcovers
    refine (block hcovers hgrows
      (hbody standing (middle.onScopes Scopes.push) (middle'.onScopes Scopes.push) houtput
        hcovers.push)).mono fun flow after after' hafter => ?_
    rw [hmiddle, hmiddle'] at hafter
    exact hpost value flow after after' hafter

theorem loop_own {items : List Value} {store other : Store}
    (hgrows : Grows ⟨⟨types.outermost, [] :: [(name, ty)] :: types.nested⟩, table⟩ inner)
    (hbody : BodyFollows types shape name ty inner.scopes m n)
    (houtput : store.output = other.output)
    (hcovers : Covers shape types store.scopes other.scopes) :
    Follows (Evaluator.inScope (Evaluation.eachItem (round name ty m) items))
      (Evaluator.inScope (Evaluation.eachItem (round name ty n) items)) store other
      (After shape types store.scopes.outermost other.scopes.outermost) := by
  have hitems : Follows (Evaluation.eachItem (round name ty m) items)
      (Evaluation.eachItem (round name ty n) items) (store.onScopes Scopes.push)
      (other.onScopes Scopes.push) _ := Follows.eachItem
    (fun t t' => ∃ own : Scope Ty, own.bind name ty = [(name, ty)] ∧
      Covers (.scope :: shape) ⟨types.outermost, own :: types.nested⟩ t t' ∧
      Kept (.scope :: shape) store.scopes.outermost other.scopes.outermost t.outermost t'.outermost)
    (fun _ t t' => Scope.Sub t.outermost t'.outermost ∧
      Kept (.scope :: shape) store.scopes.outermost other.scopes.outermost t.outermost t'.outermost)
    (fun item store' other' houtput ⟨own, hown, hstart, hkept⟩ => by
      have hdeclare := fun value => hstart.declare (by simp) name value ty
      have hbind : (Scopes.declare name ty ⟨types.outermost, own :: types.nested⟩) =
          ⟨types.outermost, [(name, ty)] :: types.nested⟩ := by rw [← hown]; rfl
      simp only [hbind] at hdeclare
      refine round_follows .scope hgrows hbody houtput hstart.outermost
        (fun value => (hdeclare value).1) ?_
      intro value flow after after' hafter
      have hkept' := hkept.trans (hdeclare value).2
      cases flow with
      | normal => exact ⟨_, by simp [Scope.bind], hafter.1, hkept'.trans hafter.2⟩
      | returned result => exact ⟨hafter.1, hkept'.trans hafter.2⟩)
    houtput ⟨[], rfl, hcovers.push, .refl⟩
  refine .inScope (hitems.mono fun flow after after' hflow => ?_)
  cases flow with
  | normal =>
    obtain ⟨own, -, hinner, hkept⟩ := hflow
    exact ⟨hinner.pop rfl rfl fun hnone other hother => hkept.names (List.cons_ne_nil _ _) other
      (hcovers.names hnone other hother), hkept.tail⟩
  | returned value => exact ⟨hflow.1, hflow.2.tail⟩

theorem loop_around {items : List Value} {store other : Store}
    (hgrows : Grows ⟨⟨types.outermost, [] :: [(name, ty)] :: types.nested⟩, table⟩ inner)
    (hname : types.find? name = none) (hbody : BodyFollows types shape name ty inner.scopes m n)
    (houtput : store.output = other.output)
    (hcovers : Covers shape types store.scopes other.scopes) :
    Follows (Evaluator.inScope (Evaluation.eachItem (round name ty m) items))
      (Evaluation.eachItem (round name ty n) items) store other
      (After shape types store.scopes.outermost other.scopes.outermost) := by
  have hitems : Follows (Evaluation.eachItem (round name ty m) items)
      (Evaluation.eachItem (round name ty n) items) (store.onScopes Scopes.push) other _ :=
    Follows.eachItem (fun t t' =>
      (∀ value, t.declare name value = ⟨t.outermost, [(name, value)] :: t.pop.nested⟩) ∧
      Covers shape types t.pop t' ∧
        Kept shape store.scopes.outermost other.scopes.outermost t.outermost t'.outermost)
    (fun _ t t' => Scope.Sub t.outermost t'.outermost ∧
      Kept shape store.scopes.outermost other.scopes.outermost t.outermost t'.outermost)
    (fun item store' other' houtput ⟨hfirst, hstart, hkept⟩ => by
      have hleak := fun value => hstart.leak hname value ty
      refine round_follows .loop hgrows hbody houtput hstart.outermost (fun value => ?_) ?_
      · rw [hfirst]; exact (hleak value).1
      · intro value flow after after' hafter
        have hkept' := hkept.trans (hleak value).2
        rw [hfirst] at hafter
        cases flow with
        | normal =>
          obtain ⟨hafter, hkept''⟩ := hafter
          have hlast := hkept'.trans (hkept''.tail)
          obtain ⟨hpop, last, hhead⟩ := hafter.pop_loop fun hnone other hother =>
            hkept''.names (List.cons_ne_nil _ _) other (hstart.names hnone other hother)
          refine ⟨fun value => ?_, hpop, hlast⟩
          obtain ⟨values, rest⟩ := after
          cases rest with
          | nil => cases hhead
          | cons first rest => cases hhead; simp [Scopes.declare, Scope.bind, Scopes.pop]
        | returned result => exact ⟨hafter.1, hkept'.trans hafter.2.tail⟩)
    houtput ⟨fun _ => rfl, hcovers, .refl⟩
  refine .inScope_left (hitems.mono fun flow after after' hflow => ?_)
  cases flow with
  | normal => exact hflow.2
  | returned value => exact hflow

end Loops

section Trees
variable {globals : Scope Ty} {table : Scope Signature} {functions : Scope Definition}
  {invoke invoke' : Invoke Watch}

section Expressions

/-- Well-typed, the expression is evaluated in both runs alike, and nothing but its calls changes
the scopes. -/
def ExpressionFollows (table : Scope Signature) (functions : Scope Definition)
    (invoke invoke' : Invoke Watch) (e : Expr Info) : Prop :=
  ∀ ⦃types : Scopes Ty⦄ ⦃shape : List Standing⦄ ⦃ty : Ty⦄, HasType ⟨types, table⟩ e ty →
    ∀ ⦃store other : Store⦄, store.output = other.output →
      Covers shape types store.scopes other.scopes →
      Follows (Evaluation.expression functions invoke e) (Evaluation.expression functions invoke' e)
        store other fun _ => Calm store.scopes other.scopes

def ItemsFollow (table : Scope Signature) (functions : Scope Definition)
    (invoke invoke' : Invoke Watch) (items : List (Expr Info)) : Prop :=
  ∀ ⦃types : Scopes Ty⦄ ⦃shape : List Standing⦄ ⦃component : Ty⦄,
    ItemsFit ⟨types, table⟩ items component → ∀ ⦃store other : Store⦄,
      store.output = other.output → Covers shape types store.scopes other.scopes →
      Follows (Evaluation.expressions functions invoke items)
        (Evaluation.expressions functions invoke' items) store other
        fun _ => Calm store.scopes other.scopes

def ArgumentsFollow (table : Scope Signature) (functions : Scope Definition)
    (invoke invoke' : Invoke Watch) (args : List (Expr Info)) : Prop :=
  ∀ ⦃types : Scopes Ty⦄ ⦃shape : List Standing⦄ ⦃params : List Parameter⦄,
    ArgsFit ⟨types, table⟩ args (params.map Parameter.ty) →
    ∀ ⦃bound : Scope Value⦄ ⦃own : Scope Ty⦄, Scope.Match (fun _ _ => True) bound own →
      ∀ ⦃store other : Store⦄, store.output = other.output →
        Covers shape types store.scopes other.scopes →
        Follows (Evaluation.arguments functions invoke params args bound)
          (Evaluation.arguments functions invoke' params args bound) store other
          fun bound after after' =>
            Scope.Match (fun _ _ => True) bound
              (params.foldl (fun scope param => scope.bind param.name param.ty) own) ∧
            Calm store.scopes other.scopes after after'

/-- Whatever is looked at but does not change the scopes goes on from where it was. -/
theorem settled {α : Type} {m : Eval α} (hm : Evaluation.Uniform m) {a a' : Scopes Value}
    {store other : Store} (houtput : store.output = other.output)
    (hcalm : Calm a a' store.scopes other.scopes) :
    Follows (Evaluator.lift m) (Evaluator.lift m) store other fun _ => Calm a a' :=
  .lift hm houtput hcalm.outermost fun _ => hcalm

namespace ExpressionFollows
variable {e left right : Expr Info} {info : Info}

theorem identifier {name : String} :
    ExpressionFollows table functions invoke invoke' (.identifier info name) := by
  intro types shape ty htype store other houtput hcovers
  cases htype with
  | identifier _ hty _ =>
    rw [Evaluation.expression, Evaluation.expression]
    refine .seeing _ ?_
    cases hfind : store.scopes.find? name with
    | none => exact .missing (by rw [lift_apply, Evaluation.load_eq, hfind])
    | some value =>
      have hfind' := hcovers.find? hty hfind
      exact .ok (by rw [lift_apply, Evaluation.load_eq, hfind])
        (by rw [lift_apply, Evaluation.load_eq, hfind']) houtput hcovers.refl_calm

theorem list {items : List (Expr Info)} (hitems : ItemsFollow table functions invoke invoke' items) :
    ExpressionFollows table functions invoke invoke' (.list info items) := by
  intro types shape ty htype store other houtput hcovers
  cases htype with
  | list _ _ hfit =>
    rw [Evaluation.expression, Evaluation.expression]
    exact .seeing _ ((hitems hfit houtput hcovers).bind
      fun _ _ _ houtput hcalm => .pure houtput hcalm)

theorem parenthesized (he : ExpressionFollows table functions invoke invoke' e) :
    ExpressionFollows table functions invoke invoke' (.parenthesized info e) := by
  intro types shape ty htype store other houtput hcovers
  cases htype with
  | parenthesized _ hinner =>
    rw [Evaluation.expression, Evaluation.expression]
    exact .seeing _ (he hinner houtput hcovers)

theorem unary {op : UnaryOp} (he : ExpressionFollows table functions invoke invoke' e) :
    ExpressionFollows table functions invoke invoke' (.unary info op e) := by
  intro types shape ty htype store other houtput hcovers
  cases htype with
  | unary _ hoperand =>
    rw [Evaluation.expression, Evaluation.expression]
    refine .seeing _ ((he hoperand houtput hcovers).bind ?_)
    intro value after after' houtput hcalm
    cases op with
    | negate =>
      exact (settled (Evaluation.uniform_asInteger _ value) houtput hcalm).bind
        fun _ _ _ houtput hcalm => .pure houtput hcalm
    | not =>
      exact (settled (Evaluation.uniform_asBoolean _ value) houtput hcalm).bind
        fun _ _ _ houtput hcalm => .pure houtput hcalm

theorem second (hright : ExpressionFollows table functions invoke invoke' right)
    {types : Scopes Ty} {shape : List Standing} {ty : Ty} (htype : HasType ⟨types, table⟩ right ty)
    {a a' : Scopes Value} {store other : Store} (houtput : store.output = other.output)
    (hcovers : Covers shape types a a') (hcalm : Calm a a' store.scopes other.scopes) :
    Follows (Evaluation.expression functions invoke right) (Evaluation.expression functions invoke' right)
      store other fun _ => Calm a a' := by
  refine (hright htype houtput (hcovers.calm hcalm)).mono fun _ _ _ hcalm' => ?_
  exact hcalm.trans hcalm'

theorem binary {op : BinaryOp} (hleft : ExpressionFollows table functions invoke invoke' left)
    (hright : ExpressionFollows table functions invoke invoke' right) :
    ExpressionFollows table functions invoke invoke' (.binary info op left right) := by
  intro types shape ty htype store other houtput hcovers
  obtain ⟨a, b, ha, hb⟩ : ∃ a b, HasType ⟨types, table⟩ left a ∧
      HasType ⟨types, table⟩ right b := by
    cases htype with
    | concat _ ha hb _ _ => exact ⟨_, _, ha, hb⟩
    | arithmetic _ ha hb => exact ⟨_, _, ha, hb⟩
  rw [Evaluation.expression, Evaluation.expression]
  refine .seeing _ ((hleft ha houtput hcovers).bind ?_)
  intro a middle middle' houtput hcalm
  refine (hright.second hb houtput hcovers hcalm).bind ?_
  intro b after after' houtput hcalm
  split
  · exact .pure houtput hcalm
  · exact settled (Evaluation.uniform_arithmetic op a b) houtput hcalm

theorem comparison {op : ComparisonOp}
    (hleft : ExpressionFollows table functions invoke invoke' left)
    (hright : ExpressionFollows table functions invoke invoke' right) :
    ExpressionFollows table functions invoke invoke' (.comparison info op left right) := by
  intro types shape ty htype store other houtput hcovers
  cases htype with
  | comparison _ ha hb =>
    rw [Evaluation.expression, Evaluation.expression]
    refine .seeing _ ((hleft ha houtput hcovers).bind ?_)
    intro a middle middle' houtput hcalm
    refine (settled (Evaluation.uniform_asInteger _ a) houtput hcalm).bind ?_
    intro m middle middle' houtput hcalm
    refine (hright.second hb houtput hcovers hcalm).bind ?_
    intro b after after' houtput hcalm
    exact (settled (Evaluation.uniform_asInteger _ b) houtput hcalm).bind
      fun _ _ _ houtput hcalm => .pure houtput hcalm

theorem equality {op : EqualityOp} (hleft : ExpressionFollows table functions invoke invoke' left)
    (hright : ExpressionFollows table functions invoke invoke' right) :
    ExpressionFollows table functions invoke invoke' (.equality info op left right) := by
  intro types shape ty htype store other houtput hcovers
  cases htype with
  | equality _ ha hb _ _ =>
    rw [Evaluation.expression, Evaluation.expression]
    refine .seeing _ ((hleft ha houtput hcovers).bind ?_)
    intro a middle middle' houtput hcalm
    refine (hright.second hb houtput hcovers hcalm).bind ?_
    intro b after after' houtput hcalm
    cases op <;> exact .pure houtput hcalm

theorem call {name : String} {args : List (Expr Info)}
    (hdefined : WellDefined globals table functions)
    (hcalls : CallsFollow globals table invoke invoke')
    (hargs : ArgumentsFollow table functions invoke invoke' args) :
    ExpressionFollows table functions invoke invoke' (.call info name args) := by
  intro types shape ty htype store other houtput hcovers
  cases htype with
  | @call _ _ _ signature _ hfunction hfit =>
    obtain ⟨definition, hfind, hdefinition⟩ := hdefined name signature hfunction
    rw [hdefinition.params] at hfit
    have hlength : definition.params.length = args.length := by
      rw [hfit.length, List.length_map]
    rw [Evaluation.expression, Evaluation.expression, hfind]
    refine .seeing _ ?_
    dsimp only
    rw [if_neg (fun h => h hlength), if_neg (fun h => h hlength)]
    refine (hargs hfit .nil houtput hcovers).bind ?_
    intro bound after after' houtput ⟨hbound, hcalm⟩
    exact (hcalls definition signature hdefinition bound after after' hbound houtput
      hcalm.outermost).mono fun _ _ _ hcalm' => hcalm.trans hcalm'

end ExpressionFollows

theorem ItemsFollow.nil : ItemsFollow table functions invoke invoke' [] := by
  intro types shape component _ store other houtput hcovers
  rw [Evaluation.expressions, Evaluation.expressions]
  exact .pure houtput hcovers.refl_calm

theorem ItemsFollow.cons {e : Expr Info} {rest : List (Expr Info)}
    (he : ExpressionFollows table functions invoke invoke' e)
    (hrest : ItemsFollow table functions invoke invoke' rest) :
    ItemsFollow table functions invoke invoke' (e :: rest) := by
  intro types shape component hfit store other houtput hcovers
  cases hfit with
  | cons htype _ _ hfit =>
    rw [Evaluation.expressions, Evaluation.expressions]
    refine (he htype houtput hcovers).bind ?_
    intro value middle middle' houtput hcalm
    refine (hrest hfit houtput (hcovers.calm hcalm)).bind ?_
    exact fun _ _ _ houtput hcalm' => .pure houtput (hcalm.trans hcalm')

theorem ArgumentsFollow.nil : ArgumentsFollow table functions invoke invoke' [] := by
  intro types shape params hfit bound own hbound store other houtput hcovers
  cases params with
  | nil =>
    simp only [Evaluation.arguments]
    exact .pure houtput ⟨hbound, hcovers.refl_calm⟩
  | cons param params => cases hfit

theorem ArgumentsFollow.cons {arg : Expr Info} {args : List (Expr Info)}
    (harg : ExpressionFollows table functions invoke invoke' arg)
    (hargs : ArgumentsFollow table functions invoke invoke' args) :
    ArgumentsFollow table functions invoke invoke' (arg :: args) := by
  intro types shape params hfit bound own hbound store other houtput hcovers
  cases params with
  | nil => cases hfit
  | cons param params =>
    cases hfit with
    | cons htype _ _ hfit =>
      rw [Evaluation.arguments, Evaluation.arguments]
      refine (harg htype houtput hcovers).bind ?_
      intro value middle middle' houtput hcalm
      refine (settled (Evaluation.uniform_stored _ value) houtput hcalm).bind ?_
      intro kept middle middle' houtput hcalm
      refine (hargs hfit (hbound.bind param.name (y := param.ty) trivial) houtput
        (hcovers.calm hcalm)).mono ?_
      exact fun _ _ _ ⟨hmatch, hcalm'⟩ => ⟨hmatch, hcalm.trans hcalm'⟩

mutual

theorem expression (hdefined : WellDefined globals table functions)
    (hcalls : CallsFollow globals table invoke invoke') :
    (e : Expr Info) → ExpressionFollows table functions invoke invoke' e
  | .identifier .. => .identifier
  | .integer .. | .string .. | .boolean .. | .null _ => fun _ _ _ _ _ _ houtput hcovers => by
    rw [Evaluation.expression, Evaluation.expression]
    exact .seeing _ (.pure houtput hcovers.refl_calm)
  | .list _ items => .list (expressions hdefined hcalls items)
  | .parenthesized _ e => .parenthesized (expression hdefined hcalls e)
  | .unary _ _ e => .unary (expression hdefined hcalls e)
  | .binary _ _ left right =>
    .binary (expression hdefined hcalls left) (expression hdefined hcalls right)
  | .comparison _ _ left right =>
    .comparison (expression hdefined hcalls left) (expression hdefined hcalls right)
  | .equality _ _ left right =>
    .equality (expression hdefined hcalls left) (expression hdefined hcalls right)
  | .call _ _ args => .call hdefined hcalls (arguments hdefined hcalls args)
  | .broken .. => fun _ _ _ htype => by cases htype

theorem expressions (hdefined : WellDefined globals table functions)
    (hcalls : CallsFollow globals table invoke invoke') :
    (items : List (Expr Info)) → ItemsFollow table functions invoke invoke' items
  | [] => .nil
  | e :: rest => .cons (expression hdefined hcalls e) (expressions hdefined hcalls rest)

theorem arguments (hdefined : WellDefined globals table functions)
    (hcalls : CallsFollow globals table invoke invoke') :
    (args : List (Expr Info)) → ArgumentsFollow table functions invoke invoke' args
  | [] => .nil
  | arg :: args => .cons (expression hdefined hcalls arg) (arguments hdefined hcalls args)

end
end Expressions

section Statements

/-- Well-typed, the statement is carried out in both runs alike, whatever the second one does about
the variables of loops. -/
def StatementFollows (table : Scope Signature) (functions : Scope Definition)
    (invoke invoke' : Invoke Watch) (rule : LoopRule) (returns : Option Ty) (s : Stmt Info) :
    Prop :=
  ∀ ⦃types : Scopes Ty⦄ ⦃symbols : Symbols⦄, Checks returns ⟨types, table⟩ s symbols →
    ∀ ⦃shape : List Standing⦄, shape.head? ≠ some .loop → ∀ ⦃store other : Store⦄,
      store.output = other.output → Covers shape types store.scopes other.scopes →
      Follows (Evaluation.statement functions invoke .own s)
        (Evaluation.statement functions invoke' rule s) store other
        (After shape symbols.scopes store.scopes.outermost other.scopes.outermost)

def StatementsFollow (table : Scope Signature) (functions : Scope Definition)
    (invoke invoke' : Invoke Watch) (rule : LoopRule) (returns : Option Ty)
    (body : List (Stmt Info)) : Prop :=
  ∀ ⦃types : Scopes Ty⦄ ⦃symbols : Symbols⦄, ChecksAll returns ⟨types, table⟩ body symbols →
    ∀ ⦃shape : List Standing⦄, shape.head? ≠ some .loop → ∀ ⦃store other : Store⦄,
      store.output = other.output → Covers shape types store.scopes other.scopes →
      Follows (Evaluation.statements functions invoke .own body)
        (Evaluation.statements functions invoke' rule body) store other
        (After shape symbols.scopes store.scopes.outermost other.scopes.outermost)

variable {rule : LoopRule} {returns : Option Ty} {info : Info} {e : Expr Info}
  {body other : List (Stmt Info)} {types : Scopes Ty} {shape : List Standing} {ty : Ty}
  {store store' : Store} {post : Flow → Scopes Value → Scopes Value → Prop}

theorem kept (he : ExpressionFollows table functions invoke invoke' e) {declared : Option Ty}
    (htype : HasType ⟨types, table⟩ e ty) (houtput : store.output = store'.output)
    (hcovers : Covers shape types store.scopes store'.scopes) {m n : Value → Watch Flow}
    (h : ∀ value (middle middle' : Store), middle.output = middle'.output →
      Calm store.scopes store'.scopes middle.scopes middle'.scopes →
      Follows (m value) (n value) middle middle' post) :
    Follows
      (do
        let value ← Evaluation.expression functions invoke e
        let value ← Evaluator.lift (Evaluation.stored declared value)
        m value)
      (do
        let value ← Evaluation.expression functions invoke' e
        let value ← Evaluator.lift (Evaluation.stored declared value)
        n value)
      store store' post := by
  refine (he htype houtput hcovers).bind ?_
  intro value middle middle' houtput hcalm
  exact (settled (Evaluation.uniform_stored _ value) houtput hcalm).bind
    fun value middle middle' houtput hcalm => h value middle middle' houtput hcalm

/-- A branch that is taken is a block around which nothing has changed but by calls. -/
theorem taken (hbody : StatementsFollow table functions invoke invoke' rule returns body)
    {inner : Symbols} (hchecks : ChecksAll returns ⟨types.push, table⟩ body inner)
    (hcovers : Covers shape types store.scopes store'.scopes) {middle middle' : Store}
    (houtput : middle.output = middle'.output)
    (hcalm : Calm store.scopes store'.scopes middle.scopes middle'.scopes) :
    Follows (Evaluator.inScope (Evaluation.statements functions invoke .own body))
      (Evaluator.inScope (Evaluation.statements functions invoke' rule body)) middle middle'
      (After shape types store.scopes.outermost store'.scopes.outermost) := by
  have hmiddle := hcovers.calm hcalm
  have hhead : (Standing.scope :: shape).head? ≠ some .loop := by simp
  exact (block hmiddle hchecks.grows (hbody hchecks hhead houtput hmiddle.push)).mono
    fun _ _ _ hafter => hafter.trans hcalm.kept.of_call

theorem decided (he : ExpressionFollows table functions invoke invoke' e)
    (htype : HasType ⟨types, table⟩ e ty) (houtput : store.output = store'.output)
    (hcovers : Covers shape types store.scopes store'.scopes) {m n p q : Watch Flow}
    (hthen : ∀ middle middle' : Store, middle.output = middle'.output →
      Calm store.scopes store'.scopes middle.scopes middle'.scopes →
      Follows m n middle middle' post)
    (helse : ∀ middle middle' : Store, middle.output = middle'.output →
      Calm store.scopes store'.scopes middle.scopes middle'.scopes →
      Follows p q middle middle' post) :
    Follows
      (do
        let test ← Evaluation.expression functions invoke e
        if ← Evaluator.lift (Evaluation.asBoolean .condition test) then m else p)
      (do
        let test ← Evaluation.expression functions invoke' e
        if ← Evaluator.lift (Evaluation.asBoolean .condition test) then n else q)
      store store' post := by
  refine (he htype houtput hcovers).bind ?_
  intro test middle middle' houtput hcalm
  refine (settled (Evaluation.uniform_asBoolean _ test) houtput hcalm).bind ?_
  intro b middle middle' houtput hcalm
  cases b with
  | false => exact helse middle middle' houtput hcalm
  | true => exact hthen middle middle' houtput hcalm

namespace StatementFollows

theorem declaration {name : String} {declared : Option Ty}
    (he : ExpressionFollows table functions invoke invoke' e) :
    StatementFollows table functions invoke invoke' rule returns
      (.declaration info name declared e) := by
  intro types symbols hchecks shape hshape store store' houtput hcovers
  cases hchecks with
  | declaration _ _ _ hvalue =>
    obtain ⟨source, hsource, -, -⟩ := hvalue
    rw [Evaluation.statement, Evaluation.statement]
    refine kept he hsource houtput hcovers ?_
    intro value middle middle' houtput hcalm
    have hdeclare := (hcovers.calm hcalm).declare hshape name value
    exact .ok rfl rfl houtput ⟨(hdeclare _).1, hcalm.kept.of_call.trans (hdeclare .int).2⟩

theorem assignment {name : String} (he : ExpressionFollows table functions invoke invoke' e) :
    StatementFollows table functions invoke invoke' rule returns (.assignment info name e) := by
  intro types symbols hchecks shape hshape store store' houtput hcovers
  cases hchecks with
  | assignment _ hty _ hvalue =>
    obtain ⟨source, hsource, -, -⟩ := hvalue
    rw [Evaluation.statement, Evaluation.statement]
    refine kept he hsource houtput hcovers ?_
    intro value middle middle' houtput hcalm
    refine Follows.bind (P := fun _ => After shape types store.scopes.outermost
      store'.scopes.outermost .normal) ?_
      fun _ _ _ houtput hafter => .pure houtput hafter
    cases hassign : middle.scopes.assign? name value with
    | none => exact .missing (by rw [lift_apply, Evaluation.assign_eq, hassign])
    | some after =>
      obtain ⟨after', hassign', hafter, hkept⟩ := (hcovers.calm hcalm).assign hty hassign
      have hrun : (Evaluator.lift (Evaluation.assign name value) : Watch Unit) middle =
          (.ok () { middle with scopes := after }, []) := by
        rw [lift_apply, Evaluation.assign_eq, hassign]
      have hrun' : (Evaluator.lift (Evaluation.assign name value) : Watch Unit) middle' =
          (.ok () { middle' with scopes := after' }, []) := by
        rw [lift_apply, Evaluation.assign_eq, hassign']
      exact .ok hrun hrun' houtput ⟨hafter, hcalm.kept.of_call.trans hkept⟩

theorem function {name : String} {params : List Parameter} {result : Ty} :
    StatementFollows table functions invoke invoke' rule returns
      (.function info name params result body) := by
  intro types symbols hchecks shape hshape store store' houtput hcovers
  cases hchecks with
  | function =>
    rw [Evaluation.statement, Evaluation.statement]
    exact .pure houtput ⟨hcovers, .refl⟩

theorem ifThen (he : ExpressionFollows table functions invoke invoke' e)
    (hbody : StatementsFollow table functions invoke invoke' rule returns body) :
    StatementFollows table functions invoke invoke' rule returns (.ifThen info e body) := by
  intro types symbols hchecks shape hshape store store' houtput hcovers
  cases hchecks with
  | ifThen hcondition hthen =>
    rw [Evaluation.statement, Evaluation.statement]
    refine decided he hcondition houtput hcovers ?_ ?_
    · exact fun middle middle' houtput hcalm => taken hbody hthen hcovers houtput hcalm
    · exact fun middle middle' houtput hcalm =>
        .pure houtput ⟨hcovers.calm hcalm, hcalm.kept.of_call⟩

theorem ifThenElse (he : ExpressionFollows table functions invoke invoke' e)
    (hbody : StatementsFollow table functions invoke invoke' rule returns body)
    (hother : StatementsFollow table functions invoke invoke' rule returns other) :
    StatementFollows table functions invoke invoke' rule returns
      (.ifThenElse info e body other) := by
  intro types symbols hchecks shape hshape store store' houtput hcovers
  cases hchecks with
  | ifThenElse hcondition hthen helse =>
    rw [Evaluation.statement, Evaluation.statement]
    refine decided he hcondition houtput hcovers ?_ ?_
    · exact fun middle middle' houtput hcalm => taken hbody hthen hcovers houtput hcalm
    · exact fun middle middle' houtput hcalm => taken hother helse hcovers houtput hcalm

theorem loop {name : String} (he : ExpressionFollows table functions invoke invoke' e)
    (hbody : StatementsFollow table functions invoke invoke' rule returns body) :
    StatementFollows table functions invoke invoke' rule returns (.loop info name e body) := by
  intro types symbols hchecks shape hshape store store' houtput hcovers
  cases hchecks with
  | @loop _ _ inner _ _ _ _ ty hmark hiterable hname hchecks =>
    rw [Evaluation.statement, Evaluation.statement]
    refine (he hiterable houtput hcovers).bind ?_
    intro value middle middle' houtput hcalm
    have hmiddle := hcovers.calm hcalm
    cases value with
    | list items =>
      dsimp only
      rw [hmark]
      -- The body is in a scope of its own, wherever the variable of the loop is.
      have hfollows : BodyFollows types shape name ty inner.scopes
          (Evaluation.statements functions invoke .own body)
          (Evaluation.statements functions invoke' rule body) := by
        intro standing store store' houtput hcovers
        exact hbody hchecks (by simp) houtput hcovers
      cases rule with
      | own =>
        exact (loop_own hchecks.grows hfollows houtput hmiddle).mono
          fun _ _ _ hafter => hafter.trans hcalm.kept.of_call
      | around =>
        exact (loop_around hchecks.grows hname hfollows houtput hmiddle).mono
          fun _ _ _ hafter => hafter.trans hcalm.kept.of_call
    | _ => exact .error rfl rfl houtput hmiddle.outermost

theorem print (he : ExpressionFollows table functions invoke invoke' e) :
    StatementFollows table functions invoke invoke' rule returns (.print info e) := by
  intro types symbols hchecks shape hshape store store' houtput hcovers
  cases hchecks with
  | print hvalue _ =>
    rw [Evaluation.statement, Evaluation.statement]
    refine (he hvalue houtput hcovers).bind ?_
    intro value middle middle' houtput hcalm
    refine .ok rfl rfl ?_ ⟨hcovers.calm hcalm, hcalm.kept.of_call⟩
    exact congrArg (fun output => output ++ value.text ++ "\n") houtput

theorem call (he : ExpressionFollows table functions invoke invoke' e) :
    StatementFollows table functions invoke invoke' rule returns (.call info e) := by
  intro types symbols hchecks shape hshape store store' houtput hcovers
  cases hchecks with
  | call hvalue =>
    rw [Evaluation.statement, Evaluation.statement]
    exact (he hvalue houtput hcovers).bind
      fun _ _ _ houtput hcalm => .pure houtput ⟨hcovers.calm hcalm, hcalm.kept.of_call⟩

theorem leave : StatementFollows table functions invoke invoke' rule returns
    (.returning info none) := by
  intro types symbols hchecks shape hshape store store' houtput hcovers
  cases hchecks with
  | leave =>
    rw [Evaluation.statement, Evaluation.statement]
    exact .pure houtput ⟨hcovers.outermost, .refl⟩

theorem returning (he : ExpressionFollows table functions invoke invoke' e) :
    StatementFollows table functions invoke invoke' rule returns (.returning info (some e)) := by
  intro types symbols hchecks shape hshape store store' houtput hcovers
  cases hchecks with
  | returning _ hvalue =>
    obtain ⟨source, hsource, -, -⟩ := hvalue
    rw [Evaluation.statement, Evaluation.statement]
    exact (he hsource houtput hcovers).bind
      fun _ _ _ houtput hcalm => .pure houtput ⟨hcalm.outermost, hcalm.kept.of_call⟩

end StatementFollows

theorem StatementsFollow.nil :
    StatementsFollow table functions invoke invoke' rule returns [] := by
  intro types symbols hchecks shape hshape store store' houtput hcovers
  cases hchecks
  rw [Evaluation.statements, Evaluation.statements]
  exact .pure houtput ⟨hcovers, .refl⟩

theorem StatementsFollow.cons {s : Stmt Info} {rest : List (Stmt Info)}
    (hs : StatementFollows table functions invoke invoke' rule returns s)
    (hrest : StatementsFollow table functions invoke invoke' rule returns rest) :
    StatementsFollow table functions invoke invoke' rule returns (s :: rest) := by
  intro types symbols hchecks shape hshape store store' houtput hcovers
  cases hchecks with
  | @cons _ _ middle _ _ _ hfirst hothers =>
    rw [Evaluation.statements, Evaluation.statements]
    obtain ⟨middle, functions⟩ := middle
    cases hfirst.grows.functions
    refine (hs hfirst hshape houtput hcovers).bind ?_
    intro flow after after' houtput hflow
    cases flow with
    | normal =>
      exact (hrest hothers hshape houtput hflow.1).mono
        fun _ _ _ hlast => hlast.trans hflow.2
    | returned value => exact .pure houtput hflow

variable (rule)

mutual

theorem statement (hdefined : WellDefined globals table functions)
    (hcalls : CallsFollow globals table invoke invoke') :
    (s : Stmt Info) → StatementFollows table functions invoke invoke' rule returns s
  | .declaration _ _ _ e => .declaration (expression hdefined hcalls e)
  | .assignment _ _ e => .assignment (expression hdefined hcalls e)
  | .function .. => .function
  | .ifThen _ e body => .ifThen (expression hdefined hcalls e) (statements hdefined hcalls body)
  | .ifThenElse _ e body other =>
    .ifThenElse (expression hdefined hcalls e) (statements hdefined hcalls body)
      (statements hdefined hcalls other)
  | .loop _ _ e body => .loop (expression hdefined hcalls e) (statements hdefined hcalls body)
  | .print _ e => .print (expression hdefined hcalls e)
  | .call _ e => .call (expression hdefined hcalls e)
  | .returning _ none => .leave
  | .returning _ (some e) => .returning (expression hdefined hcalls e)
  | .broken .. | .bare _ => fun _ _ hchecks => by cases hchecks

theorem statements (hdefined : WellDefined globals table functions)
    (hcalls : CallsFollow globals table invoke invoke') :
    (body : List (Stmt Info)) → StatementsFollow table functions invoke invoke' rule returns body
  | [] => .nil
  | s :: rest => .cons (statement hdefined hcalls s) (statements hdefined hcalls rest)

end
end Statements
end Trees

theorem invokeWithin {globals : Scope Ty} {table : Scope Signature} {functions : Scope Definition}
    (hdefined : WellDefined globals table functions) (rule : LoopRule) (room : Nat) :
    CallsFollow globals table (Evaluation.invokeWithin .own functions room)
      (Evaluation.invokeWithin rule functions room) := by
  induction room with
  | zero => exact fun _ _ _ _ _ _ _ houtput hsub => .error rfl rfl houtput hsub
  | succ room ih =>
    intro definition signature hdefinition bound store other hbound houtput hsub
    obtain ⟨outermost, after, -, hbody⟩ := hdefinition.body
    rw [Evaluation.invokeWithin, Evaluation.invokeWithin]
    have hcovers : Covers [.scope] ⟨outermost, [parameterScope definition.params]⟩
        { store.scopes with nested := [bound] } { other.scopes with nested := [bound] } :=
      ⟨hsub, .scope hbound (.refl _) (fun _ hnone hne => absurd hnone hne) .nil,
        fun hnone => absurd List.mem_cons_self hnone⟩
    have hrun : Follows
        (Evaluation.statements functions (Evaluation.invokeWithin .own functions room) .own definition.body)
        (Evaluation.statements functions (Evaluation.invokeWithin rule functions room) rule definition.body)
        (store.onScopes fun scopes => { scopes with nested := [bound] })
        (other.onScopes fun scopes => { scopes with nested := [bound] })
        (After [.scope] after.scopes store.scopes.outermost other.scopes.outermost) :=
      statements rule hdefined ih definition.body hbody (by simp) houtput hcovers
    refine Follows.bind (P := fun _ => Calm store.scopes other.scopes)
      (.inCall (hrun.mono fun flow after after' hflow => ?_)) ?_
    · cases flow with
      | normal => exact ⟨rfl, rfl, hflow.1.outermost, hflow.2⟩
      | returned value => exact ⟨rfl, rfl, hflow.1, hflow.2⟩
    · intro flow after after' houtput hcalm
      cases flow with
      | normal => exact .pure houtput hcalm
      | returned value =>
        exact .lift (Evaluation.uniform_stored _ value) houtput hcalm.outermost fun _ => hcalm

/-- A run in which loops keep their variables to themselves and no variable is missed stays the
same when loops follow another rule and when variables have values before they are declared. -/
theorem program {p : Program Info} (hp : WellTyped p) (rule : LoopRule) (values : Scope Value)
    (output : String) :
    Follows (Evaluation.program .own p) (Evaluation.program rule p) ⟨.empty, output⟩ ⟨⟨values, []⟩, output⟩
      fun _ _ _ => True := by
  have hcovers : Covers [] .empty (.empty : Scopes Value) ⟨values, []⟩ :=
    ⟨fun _ _ h => (nomatch h), .nil, fun _ _ _ => rfl⟩
  cases hp with
  | @expression _ body ty hbody =>
    have hdefined : WellDefined [] [] [] := fun _ _ h => (nomatch h)
    have hrun : Follows _ _ ⟨.empty, output⟩ ⟨⟨values, []⟩, output⟩ _ :=
      expression hdefined (invokeWithin hdefined rule Evaluation.maxCallDepth) body
        (show HasType ⟨.empty, []⟩ body ty from hbody) rfl hcovers
    rw [Evaluation.program, Evaluation.program]
    refine hrun.bind ?_
    intro value after after' houtput _
    exact .ok rfl rfl (congrArg (fun output => output ++ value.text ++ "\n") houtput) trivial
  | @statements _ body after _ hbody =>
    have hdefined := hbody.wellDefined
    obtain ⟨symbols, hsymbols⟩ : ∃ symbols, initialSymbols body = symbols := ⟨_, rfl⟩
    obtain ⟨scopes, table⟩ := symbols
    have hscopes : scopes = .empty :=
      (congrArg Symbols.scopes hsymbols).symm.trans (register_scopes .empty body)
    rw [hsymbols] at hbody hdefined
    subst hscopes
    have hrun : Follows _ _ ⟨.empty, output⟩ ⟨⟨values, []⟩, output⟩ _ :=
      statements rule hdefined (invokeWithin hdefined rule Evaluation.maxCallDepth) body hbody
        (by simp) rfl hcovers
    rw [Evaluation.program, Evaluation.program]
    refine hrun.bind ?_
    exact fun _ _ _ houtput _ => .pure houtput trivial

end Covering
end CatScript
