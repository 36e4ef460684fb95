import CatScript.Proofs.Evaluation.Inhabits

/-! # Single steps of evaluation

What the steps that evaluation is made of do with a store, and how two of them follow each other. -/
set_option autoImplicit false
namespace CatScript
namespace Evaluation

variable {α β : Type} {store after : Store}

theorem bind_ok {m : Eval α} {a : α} (h : m store = .ok a after) (f : α → Eval β) :
    (m >>= f) store = f a after := by
  simp only [bind, EStateM.bind, h]

theorem bind_error {m : Eval α} {cause : EvalError} (h : m store = .error cause after)
    (f : α → Eval β) : (m >>= f) store = .error cause after := by
  simp only [bind, EStateM.bind, h]

theorem load_eq (name : String) (store : Store) :
    load name store = match store.scopes.find? name with
      | some value => .ok value store
      | none => .error (.undefinedVariable name) store := by
  show (match store.scopes.find? name with
    | some value => pure value
    | none => throw (.undefinedVariable name) : Eval Value) store = _
  cases store.scopes.find? name <;> rfl

theorem declare_eq (name : String) (value : Value) (store : Store) :
    declare name value store = .ok () (store.onScopes (Scopes.declare name value)) := rfl

theorem assign_eq (name : String) (value : Value) (store : Store) :
    assign name value store = match store.scopes.assign? name value with
      | some scopes => .ok () { store with scopes }
      | none => .error (.undefinedVariable name) store := by
  show (match store.scopes.assign? name value with
    | some scopes => modify fun store => { store with scopes }
    | none => throw (.undefinedVariable name) : Eval Unit) store = _
  cases store.scopes.assign? name value <;> rfl

theorem print_eq (value : Value) (store : Store) :
    print value store = .ok () (store.print value) := rfl

def compute? (op : BinaryOp) (a b : Int64) : Option Int64 :=
  match op with
  | .add => some (a + b)
  | .sub => some (a - b)
  | .mul => some (a * b)
  | .div => if b = 0 then none else some (a / b)

theorem arithmetic_eq (op : BinaryOp) (a b : Int64) (store : Store) :
    arithmetic op (.integer a) (.integer b) store = match compute? op a b with
      | some n => .ok (.integer n) store
      | none => .error .divisionByZero store := by
  cases op with
  | div =>
    by_cases hb : b = 0
    · subst hb; rfl
    · simp only [compute?, if_neg hb]
      simp [arithmetic, asInteger, bind, EStateM.bind, pure, EStateM.pure, hb]
  | _ => rfl

/-- A value that does not fit a variable is `null`, and an error is all that comes of it. -/
theorem stored_eq {target source : Ty} (h : target.accepts source = true) {value : Value}
    (hvalue : source.admits value = true ∨ value = .null) (store : Store) :
    (stored (some target) value store = .ok value store ∧ target.admits value = true) ∨
      (value = .null ∧ target.isPrimitive = true ∧
        stored (some target) value store = .error .nullReference store) := by
  rcases stored_cases h hvalue with ⟨hstored, hadmits⟩ | ⟨hnull, hprimitive, hstored⟩
  · exact .inl ⟨by rw [hstored]; rfl, hadmits⟩
  · exact .inr ⟨hnull, hprimitive, by rw [hstored]; rfl⟩

/-- The step neither reads the store nor changes it. -/
def Uniform (m : Eval α) : Prop :=
  (∃ a, m = pure a) ∨ ∃ cause, m = throw cause

theorem Uniform.bind {m : Eval α} {f : α → Eval β} (hm : Uniform m) (hf : ∀ a, Uniform (f a)) :
    Uniform (m >>= f) := by
  rcases hm with ⟨a, rfl⟩ | ⟨cause, rfl⟩
  · exact hf a
  · exact .inr ⟨cause, rfl⟩

theorem uniform_asInteger (operation : Operation) (value : Value) :
    Uniform (asInteger operation value) := by
  cases value with
  | integer n => exact .inl ⟨n, rfl⟩
  | _ => exact .inr ⟨_, rfl⟩

theorem uniform_asBoolean (operation : Operation) (value : Value) :
    Uniform (asBoolean operation value) := by
  cases value with
  | boolean b => exact .inl ⟨b, rfl⟩
  | _ => exact .inr ⟨_, rfl⟩

theorem uniform_stored (ty? : Option Ty) (value : Value) : Uniform (stored ty? value) := by
  cases value with
  | null =>
    cases ty? with
    | none => exact .inl ⟨_, rfl⟩
    | some ty =>
      by_cases h : ty.isPrimitive = true
      · exact .inr ⟨.nullReference, by simp [stored, h]⟩
      · exact .inl ⟨.null, by simp [stored, h]⟩
  | _ => exact .inl ⟨_, rfl⟩

theorem uniform_arithmetic (op : BinaryOp) (a b : Value) : Uniform (arithmetic op a b) := by
  refine (uniform_asInteger _ a).bind fun m => (uniform_asInteger _ b).bind fun n => ?_
  cases op with
  | div =>
    by_cases h : n = 0
    · exact .inr ⟨.divisionByZero, by simp [h]⟩
    · exact .inl ⟨_, by simp only [if_neg h]; rfl⟩
  | _ => exact .inl ⟨_, rfl⟩

end Evaluation
end CatScript
