import CatScript.Proofs.Machine.Statements

/-! # The code of loops

A loop runs over an iterator that no variable's slot holds.  Before each round the iterator stands
at the items that are left, and the scope of the loop has no variable but its own (`Looping`). -/
set_option autoImplicit false
namespace CatScript
namespace Simulation
open Machine Typing

def loopHead (slot : Slot) (start done : Label) (body : List Instruction) : List Instruction :=
  .loadRef slot :: .invoke .iteratorHasNext :: .jumpIfZero done :: .loadRef slot ::
    .invoke .iteratorNext :: (body ++ [.jump start, .label done])

theorem iteration_eq (slot : Slot) (start done : Label) (body : List Instruction) :
    Generation.iteration slot start done body = .label start :: loopHead slot start done body := by
  simp [Generation.iteration, loopHead]

theorem suffix_body {slot : Slot} {start done : Label} {a code rest c : List Instruction}
    {instruction : Instruction}
    (h : Generation.iteration slot start done (a ++ instruction :: code) ++ rest <:+ c) :
    code ++ .jump start :: .label done :: rest <:+ c := by
  simp only [Generation.iteration, List.append_assoc, List.cons_append, List.nil_append] at h
  have hitem := suffix_tail (suffix_tail (suffix_tail (suffix_tail (suffix_tail (suffix_tail h)))))
  exact suffix_tail (suffix_right hitem)

/-- What is to be known between the rounds of a loop over the values in `place`: `passed` of them
have been given by the iterator at `index`, which is in the first free slot of the frame. -/
structure Looping (setting : Setting) (frame : Frame) (name : String) (slots : Array Operand)
    (moment : Moment) (index place passed : Nat) (items : List Value) (store : Store)
    (slots' : Array Operand) (later : Moment) : Prop where
  holds : Holds frame.locals slots' later.contents store.scopes.nested.tail
  own : ∃ scope, store.scopes.nested = scope :: store.scopes.nested.tail ∧
    ∀ other, name ≠ other → scope.find? other = none
  agrees : Agrees setting store later
  heap : moment.contents.Extends moment.shared.heap later.contents later.shared.heap
  slots : Untouched frame slots slots'
  iterator : slots'[frame.slot]? = some (.ref (.iterator index))
  fresh : moment.shared.heap.iterators.size ≤ index
  state : later.shared.heap.iterators[index]? = some ⟨place, passed⟩
  list : later.contents place = some items

def Looped (setting : Setting) (site : Site) (rest : List Instruction) (returns : Option Ty)
    (frame : Frame) (slots : Array Operand) (moment : Moment) : Flow → Store → Status → Prop
  | .normal, store, t => ∃ later slots', t = site.at rest [] slots' later ∧
      Holds frame.locals slots' later.contents store.scopes.nested.tail ∧ Agrees setting store later ∧
      moment.contents.Extends moment.shared.heap later.contents later.shared.heap ∧
      Untouched frame slots slots'
  | .returned value, store, t => Returned setting site returns moment value store t

section Loops
variable {setting : Setting} {room : Nat} {invoke : Invoke Eval} {site : Site} {types : Scopes Ty}
  {frame inner : Frame} {name : String} {ty : Ty} {slots slots' : Array Operand}
  {moment later : Moment} {index place passed : Nat} {items : List Value} {store : Store}
  {returns : Option Ty} {start done : Label} {code rest : List Instruction} {stack : List Operand}

theorem Looping.iteration (h : Looping setting frame name slots moment index place passed items store
      slots' later) : later.shared.heap.iteration index = ⟨place, passed⟩ := by
  rw [Heap.iteration, h.state, Option.getD_some]

theorem Looping.size (h : Looping setting frame name slots moment index place passed items store
      slots' later) : (later.shared.heap.items place).size = items.length := by
  rw [← Array.length_toList]
  exact (h.agrees.describes.items place items h.list).length_eq

theorem Looping.asks (h : Looping setting frame name slots moment index place passed items store
      slots' later) {more : Bool} (hmore : decide (passed < items.length) = more) :
    Reaches setting.program
      (site.at (.loadRef frame.slot :: .invoke .iteratorHasNext :: code) [] slots' later)
      (site.at code [Activation.flag more] slots' later) := by
  refine (loadRef h.iterator).trans ?_
  have hnext : Reaches setting.program (site.at (.invoke .iteratorHasNext :: code)
      [.ref (.iterator index)] slots' later) _ := iteratorHasNext index
  rw [h.iteration, h.size, hmore] at hnext
  exact hnext

theorem forall₂_getElem? {contents : Contents} {objects : List Object} {items : List Value}
    (h : List.Forall₂ (Represents contents) objects items) {n : Nat} {item : Value}
    (hitem : items[n]? = some item) :
    ∃ object, objects[n]? = some object ∧ Represents contents object item := by
  induction h generalizing n with
  | nil => cases hitem
  | @cons object value objects items hfirst _ ih =>
    cases n with
    | zero => cases hitem; exact ⟨object, rfl, hfirst⟩
    | succ n => exact ih hitem

theorem Looping.takes (h : Looping setting frame name slots moment index place passed items store
      slots' later) {item : Value} (hitem : items[passed]? = some item) (code : List Instruction) :
    ∃ object, Represents later.contents object item ∧
      Reaches setting.program
        (site.at (.loadRef frame.slot :: .invoke .iteratorNext :: code) [] slots' later)
        (site.at code [.ref object] slots'
          (later.withHeap (later.shared.heap.advance index))) := by
  obtain ⟨object, hobject, hrep⟩ :=
    forall₂_getElem? (h.agrees.describes.items place items h.list) hitem
  refine ⟨object, hrep, (loadRef h.iterator).trans (iteratorNext ?_)⟩
  rw [h.iteration, ← Array.getElem?_toList]
  exact hobject

variable {symbols : Symbols} {value : Value} {operand : Operand}

/-- The frame in a loop, whose iterator has the first free slot. -/
def iterating (frame : Frame) : Frame :=
  { frame with slot := frame.slot + 1 }

theorem Looping.item (h : Looping setting frame name slots moment index place passed items store
      slots' later) (hframe : Framed symbols setting.globals (iterating frame))
    (hslot : (frame.slot : Nat) + 1 < slots'.size) (hkeeps : Keeps later.contents ty value operand) :
    Holds (Generation.itemFrame (iterating frame) name ty).locals
      (slots'.setIfInBounds (frame.slot + 1) operand) later.contents
      (store.onScopes (Scopes.declare name value)).scopes.nested := by
  obtain ⟨scope, hnested, hown⟩ := h.own
  have hpushed := h.holds.push hframe.provides.based
  have hfresh : symbols.enter.declaredHere name = false := rfl
  have hdeclared := Holds.declare hpushed hframe.push (List.cons_ne_nil _ _) hfresh hslot hkeeps
    store.scopes.outermost
  have hscopes : (store.onScopes (Scopes.declare name value)).scopes.nested =
      scope.bind name value :: store.scopes.nested.tail := by
    rw [Store.onScopes, Scopes.declare, hnested]
    rfl
  rw [hscopes]
  refine Holds.first hdeclared fun other => ?_
  rw [Scope.find?_bind, Scope.find?_bind]
  split
  · rfl
  · next hne => exact hown other hne

theorem Looping.advance (h : Looping setting frame name slots moment index place passed items store
      slots' later) : Looping setting frame name slots moment index place (passed + 1) items store
      slots' (later.withHeap (later.shared.heap.advance index)) := by
  refine ⟨h.holds, h.own, ⟨h.agrees.describes.iterators _, h.agrees.globals, h.agrees.output⟩,
    h.heap.advance h.fresh, h.slots, h.iterator, h.fresh, ?_, h.list⟩
  rw [Moment.withHeap, Heap.advance, Array.getElem?_modify, if_pos rfl, h.state]
  rfl

/-- The levels in a loop are those around it under that of its variable. -/
theorem levels_item (hframe : Framed symbols setting.globals (iterating frame)) (name : String)
    (ty : Ty) : ∃ level : Scope Local,
      (Generation.itemFrame (iterating frame) name ty).locals.levels =
        level :: frame.locals.levels ∧
      (∀ other, name ≠ other → level.find? other = none) ∧
      level.Perm [(name, ⟨frame.slot + 1, ty⟩)] := by
  have hlevels := Scopes.levels_push hframe.provides.based
  obtain ⟨level, hlevel, hfind, hperm⟩ :=
    Scopes.levels_declare hlevels name ⟨frame.slot + 1, ty⟩
  refine ⟨level, hlevel, fun other hne => ?_, hperm rfl⟩
  rw [hfind, if_neg hne]
  rfl

theorem item_uses (hframe : Framed symbols setting.globals (iterating frame)) {slot : Nat} :
    (Generation.itemFrame (iterating frame) name ty).Uses slot ↔
      slot = frame.slot + 1 ∨ frame.Uses slot := by
  obtain ⟨level, hlevel, -, hperm⟩ := levels_item hframe name ty
  unfold Frame.Uses
  rw [hlevel, List.flatten_cons]
  constructor
  · rintro ⟨entry, hentry, rfl⟩
    rcases List.mem_append.1 hentry with hentry | hentry
    · obtain rfl := List.mem_singleton.1 (hperm.mem_iff.1 hentry)
      exact .inl rfl
    · exact .inr ⟨entry, hentry, rfl⟩
  · rintro (rfl | ⟨entry, hentry, heq⟩)
    · exact ⟨_, List.mem_append_left _ (hperm.mem_iff.2 List.mem_cons_self), rfl⟩
    · exact ⟨entry, List.mem_append_right _ hentry, heq⟩

theorem Looping.again (h : Looping setting frame name slots moment index place passed items store
      slots' later) (hframe : Framed symbols setting.globals (iterating frame))
    (hfree : ¬frame.Uses frame.slot) {after : Frame} {store' : Store} {slots'' : Array Operand}
    {latest : Moment}
    (hpast : Past setting (Generation.itemFrame (iterating frame) name ty) after
      (slots'.setIfInBounds (frame.slot + 1) operand) later store' slots'' latest)
    (hlocals : after.locals = (Generation.itemFrame (iterating frame) name ty).locals) :
    Looping setting frame name slots moment index place passed items store' slots'' latest := by
  obtain ⟨hholds, hagrees, hheap, hslots⟩ := hpast
  rw [hlocals] at hholds
  obtain ⟨level, hlevel, hown, -⟩ := levels_item hframe name ty
  have hsame : ∀ slot, slot ≤ (frame.slot : Nat) → ¬frame.Uses slot →
      slots''[slot]? = slots'[slot]? := fun slot hslot hunused => by
    have hlt : slot < (frame.slot : Nat) + 1 := Nat.lt_succ_of_le hslot
    rw [hslots.same slot (Nat.lt_succ_of_lt hlt) fun huses =>
      ((item_uses hframe).1 huses).elim (Nat.ne_of_lt hlt) hunused]
    exact getElem?_store (Nat.ne_of_gt hlt)
  have hnested : ∃ scope rest, store'.scopes.nested = scope :: rest ∧
      (∀ other, name ≠ other → scope.find? other = none) ∧
      Holds frame.locals slots'' latest.contents rest := by
    obtain ⟨hprogram, hlevels⟩ := hholds
    rw [hlevel] at hlevels
    generalize store'.scopes.nested = nested at hlevels
    cases hlevels with
    | cons hfirst hrest =>
      exact ⟨_, _, rfl, fun other hne => (hfirst.none_iff other).2 (hown other hne), hprogram, hrest⟩
  obtain ⟨scope, rest, hstore, hscope, hrest⟩ := hnested
  refine ⟨?_, ⟨scope, ?_, hscope⟩, hagrees, h.heap.trans hheap, ⟨?_, fun slot hslot hunused => ?_⟩,
    ?_, h.fresh, ?_, hheap.finished _ _ h.list⟩
  · rw [hstore]
    exact hrest
  · rw [hstore]
    rfl
  · rw [hslots.size, Array.size_setIfInBounds, h.slots.size]
  · rw [hsame slot (Nat.le_of_lt hslot) hunused, h.slots.same slot hslot hunused]
  · rw [hsame _ (Nat.le_refl _) hfree, h.iterator]
  · rw [hheap.iterators _ (Array.getElem?_eq_some_iff.1 h.state).1, h.state]

def round (name : String) (ty : Ty) (body : Eval Flow) (item : Value) : Eval Flow := do
  Evaluation.declare name (← Evaluation.stored (some ty) item)
  Evaluation.inScope body

variable {body : Eval Flow} {after : Frame} {ends : Bool}

/-- The code of a body does what the body does, wherever a round finds the machine. -/
def Mirrors (setting : Setting) (site : Site) (rest : List Instruction) (returns : Option Ty)
    (frame after : Frame) (size : Nat) (ends : Bool) (code : List Instruction) (body : Eval Flow) :
    Prop :=
  ∀ (store : Store) (slots : Array Operand) (moment : Moment), slots.size = size →
    Holds frame.locals slots moment.contents store.scopes.nested → Agrees setting store moment →
    Simulates setting.program body store (site.at (code ++ rest) [] slots moment)
      (Flowed setting site rest returns frame after slots moment ends) (Failed setting)

/-- One round: its item is taken and stored, and the body is carried out. -/
theorem Looping.round (h : Looping setting frame name slots moment index place passed items store
      slots' later) (hframe : Framed symbols setting.globals (iterating frame))
    (hfree : ¬frame.Uses frame.slot) (hslot : (frame.slot : Nat) + 1 < slots.size)
    (hlocals : after.locals.pop = (Generation.itemFrame (iterating frame) name ty).locals)
    (hitems : ∀ item ∈ items, item = .null ∨ ty.admits item = true)
    (hbody : Mirrors setting site rest returns (Generation.forBody (iterating frame) name ty) after
      slots.size ends code body) {item : Value} (hitem : items[passed]? = some item) :
    Simulates setting.program (Simulation.round name ty body item) store
      (site.at (.loadRef frame.slot :: .invoke .iteratorNext :: (Generation.coerce .object ty ++
        Generation.store ⟨frame.slot + 1, ty⟩ :: (code ++ rest))) [] slots' later)
      (fun flow store' t => match flow with
        | .normal => ∃ latest slots'', t = site.at rest [] slots'' latest ∧
          Looping setting frame name slots moment index place (passed + 1) items store' slots''
            latest
        | .returned value => Returned setting site returns moment value store' t)
      (Failed setting) := by
  have hnext := h.advance
  obtain ⟨object, hobject, htakes⟩ := h.takes hitem (Generation.coerce .object ty ++
    Generation.store ⟨frame.slot + 1, ty⟩ :: (code ++ rest))
  have hkeeps : Keeps (later.withHeap (later.shared.heap.advance index)).contents .object item
      (.ref object) :=
    .reference rfl (Ty.admits_object item) hobject
  refine .of_reaches htakes (.bind (coerce_simulates hkeeps (hitems item
    (List.mem_of_getElem? hitem)) hnext.agrees) ?_)
  rintro value middle t ⟨rfl, rfl, kept, rfl, hkept⟩
  have hsize : (frame.slot : Nat) + 1 < slots'.size := by rw [h.slots.size]; exact hslot
  have hholds := hnext.item hframe hsize hkept
  have hne : middle.scopes.nested ≠ [] := by
    obtain ⟨scope, hscope, -⟩ := hnext.own
    rw [hscope]
    exact List.cons_ne_nil _ _
  have hagrees := hnext.agrees.onScopes (Scopes.outermost_declare hne name value)
  have hbased : (Generation.itemFrame (iterating frame) name ty).locals.Based :=
    fun hnil => (nomatch hnil)
  refine .of_reaches (store_local hkept hsize)
    (.bind_ok (Evaluation.declare_eq name value middle) ?_)
  refine (block hbased (hbody _ _ _ ?_ (hholds.push hbased) (hagrees.onScopes rfl))).mono
    (fun flow last t hflow => ?_) fun _ _ _ hfailed => hfailed
  · rw [Array.size_setIfInBounds, h.slots.size]
  · cases flow with
    | normal =>
      obtain ⟨-, latest, slots'', rfl, hpast⟩ := hflow
      exact ⟨latest, slots'', rfl, hnext.again hframe hfree hpast hlocals⟩
    | returned value => exact hflow.from hnext.heap

/-- From between two rounds the run gets past the loop, or out of the routine. -/
theorem eachItem (hresolves : Resolves site.routine)
    (hsuffix : Generation.iteration frame.slot start done (Generation.coerce .object ty ++
      Generation.store ⟨frame.slot + 1, ty⟩ :: code) ++ rest <:+ site.routine.code)
    (hframe : Framed symbols setting.globals (iterating frame)) (hfree : ¬frame.Uses frame.slot)
    (hslot : (frame.slot : Nat) + 1 < slots.size)
    (hlocals : after.locals.pop = (Generation.itemFrame (iterating frame) name ty).locals)
    (hitems : ∀ item ∈ items, item = .null ∨ ty.admits item = true)
    (hbody : Mirrors setting site (.jump start :: .label done :: rest) returns
      (Generation.forBody (iterating frame) name ty) after slots.size ends code body)
    {remaining : List Value} (hremaining : items.drop passed = remaining)
    (h : Looping setting frame name slots moment index place passed items store slots' later) :
    Simulates setting.program
      (Evaluation.eachItem (Simulation.round name ty body) remaining) store
      (site.at (loopHead frame.slot start done (Generation.coerce .object ty ++
        Generation.store ⟨frame.slot + 1, ty⟩ :: code) ++ rest) [] slots' later)
      (Looped setting site rest returns frame slots moment) (Failed setting) := by
  have hhead : loopHead frame.slot start done (Generation.coerce .object ty ++
      Generation.store ⟨frame.slot + 1, ty⟩ :: code) ++ rest =
      .loadRef frame.slot :: .invoke .iteratorHasNext :: .jumpIfZero done :: .loadRef frame.slot ::
        .invoke .iteratorNext :: (Generation.coerce .object ty ++
          Generation.store ⟨frame.slot + 1, ty⟩ :: (code ++ .jump start :: .label done :: rest)) := by
    simp [loopHead]
  have hdone := suffix_tail (suffix_right (suffix_body hsuffix))
  rw [iteration_eq, List.cons_append, hhead] at hsuffix
  rw [hhead]
  -- the items that are left decide how often the run comes back to the start
  induction remaining generalizing passed store slots' later with
  | nil =>
    have hdry := decide_eq_false (Nat.not_lt_of_le (List.drop_eq_nil_iff.1 hremaining))
    refine .of_ok rfl ((h.asks hdry).trans (jumpIfZero_taken hresolves hdone)) ?_
    exact ⟨later, slots', rfl, h.holds, h.agrees, h.heap, h.slots⟩
  | cons item remaining ih =>
    have hlt : passed < items.length := by
      refine Nat.lt_of_not_le fun hle => ?_
      rw [List.drop_eq_nil_of_le hle] at hremaining
      cases hremaining
    rw [List.drop_eq_getElem_cons hlt] at hremaining
    obtain ⟨rfl, hrest⟩ := List.cons.inj hremaining
    rw [Evaluation.eachItem]
    refine .of_reaches ((h.asks (decide_eq_true hlt)).trans jumpIfZero_not)
      (.bind (h.round hframe hfree hslot hlocals hitems hbody (List.getElem?_eq_getElem hlt))
        fun flow store' t hflow => ?_)
    cases flow with
    | normal =>
      obtain ⟨latest, slots'', rfl, hnext⟩ := hflow
      exact .of_reaches (jump hresolves hsuffix) (ih hrest hnext)
    | returned value => exact .pure hflow

theorem Looping.begin (hagrees : Agrees setting store moment)
    (hholds : Holds frame.locals slots moment.contents store.scopes.nested)
    (hpositive : (frame.slot : Nat) ≠ 0) (hfree : ¬frame.Uses frame.slot)
    (hslot : (frame.slot : Nat) < slots.size) (hlist : moment.contents place = some items) :
    Looping setting frame name slots moment moment.shared.heap.iterators.size place 0 items
      (store.onScopes Scopes.push)
      (slots.setIfInBounds frame.slot (.ref (.iterator moment.shared.heap.iterators.size)))
      (moment.withHeap (moment.shared.heap.newIterator place).2) := by
  refine ⟨hholds.store_other _ hpositive hfree, ⟨[], rfl, fun _ _ => rfl⟩,
    ⟨hagrees.describes.iterators _, hagrees.globals, hagrees.output⟩, .newIterator _ _ _,
    .set (.inr (Nat.le_refl _)) _, getElem?_store_self hslot, Nat.le_refl _, ?_, hlist⟩
  rw [Moment.withHeap, Heap.newIterator, Array.getElem?_push, if_pos rfl]

/-- The code of a loop, after that of the list, does what the loop does. -/
theorem loop (hframe : Framed symbols setting.globals (iterating frame))
    (hresolves : Resolves site.routine)
    (hsuffix : Generation.iteration frame.slot start done (Generation.coerce .object ty ++
      Generation.store ⟨frame.slot + 1, ty⟩ :: code) ++ rest <:+ site.routine.code)
    (hpositive : (frame.slot : Nat) ≠ 0) (hfree : ¬frame.Uses frame.slot)
    (hslot : (frame.slot : Nat) + 1 < slots.size)
    (hlocals : after.locals.pop = (Generation.itemFrame (iterating frame) name ty).locals)
    (hbody : Mirrors setting site (.jump start :: .label done :: rest) returns
      (Generation.forBody (iterating frame) name ty) after slots.size ends code body)
    (hagrees : Agrees setting store moment)
    (hholds : Holds frame.locals slots moment.contents store.scopes.nested)
    (hkeeps : Keeps moment.contents (.list ty) value operand) {last : Frame}
    (hlast : last.locals = frame.locals) :
    Simulates setting.program
      (match value with
        | .list items => Evaluation.inScope
            (Evaluation.eachItem (Simulation.round name ty body) items)
        | other => throw (.notIterable other.sort)) store
      (site.at (.invoke .listIterator :: .storeRef frame.slot ::
        (Generation.iteration frame.slot start done (Generation.coerce .object ty ++
          Generation.store ⟨frame.slot + 1, ty⟩ :: code) ++ rest)) [operand] slots moment)
      (Flowed setting site rest returns frame last slots moment false) (Failed setting) := by
  obtain ⟨object, rfl, hadmits, hobject⟩ := hkeeps.of_reference rfl
  cases hobject with
  | null =>
    obtain ⟨t, hreaches, hfailed⟩ := listIterator_null.failed .notIterable hagrees
    exact .of_error rfl hreaches hfailed
  | @list place items hlist =>
    have hlooping : Looping setting frame name slots moment _ place 0 items _ _ _ :=
      .begin hagrees hholds hpositive hfree (Nat.lt_of_succ_lt hslot) hlist
    refine .of_reaches ((listIterator place).trans ((storeRef _ (Nat.lt_of_succ_lt hslot)).trans
      (label_next start))) (.inScope ((eachItem hresolves hsuffix hframe hfree hslot hlocals ?_ hbody
        (List.drop_zero) hlooping).mono (fun flow store' t hflow => ?_) ?_))
    · exact ((Ty.admits_list hadmits).resolve_left (by simp)).elim fun others hothers =>
        Value.list.inj hothers.1 ▸ hothers.2
    · cases flow with
      | normal =>
        obtain ⟨latest, slots', rfl, hholds', hagrees', hheap, hslots⟩ := hflow
        exact ⟨rfl, latest, slots', rfl, hlast ▸ hholds', hagrees'.onScopes rfl, hheap, hslots⟩
      | returned value => exact hflow.onScopes rfl
    · exact fun cause store' t hfailed => failed_onScopes hfailed rfl
  | _ => cases hadmits

end Loops
end Simulation
end CatScript
