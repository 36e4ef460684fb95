import CatScript.Proofs.Code.Labels

/-! # What code refers to

Generated code refers to nothing that is not there, whatever the tree is
(`Generation.statement_builds`): a slot is handed out for one kind of values, which `kinds` lists by
slots, fields and functions are among those of the program, and labels stand where they are handed
out.  Nothing is known of the tree but that it has code, so each proof takes apart what generating
has done. -/
set_option autoImplicit false
namespace CatScript

/-- What an instruction refers to is there: a slot is one for values that are kept so, a field and a
function are among those of the program, and the function returns something if that is asked for. -/
@[simp] def Instruction.Refers (globals : Globals) (kinds : List Descriptor) : Instruction → Prop
  | .loadInt slot | .storeInt slot => kinds[slot]? = some .int
  | .loadRef slot | .storeRef slot => kinds[slot]? = some .reference
  | .getField name _ | .putField name _ => (globals.fields.find? name).isSome = true
  | .call name _ returns =>
    ∃ entry, globals.functions.find? name = some entry ∧ returns = (entry.2 != .void)
  | _ => True

def RefersAll (globals : Globals) (kinds : List Descriptor) (code : List Instruction) : Prop :=
  ∀ instruction ∈ code, instruction.Refers globals kinds

section Refers
variable {globals : Globals} {kinds more : List Descriptor}

@[simp] theorem refersAll_nil : RefersAll globals kinds [] := nofun

@[simp] theorem refersAll_cons (instruction : Instruction) (code : List Instruction) :
    RefersAll globals kinds (instruction :: code) ↔
      instruction.Refers globals kinds ∧ RefersAll globals kinds code :=
  List.forall_mem_cons

@[simp] theorem refersAll_append (a b : List Instruction) : RefersAll globals kinds (a ++ b) ↔
    RefersAll globals kinds a ∧ RefersAll globals kinds b :=
  List.forall_mem_append

theorem getElem?_of_grows {slot : Nat} {kind : Descriptor} (h : kinds <+: more)
    (hkind : kinds[slot]? = some kind) : more[slot]? = some kind := by
  obtain ⟨rest, rfl⟩ := h
  rw [List.getElem?_append_left (List.getElem?_eq_some_iff.1 hkind).1]
  exact hkind

theorem RefersAll.mono {code : List Instruction} (h : RefersAll globals kinds code)
    (hgrows : kinds <+: more) : RefersAll globals more code := by
  intro instruction hmem
  have hrefers := h instruction hmem
  cases instruction <;> first
    | exact hrefers
    | exact getElem?_of_grows hgrows hrefers

/-- Local variables have slots of their kinds, and slot 0 holds the program object. -/
structure Housed (kinds : List Descriptor) (locals : Scopes Local) : Prop where
  program : kinds[0]? = some .reference
  homes : locals.All fun home => kinds[home.slot]? = some (.of home.ty)

theorem Housed.mono {locals : Scopes Local} (h : Housed kinds locals) (hgrows : kinds <+: more) :
    Housed more locals := by
  refine ⟨getElem?_of_grows hgrows h.program, ?_⟩
  refine h.homes.imp fun _ => ?_
  exact getElem?_of_grows hgrows

structure Piece (globals : Globals) (kinds : List Descriptor) (first last : Nat)
    (code : List Instruction) : Prop where
  labelled : Labelled first last code
  refers : RefersAll globals kinds code

namespace Piece
variable {first middle last : Nat} {a b code : List Instruction}

theorem append (ha : Piece globals kinds first middle a) (hb : Piece globals kinds middle last b) :
    Piece globals kinds first last (a ++ b) :=
  ⟨ha.labelled.append hb.labelled, (refersAll_append a b).2 ⟨ha.refers, hb.refers⟩⟩

theorem mono (h : Piece globals kinds first last code) (hgrows : kinds <+: more) :
    Piece globals more first last code :=
  ⟨h.labelled, h.refers.mono hgrows⟩

theorem plain (first : Nat) (hrefers : RefersAll globals kinds code) (hplaces : places code = [])
    (htargets : targets code = []) : Piece globals kinds first first code :=
  ⟨.plain first hplaces htargets, hrefers⟩

theorem around (h : Piece globals kinds first last a) (hrefers : RefersAll globals kinds code)
    (hplaces : places code = places a) (htargets : targets code = targets a) :
    Piece globals kinds first last code :=
  ⟨h.labelled.of_same hplaces htargets, hrefers⟩

theorem of_two (h : Piece globals kinds (first + 2) last a) (hrefers : RefersAll globals kinds code)
    (hjoins : Joins first a code) : Piece globals kinds first last code :=
  ⟨h.labelled.of_two hjoins, hrefers⟩

end Piece
end Refers

namespace Generation
variable {globals : Globals} {kinds : List Descriptor} {locals : Scopes Local}

@[simp] theorem refersAll_coerce (source target : Ty) :
    RefersAll globals kinds (coerce source target) := by
  unfold coerce
  split
  · simp
  · simp
  · split <;> simp
  · simp

theorem refersAll_iteration {slot : Slot} {start done : Label} {body : List Instruction}
    (hslot : kinds[slot]? = some .reference) (hbody : RefersAll globals kinds body) :
    RefersAll globals kinds (iteration slot start done body) := by
  simp [iteration, hslot, hbody]

theorem refers_load (h : Housed kinds locals) {name : String} {home : Local}
    (hhome : locals.find? name = some home) : (load home).Refers globals kinds := by
  have hkind := h.homes.find hhome
  unfold Descriptor.of at hkind
  unfold load
  split <;> simp_all

theorem refers_store {home : Local} (hkind : kinds[home.slot]? = some (.of home.ty)) :
    (store home).Refers globals kinds := by
  unfold Descriptor.of at hkind
  unfold store
  split <;> simp_all

theorem place?_load (home : Local) : (load home).place? = none ∧ (load home).target? = none := by
  unfold load
  split <;> exact ⟨rfl, rfl⟩

theorem place?_store (home : Local) : (store home).place? = none ∧ (store home).target? = none := by
  unfold store
  split <;> exact ⟨rfl, rfl⟩

section Stores
variable {first last : Nat} {code : List Instruction}

theorem piece_store (h : Piece globals kinds first last code) {home : Local}
    (hkind : kinds[home.slot]? = some (.of home.ty)) :
    Piece globals kinds first last (code ++ [store home]) := by
  have hplace := place?_store home
  have hstore : RefersAll globals kinds [store home] :=
    (refersAll_cons _ _).2 ⟨refers_store hkind, refersAll_nil⟩
  exact h.append (.plain last hstore (by simp [hplace]) (by simp [hplace]))

theorem piece_putField (h : Piece globals kinds first last code) (hhoused : Housed kinds locals)
    {name : String} (hfield : (globals.fields.find? name).isSome = true) (ty : Ty) :
    Piece globals kinds first last (.loadRef 0 :: code ++ [putField name ty]) := by
  apply h.around
  · simp [h.refers, hhoused.program, putField, hfield]
  · simp [putField, Instruction.place?]
  · simp [putField, Instruction.target?]

end Stores

theorem piece_related (condition : Condition) (label : Label) :
    Piece globals kinds label (label + 2) (related condition label) :=
  ⟨labelled_related condition label, by simp [related]⟩

section Expressions

mutual

/-- The code of an expression refers to nothing that is not there. -/
theorem expression_piece (h : Housed kinds locals) :
    (e : Expr Info) → {first last : Label} → {code : List Instruction} →
    expression globals locals e first = .ok (code, last) → Piece globals kinds first last code
  | .identifier _ name, first, last, code, hcode => by
    cases expression_code hcode with
    | @inSlot _ _ home _ hhome =>
      have hplace := place?_load home
      have hrefers : RefersAll globals kinds [load home] :=
        (refersAll_cons _ _).2 ⟨refers_load h hhome, refersAll_nil⟩
      exact .plain first hrefers (by simp [hplace]) (by simp [hplace])
    | inField _ hfield => exact .plain first (by simp [h.program, hfield]) rfl rfl
  | .integer .., first, last, code, hcode | .string .., first, last, code, hcode
  | .boolean .., first, last, code, hcode | .null _, first, last, code, hcode => by
    cases expression_code hcode
    exact .plain first (by simp) rfl rfl
  | .list _ items, first, last, code, hcode => by
    cases expression_code hcode with
    | list hitems =>
      have hpiece := listItems_piece h items hitems
      exact hpiece.around (by simp [hpiece.refers]) rfl rfl
  | .parenthesized _ inner, first, last, code, hcode => by
    cases expression_code hcode with
    | parenthesized hinner => exact expression_piece h inner hinner
  | .unary _ op operand, first, last, code, hcode => by
    cases expression_code hcode with
    | negate hoperand =>
      exact (expression_piece h operand hoperand).append (.plain _ (by simp) rfl rfl)
    | not hoperand =>
      exact (expression_piece h operand hoperand).append (.plain _ (by simp [negation]) rfl rfl)
  | .binary info op left right, first, last, code, hcode => by
    cases expression_code hcode with
    | @concat _ _ _ _ _ a b _ _ _ _ _ _ ha hb =>
      have hpiece := (expression_piece h left ha).append (expression_piece h right hb)
      have hrefers := (refersAll_append a b).1 hpiece.refers
      exact hpiece.around (by simp [hrefers]) (by simp [Instruction.place?])
        (by simp [Instruction.target?])
    | arithmetic _ ha hb =>
      refine ((expression_piece h left ha).append (expression_piece h right hb)).append ?_
      refine .plain last ?_ ?_ ?_ <;> cases op <;>
        simp [arithmetic, Instruction.place?, Instruction.target?]
  | .comparison _ op left right, first, last, code, hcode => by
    cases expression_code hcode with
    | comparison ha hb =>
      exact ((expression_piece h left ha).append (expression_piece h right hb)).append
        (piece_related _ _)
  | .equality _ op left right, first, last, code, hcode => by
    cases expression_code hcode with
    | unboxed _ _ _ ha hb =>
      exact ((expression_piece h left ha).append (expression_piece h right hb)).append
        (piece_related _ _)
    | @boxed _ _ _ _ _ _ a b _ _ _ _ _ _ ha hb =>
      have hpiece := (expression_piece h left ha).append (expression_piece h right hb)
      have hrefers := (refersAll_append a b).1 hpiece.refers
      refine hpiece.around ?_ ?_ ?_ <;> split <;>
        simp [hrefers, negation, Instruction.place?, Instruction.target?]
  | .call _ name args, first, last, code, hcode => by
    cases expression_code hcode with
    | call hentry hargs =>
      have hpiece := arguments_piece h args hargs
      exact hpiece.around (by simp [hpiece.refers, h.program, hentry]) (by simp [Instruction.place?])
        (by simp [Instruction.target?])
  | .broken .., first, last, code, hcode => by cases expression_code hcode

theorem listItems_piece (h : Housed kinds locals) :
    (items : List (Expr Info)) → {first last : Label} → {code : List Instruction} →
    listItems globals locals items first = .ok (code, last) → Piece globals kinds first last code
  | [], first, last, code, hcode => by
    cases items_code hcode
    exact .plain first refersAll_nil rfl rfl
  | item :: rest, first, last, code, hcode => by
    cases items_code hcode with
    | @cons _ _ _ a b _ _ _ _ ha hb =>
      have hpiece := (expression_piece h item ha).append (listItems_piece h rest hb)
      have hrefers := (refersAll_append a b).1 hpiece.refers
      exact hpiece.around (by simp [hrefers]) (by simp [Instruction.place?])
        (by simp [Instruction.target?])

theorem arguments_piece (h : Housed kinds locals) :
    (args : List (Expr Info)) → {params : List Parameter} → {first last : Label} →
    {code : List Instruction} → arguments globals locals args params first = .ok (code, last) →
    Piece globals kinds first last code
  | [], params, first, last, code, hcode => by
    cases arguments_code hcode
    exact .plain first refersAll_nil rfl rfl
  | arg :: args, params, first, last, code, hcode => by
    cases arguments_code hcode with
    | beyond => exact .plain first refersAll_nil rfl rfl
    | @cons _ _ _ _ _ a b _ _ _ _ ha hb =>
      have hpiece := (expression_piece h arg ha).append (arguments_piece h args hb)
      have hrefers := (refersAll_append a b).1 hpiece.refers
      exact hpiece.around (by simp [hrefers]) (by simp) (by simp)

end

theorem value_piece (h : Housed kinds locals) {target : Ty} {e : Expr Info} {first last : Label}
    {code : List Instruction} (hcode : value globals locals target e first = .ok (code, last)) :
    Piece globals kinds first last code := by
  obtain ⟨ty, inner, -, hinner, rfl⟩ := value_iff.1 hcode
  have hpiece := expression_piece h e hinner
  exact hpiece.around (by simp [hpiece.refers]) (by simp) (by simp)

end Expressions

structure Kept (kinds : List Descriptor) (frame : Frame) : Prop where
  length : kinds.length = frame.slot
  housed : Housed kinds frame.locals

/-- Code that is generated on the way from one frame to another, and the slots after it. -/
structure Builds (globals : Globals) (kinds : List Descriptor) (frame : Frame)
    (code : List Instruction) (after : Frame) (more : List Descriptor) : Prop where
  grows : kinds <+: more
  kept : Kept more after
  piece : Piece globals more frame.label after.label code

section Frames
variable {more later : List Descriptor} {frame middle after : Frame} {a b code : List Instruction}

theorem Kept.relabel (h : Kept kinds frame) (label : Label) : Kept kinds { frame with label } :=
  ⟨h.length, h.housed⟩

theorem Kept.push (h : Kept kinds frame) : Kept kinds { frame with locals := frame.locals.push } :=
  ⟨h.length, h.housed.program, h.housed.homes.push⟩

theorem Kept.pop (h : Kept kinds frame) : Kept kinds { frame with locals := frame.locals.pop } :=
  ⟨h.length, h.housed.program, h.housed.homes.pop⟩

theorem Kept.hand (h : Kept kinds frame) (kind : Descriptor) :
    Kept (kinds ++ [kind]) { frame with slot := frame.slot + 1 } := by
  refine ⟨?_, h.housed.mono (List.prefix_append _ _)⟩
  rw [List.length_append, h.length]
  rfl

theorem Kept.getElem?_hand (h : Kept kinds frame) (kind : Descriptor) :
    (kinds ++ [kind])[frame.slot]? = some kind := by
  rw [← h.length, List.getElem?_concat_length]

theorem Kept.declare (h : Kept kinds frame) (name : String) (ty : Ty) :
    Kept (kinds ++ [.of ty])
      { frame with
        slot := frame.slot + 1
        locals := frame.locals.declare name ⟨frame.slot, ty⟩ } := by
  have hhand := h.hand (.of ty)
  refine ⟨hhand.length, hhand.housed.program, ?_⟩
  exact hhand.housed.homes.declare name (h.getElem?_hand (.of ty))

theorem Builds.labels (h : Kept kinds frame) {label : Label}
    (hpiece : Piece globals kinds frame.label label code) :
    Builds globals kinds frame code { frame with label } kinds :=
  ⟨List.prefix_rfl, h.relabel label, hpiece⟩

theorem Builds.append (h : Builds globals kinds frame a middle more)
    (h' : Builds globals more middle b after later) :
    Builds globals kinds frame (a ++ b) after later :=
  ⟨h.grows.trans h'.grows, h'.kept, (h.piece.mono h'.grows).append h'.piece⟩

def Fielded (globals : Globals) : Stmt Info → Prop
  | .declaration _ name _ _ => (globals.fields.find? name).isSome = true
  | _ => True

/-- Whatever code the statement has, it refers to nothing that is not there. -/
def Grounded (globals : Globals) (s : Stmt Info) : Prop :=
  ∀ around : Surroundings, (around.topLevel = true → Fielded globals s) →
    ∀ ⦃frame after : Frame⦄ ⦃kinds : List Descriptor⦄ ⦃code : List Instruction⦄, Kept kinds frame →
    statement globals around s frame = .ok (code, after) →
    ∃ more, Builds globals kinds frame code after more

def AllGrounded (globals : Globals) (body : List (Stmt Info)) : Prop :=
  ∀ around : Surroundings, (∀ s ∈ body, around.topLevel = true → Fielded globals s) →
    ∀ ⦃frame after : Frame⦄ ⦃kinds : List Descriptor⦄ ⦃code : List Instruction⦄, Kept kinds frame →
    statements globals around body frame = .ok (code, after) →
    ∃ more, Builds globals kinds frame code after more

theorem loopBody_builds {around : Surroundings} {name : String} {ty : Ty} {body : List (Stmt Info)}
    {inner : List Instruction} (hbody : AllGrounded globals body) (hkept : Kept kinds frame)
    (hinner : statements globals around.inside body (forBody frame name ty) = .ok (inner, after)) :
    ∃ more, Builds globals kinds frame (coerce .object ty ++ store ⟨frame.slot, ty⟩ :: inner)
      { after with locals := after.locals.pop.pop } more := by
  obtain ⟨more, hbuilds⟩ := hbody around.inside nofun (hkept.push.declare name ty).push hinner
  have hhome : more[frame.slot]? = some (.of ty) :=
    getElem?_of_grows hbuilds.grows (hkept.getElem?_hand (.of ty))
  have hcoerce : Piece globals more frame.label frame.label (coerce .object ty) :=
    .plain _ (refersAll_coerce _ _) (places_coerce _ _) (targets_coerce _ _)
  have hstore : Piece globals more frame.label frame.label
      (coerce .object ty ++ [store ⟨frame.slot, ty⟩]) := piece_store hcoerce hhome
  have hpiece := hstore.append hbuilds.piece
  rw [List.append_assoc] at hpiece
  exact ⟨more, (List.prefix_append _ _).trans hbuilds.grows, hbuilds.kept.pop.pop, hpiece⟩

namespace Grounded
variable {info : Info} {name : String} {e : Expr Info} {body thenBody elseBody : List (Stmt Info)}

theorem declaration {ty? : Option Ty} : Grounded globals (.declaration info name ty? e) := by
  intro around hfielded frame after kinds code hkept hcode
  cases statement_code hcode with
  | @declareField _ _ _ _ ty _ _ _ _ htop hvalue =>
    have hfield : (globals.fields.find? name).isSome = true := hfielded htop
    have hpiece := value_piece hkept.housed hvalue
    exact ⟨kinds, .labels hkept (piece_putField hpiece hkept.housed hfield ty)⟩
  | @declareSlot _ _ _ _ ty _ _ label _ _ hvalue =>
    have hgrows : kinds <+: kinds ++ [.of ty] := List.prefix_append _ _
    have hpiece := (value_piece hkept.housed hvalue).mono hgrows
    exact ⟨_, hgrows, (hkept.relabel label).declare name ty,
      piece_store hpiece (hkept.getElem?_hand (.of ty))⟩

theorem assignment : Grounded globals (.assignment info name e) := by
  intro around _ frame after kinds code hkept hcode
  cases statement_code hcode with
  | assignSlot hhome hvalue =>
    have hpiece := value_piece hkept.housed hvalue
    exact ⟨kinds, .labels hkept (piece_store hpiece (hkept.housed.homes.find hhome))⟩
  | @assignField _ _ _ ty _ _ _ _ hfield hvalue =>
    have hpiece := piece_putField (value_piece hkept.housed hvalue) hkept.housed
      (by rw [hfield]; rfl) ty
    exact ⟨kinds, .labels hkept hpiece⟩

theorem function {params : List Parameter} {ty : Ty} :
    Grounded globals (.function info name params ty body) := by
  intro around _ frame after kinds code hkept hcode
  cases statement_code hcode
  exact ⟨kinds, .labels hkept (.plain _ refersAll_nil rfl rfl)⟩

/-- The slots of the branch count from where the condition is, too. -/
theorem ifThen (hbody : AllGrounded globals thenBody) :
    Grounded globals (.ifThen info e thenBody) := by
  intro around _ frame after kinds code hkept hcode
  cases statement_code hcode with
  | @ifThen _ _ _ _ _ _ _ label htest hthen =>
    have hpiece := expression_piece hkept.housed e htest
    obtain ⟨more, hbuilds⟩ := hbody around.inside nofun (hkept.relabel label).push hthen
    have hboth := (hpiece.mono hbuilds.grows).append hbuilds.piece
    refine ⟨more, hbuilds.grows, hbuilds.kept.pop, hboth.of_two ?_ (joins_ifThen ..)⟩
    simp [(refersAll_append _ _).1 hboth.refers]

theorem ifThenElse (hthenBody : AllGrounded globals thenBody)
    (helseBody : AllGrounded globals elseBody) :
    Grounded globals (.ifThenElse info e thenBody elseBody) := by
  intro around _ frame after kinds code hkept hcode
  cases statement_code hcode with
  | @ifThenElse _ _ _ _ _ _ _ _ _ _ label htest hthen helse =>
    have hpiece := expression_piece hkept.housed e htest
    obtain ⟨more, hbuilds⟩ := hthenBody around.inside nofun (hkept.relabel label).push hthen
    obtain ⟨later, hbuilds'⟩ := helseBody around.inside nofun hbuilds.kept.pop.push helse
    have hgrows := hbuilds.grows.trans hbuilds'.grows
    have hall := ((hpiece.mono hgrows).append (hbuilds.piece.mono hbuilds'.grows)).append
      hbuilds'.piece
    have hrefers := (refersAll_append _ _).1 hall.refers
    refine ⟨later, hgrows, hbuilds'.kept.pop, hall.of_two ?_ (joins_ifThenElse ..)⟩
    simp [hrefers, (refersAll_append _ _).1 hrefers.1]

theorem loop (hbody : AllGrounded globals body) : Grounded globals (.loop info name e body) := by
  intro around _ frame after kinds code hkept hcode
  cases statement_code hcode with
  | @loop _ _ _ _ ty _ _ _ _ label _ hitems hinner =>
    have hpiece := expression_piece hkept.housed e hitems
    have hiterator := (hkept.relabel label).hand .reference
    obtain ⟨more, hbuilds⟩ := loopBody_builds hbody hiterator hinner
    have hgrows : kinds <+: more := (List.prefix_append _ _).trans hbuilds.grows
    have hslot : more[frame.slot]? = some .reference :=
      getElem?_of_grows hbuilds.grows (hkept.getElem?_hand .reference)
    have hboth := (hpiece.mono hgrows).append hbuilds.piece
    have hrefers := (refersAll_append _ _).1 hboth.refers
    refine ⟨more, hgrows, hbuilds.kept, hboth.of_two ?_ (joins_loop ..)⟩
    simp [hrefers.1, hslot, refersAll_iteration hslot hrefers.2]

theorem print : Grounded globals (.print info e) := by
  intro around _ frame after kinds code hkept hcode
  cases statement_code hcode with
  | print hvalue =>
    have hpiece := value_piece hkept.housed hvalue
    refine ⟨kinds, .labels hkept (hpiece.around ?_ ?_ ?_)⟩
    · simp [hpiece.refers, hkept.housed.program]
    · simp [Instruction.place?]
    · simp [Instruction.target?]

theorem call : Grounded globals (.call info e) := by
  intro around _ frame after kinds code hkept hcode
  cases statement_code hcode with
  | call _ hinner =>
    have hpiece := expression_piece hkept.housed e hinner
    refine ⟨kinds, .labels hkept (hpiece.around ?_ ?_ ?_)⟩ <;> split <;>
      simp [hpiece.refers, Instruction.place?, Instruction.target?]

theorem leave : Grounded globals (.returning info none) := by
  intro around _ frame after kinds code hkept hcode
  cases statement_code hcode
  exact ⟨kinds, .labels hkept (.plain _ (by simp) rfl rfl)⟩

theorem returning : Grounded globals (.returning info (some e)) := by
  intro around _ frame after kinds code hkept hcode
  cases statement_code hcode with
  | returning _ hvalue =>
    have hpiece := value_piece hkept.housed hvalue
    refine ⟨kinds, .labels hkept (hpiece.around ?_ ?_ ?_)⟩ <;> split <;>
      simp [hpiece.refers, Instruction.place?, Instruction.target?]

theorem bare : Grounded globals (.bare e) := by
  intro around _ frame after kinds code hkept hcode
  cases statement_code hcode with
  | bare hinner => exact ⟨kinds, .labels hkept (expression_piece hkept.housed e hinner)⟩

end Grounded

theorem AllGrounded.nil : AllGrounded globals [] := by
  intro around _ frame after kinds code hkept hcode
  cases statements_code hcode
  exact ⟨kinds, .labels hkept (.plain _ refersAll_nil rfl rfl)⟩

theorem AllGrounded.cons {s : Stmt Info} {rest : List (Stmt Info)} (hs : Grounded globals s)
    (hrest : AllGrounded globals rest) : AllGrounded globals (s :: rest) := by
  intro around hfielded frame after kinds code hkept hcode
  obtain ⟨hone, hothers⟩ := List.forall_mem_cons.1 hfielded
  cases statements_code hcode with
  | cons hfirst hmore =>
    obtain ⟨more, hbuilds⟩ := hs around hone hkept hfirst
    obtain ⟨later, hbuilds'⟩ := hrest around hothers hbuilds.kept hmore
    exact ⟨later, hbuilds.append hbuilds'⟩

mutual

theorem statement_builds : (s : Stmt Info) → Grounded globals s
  | .declaration .. => .declaration
  | .assignment .. => .assignment
  | .function .. => .function
  | .ifThen _ _ thenBody => .ifThen (statements_builds thenBody)
  | .ifThenElse _ _ thenBody elseBody =>
    .ifThenElse (statements_builds thenBody) (statements_builds elseBody)
  | .loop _ _ _ body => .loop (statements_builds body)
  | .print .. => .print
  | .call .. => .call
  | .returning _ none => .leave
  | .returning _ (some _) => .returning
  | .broken .. => by
    intro around _ frame after kinds code _ hcode
    cases statement_code hcode
  | .bare _ => .bare

theorem statements_builds : (body : List (Stmt Info)) → AllGrounded globals body
  | [] => .nil
  | s :: rest => .cons (statement_builds s) (statements_builds rest)

end
end Frames
end Generation
end CatScript
