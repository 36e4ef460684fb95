import Mathlib.Data.List.Perm.Basic
import CatScript.Proofs.Accepted
import CatScript.Proofs.Typing.Covering

/-! # When the joined type is the least one

`Ty.join` gives the least type that accepts two others, unless they are lists of types that are
apart: a list of objects accepts both, and `join` goes on to `object` (`Ty.join_least_iff`).  The
items of a list literal are joined from the left, and no item leads back from `object`.  So the type
of a literal depends on the order of its items if two of them are apart and a third one, which is no
`object` either, accepts them all, and only then (`Typing.join_least`). -/
set_option autoImplicit false
namespace CatScript
namespace Ty

/-- Neither of the types accepts the other. -/
def Apart (a b : Ty) : Prop :=
  a.accepts b = false ∧ b.accepts a = false

/-- The types are lists, of types that are apart and have values. -/
def ListsApart (a b : Ty) : Prop :=
  ∃ x y : Ty, a = .list x ∧ b = .list y ∧ x ≠ .void ∧ y ≠ .void ∧ x.Apart y

theorem Apart.symm {a b : Ty} (h : a.Apart b) : b.Apart a :=
  ⟨h.2, h.1⟩

theorem Apart.ne {a b : Ty} (h : a.Apart b) : a ≠ b := by
  rintro rfl
  have haccepts := accepts_self a
  rw [h.1] at haccepts
  cases haccepts

theorem join_of_apart {a b : Ty} (h : a.Apart b) : a.join b = .object := by
  rw [join, h.1, h.2]
  rfl

theorem join_of_accepts {a b : Ty} (h : a.accepts b = true) : a.join b = a := by
  rw [join, if_pos h]

theorem join_cases (a b : Ty) : (a.join b = a ∧ a.accepts b = true) ∨
    (a.join b = b ∧ b.accepts a = true) ∨ (a.join b = .object ∧ a.Apart b) := by
  cases hab : a.accepts b with
  | true => exact .inl ⟨join_of_accepts hab, rfl⟩
  | false =>
    cases hba : b.accepts a with
    | true => exact .inr (.inl ⟨(join_comm a b).trans (join_of_accepts hba), rfl⟩)
    | false => exact .inr (.inr ⟨join_of_apart ⟨hab, hba⟩, hab, hba⟩)

theorem eq_object_of_accepts {ty : Ty} (h : ty.accepts .object = true) : ty = .object :=
  (accepts_simple h nofun nofun).elim id id

section Above
variable {a b c : Ty}

theorem Apart.above_ne_void (h : a.Apart b) (ha : c.accepts a = true) (hb : c.accepts b = true) :
    c ≠ .void := by
  rintro rfl
  have hvoid : ∀ ty : Ty, Ty.void.accepts ty = true → ty = .void := fun ty hty => eq_of_beq hty
  exact h.ne ((hvoid a ha).trans (hvoid b hb).symm)

theorem Apart.exists_list (h : a.Apart b) (ha : c.accepts a = true) (hb : c.accepts b = true)
    (hc : c ≠ .object) : ∃ x, a = .list x := by
  have hvoid := h.above_ne_void ha hb
  by_contra hlist
  have hnull : a ≠ .null := by
    rintro rfl
    have hb' : b ≠ .void := fun heq => hvoid (accepts_void (heq ▸ hb))
    have haccepts : b.accepts .null = true := by
      cases b <;> first | rfl | exact absurd rfl hb'
    rw [h.2] at haccepts
    cases haccepts
  rcases accepts_simple ha hnull (fun x heq => hlist ⟨x, heq⟩) with rfl | rfl
  · exact hc rfl
  · rw [h.1] at hb
    cases hb

/-- Types that are apart have nothing above them but `object`, unless they are lists. -/
theorem Apart.lists (h : a.Apart b) (ha : c.accepts a = true) (hb : c.accepts b = true)
    (hc : c ≠ .object) : a.ListsApart b := by
  obtain ⟨x, rfl⟩ := h.exists_list ha hb hc
  obtain ⟨y, rfl⟩ := h.symm.exists_list hb ha hc
  rcases accepts_list ha with rfl | ⟨z, rfl, hx⟩
  · exact absurd rfl hc
  · have hxy : x.Apart y := h
    have hz := hxy.above_ne_void hx hb
    refine ⟨x, y, rfl, rfl, ?_, ?_, hxy⟩
    · rintro rfl
      exact hz (accepts_void hx)
    · rintro rfl
      exact hz (accepts_void hb)

end Above

/-- The joined type is below every type that accepts both, unless both are lists of types that are
apart. -/
theorem join_least_iff (a b : Ty) :
    (∀ c : Ty, c.accepts a = true → c.accepts b = true → c.accepts (a.join b) = true) ↔
      ¬ a.ListsApart b := by
  constructor
  · rintro h ⟨x, y, rfl, rfl, hx, hy, hxy⟩
    have hobjects := h (.list .object) (object_accepts hx) (object_accepts hy)
    rw [join_of_apart (show (Ty.list x).Apart (.list y) from hxy)] at hobjects
    cases hobjects
  · intro h c ha hb
    rcases join_cases a b with ⟨heq, -⟩ | ⟨heq, -⟩ | ⟨heq, hapart⟩
    · rw [heq]
      exact ha
    · rw [heq]
      exact hb
    · by_cases hc : c = .object
      · rw [heq, hc]
        rfl
      · exact absurd (hapart.lists ha hb hc) h

def Tops (top : Ty) (types : List Ty) : Prop :=
  top ∈ types ∧ ∀ ty ∈ types, top.accepts ty = true

def SomeApart (types : List Ty) : Prop :=
  ∃ a ∈ types, ∃ b ∈ types, a.Apart b

/-- Two of the types are apart, and one that is not `object` accepts all of them. -/
def Mixed (types : List Ty) : Prop :=
  SomeApart types ∧ ∃ top : Ty, top.Tops types ∧ top ≠ .object

section Lists
variable {top other first next : Ty} {types others rest : List Ty}

theorem Tops.unique (h : top.Tops types) (h' : other.Tops types) : top = other :=
  accepts_antisymm (h.2 other h'.1) (h'.2 top h.1)

theorem Tops.perm (h : top.Tops types) (hperm : types.Perm others) : top.Tops others := by
  refine ⟨hperm.subset h.1, fun ty hty => ?_⟩
  exact h.2 ty (hperm.symm.subset hty)

theorem SomeApart.subset (h : SomeApart types) (hsubset : types ⊆ others) : SomeApart others := by
  obtain ⟨a, ha, b, hb, hab⟩ := h
  exact ⟨a, hsubset ha, b, hsubset hb, hab⟩

theorem Tops.cons (h : top.Tops types) (hnext : next ∈ types) (haccepts : next.accepts first = true) :
    top.Tops (first :: types) := by
  have hfirst := accepts_trans (h.2 next hnext) haccepts
  exact ⟨List.mem_cons_of_mem _ h.1, List.forall_mem_cons.2 ⟨hfirst, h.2⟩⟩

theorem foldl_join_of_top (h : ∀ ty ∈ types, top.accepts ty = true) :
    types.foldl join top = top := by
  induction types with
  | nil => rfl
  | cons ty rest ih =>
    obtain ⟨hty, hrest⟩ := List.forall_mem_cons.1 h
    rw [List.foldl_cons, join_of_accepts hty, ih hrest]

theorem foldl_join_object (types : List Ty) : types.foldl join .object = .object := by
  induction types with
  | nil => rfl
  | cons ty rest ih =>
    have hobject : Ty.object.join ty = .object := by
      rcases join_cases .object ty with ⟨heq, -⟩ | ⟨heq, haccepts⟩ | ⟨heq, -⟩
      · exact heq
      · rw [heq, eq_object_of_accepts haccepts]
      · exact heq
    rw [List.foldl_cons, hobject, ih]

/-- Joining types one after the other leads to the one that accepts all, or to `object` where two of
them are apart. -/
theorem foldl_join_cases (first : Ty) (rest : List Ty) :
    (rest.foldl join first).Tops (first :: rest) ∨
      (rest.foldl join first = .object ∧ SomeApart (first :: rest)) := by
  induction rest generalizing first with
  | nil =>
    refine .inl ⟨List.mem_cons_self, fun ty hty => ?_⟩
    rw [List.mem_singleton.1 hty]
    exact accepts_self first
  | cons next rest ih =>
    rw [List.foldl_cons]
    rcases join_cases first next with ⟨heq, haccepts⟩ | ⟨heq, haccepts⟩ | ⟨heq, hapart⟩
    · rw [heq]
      have hswap : (next :: first :: rest).Perm (first :: next :: rest) := .swap ..
      refine (ih first).imp (fun htops => ?_) fun ⟨hobject, hsome⟩ => ⟨hobject, ?_⟩
      · exact (htops.cons List.mem_cons_self haccepts).perm hswap
      · exact hsome.subset fun ty hty => hswap.subset (List.mem_cons_of_mem _ hty)
    · rw [heq]
      refine (ih next).imp (fun htops => ?_) fun ⟨hobject, hsome⟩ => ⟨hobject, ?_⟩
      · exact htops.cons List.mem_cons_self haccepts
      · exact hsome.subset (List.subset_cons_self _ _)
    · rw [heq, foldl_join_object]
      exact .inr ⟨rfl, first, List.mem_cons_self, next,
        List.mem_cons_of_mem _ List.mem_cons_self, hapart⟩

end Lists
end Ty

namespace Typing

/-- Typing finds that the values of the expression have the type. -/
def Infers (symbols : Symbols) (e : Expr Info) (ty : Ty) : Prop :=
  ∃ typed, expression symbols e = .ok typed ∧ typed.ty = some ty

section Components
variable {items others : List Typed} {item : Typed}

theorem exists_perm_cons {α : Type} {a : α} {list : List α} (h : a ∈ list) :
    ∃ rest, (a :: rest).Perm list := by
  obtain ⟨before, after, rfl⟩ := List.append_of_mem h
  exact ⟨before ++ after, List.perm_middle.symm⟩

theorem component_cons {ty : Ty} (h : item.ty = some ty) (rest : List Typed) :
    component (item :: rest) = (rest.filterMap Typed.ty).foldl Ty.join ty := by
  rw [component, List.filterMap_cons_some h]

theorem component_cases (items : List Typed) :
    (component items).Tops (items.filterMap Typed.ty) ∨ (component items = .object ∧
      (items.filterMap Typed.ty = [] ∨ Ty.SomeApart (items.filterMap Typed.ty))) := by
  unfold component
  cases items.filterMap Typed.ty with
  | nil => exact .inr ⟨rfl, .inl rfl⟩
  | cons first rest =>
    exact (Ty.foldl_join_cases first rest).imp_right fun ⟨hobject, hsome⟩ => ⟨hobject, .inr hsome⟩

/-- Where one type accepts all others and is not `object`, two that are apart make a difference. -/
theorem component_perm_iff (items : List Typed) :
    (∀ others : List Typed, others.Perm items → component others = component items) ↔
      ¬ Ty.Mixed (items.filterMap Typed.ty) := by
  constructor
  · rintro h ⟨⟨a, ha, b, hb, hab⟩, top, ⟨hmem, hall⟩, htop⟩
    -- The type that accepts all stays if it comes first.
    have hfirst : component items = top := by
      obtain ⟨item, hitem, hty⟩ := List.mem_filterMap.1 hmem
      obtain ⟨rest, hperm⟩ := exists_perm_cons hitem
      rw [← h _ hperm, component_cons hty]
      refine Ty.foldl_join_of_top fun ty hty => hall ty ?_
      refine (hperm.filterMap Typed.ty).subset ?_
      rw [List.filterMap_cons_some ‹item.ty = some top›]
      exact List.mem_cons_of_mem _ hty
    -- The two that are apart lead to `object` if they come first.
    have hlast : component items = .object := by
      obtain ⟨item, hitem, hty⟩ := List.mem_filterMap.1 ha
      obtain ⟨other, hother, hty'⟩ := List.mem_filterMap.1 hb
      obtain ⟨rest, hperm⟩ := exists_perm_cons hitem
      have hrest : other ∈ rest := by
        refine (List.mem_cons.1 (hperm.symm.subset hother)).resolve_left ?_
        rintro rfl
        exact hab.ne (Option.some.inj (hty.symm.trans hty'))
      obtain ⟨more, hmore⟩ := exists_perm_cons hrest
      rw [← h _ ((hmore.cons item).trans hperm), component_cons hty,
        List.filterMap_cons_some hty', List.foldl_cons, Ty.join_of_apart hab,
        Ty.foldl_join_object]
    exact htop (hfirst.symm.trans hlast)
  · intro h others hperm
    have htypes := hperm.filterMap Typed.ty
    rcases component_cases items with htops | ⟨hobject, hcause⟩
    · rcases component_cases others with htops' | ⟨hobject', hcause'⟩
      · exact (htops'.perm htypes).unique htops
      · have hsome : Ty.SomeApart (items.filterMap Typed.ty) := by
          rcases hcause' with hnil | hsome
          · rw [hnil] at htypes
            rw [htypes.symm.eq_nil] at htops
            cases htops.1
          · exact hsome.subset htypes.subset
        rw [hobject']
        by_contra hne
        exact h ⟨hsome, _, htops, fun heq => hne heq.symm⟩
    · rcases component_cases others with htops' | ⟨hobject', -⟩
      · have hsome : Ty.SomeApart (items.filterMap Typed.ty) := by
          refine hcause.resolve_left fun hnil => ?_
          rw [hnil] at htypes
          rw [htypes.eq_nil] at htops'
          cases htops'.1
        rw [hobject]
        by_contra hne
        exact h ⟨hsome, _, htops'.perm htypes, hne⟩
      · rw [hobject, hobject']

end Components

section Literals
variable {symbols : Symbols} {items others : List (Expr Info)} {found reordered : List Typed}

theorem expressions_iff : expressions symbols items = .ok found ↔
    List.Forall₂ (fun e typed => expression symbols e = .ok typed) items found := by
  induction items generalizing found with
  | nil =>
    rw [expressions, List.forall₂_nil_left_iff]
    exact ⟨fun h => (Except.ok.inj h).symm, fun h => congrArg Except.ok h.symm⟩
  | cons e rest ih =>
    rw [List.forall₂_cons_left_iff]
    constructor
    · intro h
      obtain ⟨first, more, hfirst, hmore, rfl⟩ := expressions_cons h
      exact ⟨first, more, hfirst, ih.1 hmore, rfl⟩
    · rintro ⟨first, more, hfirst, hmore, rfl⟩
      rw [expressions, hfirst, ih.2 hmore]
      rfl

theorem expressions_perm (hfound : expressions symbols items = .ok found)
    (hperm : others.Perm items) :
    ∃ reordered, expressions symbols others = .ok reordered ∧ reordered.Perm found := by
  obtain ⟨reordered, hreordered, hsame⟩ :=
    List.perm_comp_forall₂ hperm (expressions_iff.1 hfound)
  exact ⟨reordered, expressions_iff.2 hreordered, hsame⟩

/-- Every order of the results belongs to an order of the expressions. -/
theorem exists_expressions (hfound : expressions symbols items = .ok found)
    (hperm : reordered.Perm found) :
    ∃ others, others.Perm items ∧ expressions symbols others = .ok reordered := by
  obtain ⟨others, hothers, hsame⟩ :=
    List.perm_comp_forall₂ hperm (expressions_iff.1 hfound).flip
  exact ⟨others, hsame, expressions_iff.2 hothers.flip⟩

theorem component_asValue (found : List Typed) :
    component (found.map Typed.asValue) = component found := by
  unfold component
  rw [List.filterMap_map]
  rfl

theorem list_infers {info : Info} (hinfo : info.ty = none)
    (hfound : expressions symbols items = .ok found) {ty : Ty} :
    Infers symbols (.list info items) ty ↔ ty = .list (component found) := by
  rw [Infers, expression_list hinfo hfound, component_asValue]
  constructor
  · rintro ⟨typed, htyped, hty⟩
    cases htyped
    exact (Option.some.inj hty).symm
  · rintro rfl
    exact ⟨_, rfl, rfl⟩

end Literals

/-- The joined type of two is below every type that accepts both, unless they are lists of types that
are apart.  The type of a list literal is the same for every order of its items, unless two of their
types are apart and another one, which is not `object`, accepts them all. -/
theorem join_least (a b : Ty) (symbols : Symbols) {info : Info} {items : List (Expr Info)}
    (huntyped : Untyped (Expr.list info items).marks) :
    ((∀ c : Ty, c.accepts a = true → c.accepts b = true → c.accepts (a.join b) = true) ↔
      ¬ a.ListsApart b) ∧
    ∃ found ty, expressions symbols items = .ok found ∧ Infers symbols (.list info items) ty ∧
      ((∀ others : List (Expr Info), others.Perm items → Infers symbols (.list info others) ty) ↔
        ¬ Ty.Mixed (found.filterMap Typed.ty)) := by
  refine ⟨Ty.join_least_iff a b, ?_⟩
  obtain ⟨found, hfound, -⟩ := expressions_total symbols items huntyped.tail
  have hinfers := @list_infers symbols items found info huntyped.head hfound
  refine ⟨found, _, hfound, hinfers.2 rfl, Iff.trans ?_ (component_perm_iff found)⟩
  constructor
  · intro h reordered hperm
    obtain ⟨others, hothers, hreordered⟩ := exists_expressions hfound hperm
    have hsame := (list_infers huntyped.head hreordered).1 (h others hothers)
    exact (Ty.list.inj hsame).symm
  · intro h others hperm
    obtain ⟨reordered, hreordered, hsame⟩ := expressions_perm hfound hperm
    rw [list_infers huntyped.head hreordered, h reordered hsame]

/-- `[[1], null]` is a list of lists of integers, in either order. -/
theorem join_least_swapped : ∃ one first second whole,
    ¬ (Ty.list .int).ListsApart (.list .null) ∧
    ((Ty.list .object).accepts (.list .int) = true ∧ (Ty.list .object).accepts (.list .null) = true ∧
      (Ty.list .object).accepts (Ty.join (.list .int) (.list .null)) = true) ∧
    Untyped (Expr.list whole [.list first [.integer one 1], .null second]).marks ∧
    ¬ Ty.Mixed [.list .int, .null] ∧
    Infers .empty (.list whole [.null second, .list first [.integer one 1]]) (.list (.list .int)) := by
  let blank (id : Nat) : Info := ⟨id, default, [], none⟩
  have huntyped : Untyped
      (Expr.list (blank 3) [.list (blank 1) [.integer (blank 0) 1], .null (blank 2)]).marks := by
    intro info hinfo
    simp [Expr.marks, Expr.marksAll, blank] at hinfo
    rcases hinfo with rfl | rfl | rfl | rfl <;> rfl
  have hlists : ¬ (Ty.list .int).ListsApart (.list .null) := by
    rintro ⟨x, y, hx, hy, -, -, hxy, -⟩
    cases hx
    cases hy
    cases hxy
  have hmixed : ¬ Ty.Mixed [.list .int, .null] := by
    rintro ⟨⟨a, ha, b, hb, hab, hba⟩, -⟩
    simp only [List.mem_cons, List.not_mem_nil, or_false] at ha hb
    rcases ha with rfl | rfl <;> rcases hb with rfl | rfl <;>
      first | exact Bool.noConfusion hab | exact Bool.noConfusion hba
  obtain ⟨hleast, found, ty, hfound, hinfers, hiff⟩ :=
    join_least (.list .int) (.list .null) .empty huntyped
  have hvalues : expressions .empty [.list (blank 1) [.integer (blank 0) 1], .null (blank 2)] =
      .ok [⟨some (.list .int), .list ⟨1, default, [], some (.list .int)⟩
        [.integer ⟨0, default, [], some .int⟩ 1]⟩, ⟨some .null, .null ⟨2, default, [], some .null⟩⟩] :=
    rfl
  cases hfound.symm.trans hvalues
  cases (list_infers rfl hvalues).1 hinfers
  exact ⟨blank 0, blank 1, blank 2, blank 3, hlists,
    ⟨rfl, rfl, hleast.2 hlists _ rfl rfl⟩, huntyped, hmixed, hiff.2 hmixed _ (.swap ..)⟩

/-- A list of objects accepts lists of integers and lists of strings, but not what they are joined to.
So the same three items can be stored in one order, and are rejected in another. -/
theorem join_overshoots :
    ((Ty.list .object).accepts (.list .int) = true ∧
      (Ty.list .object).accepts (.list .string) = true ∧
      (Ty.list .object).accepts (Ty.join (.list .int) (.list .string)) = false) ∧
    accepted "var x: list<object> = [1]\nvar y: list<list<object>> = [x, [1], [\"a\"]]" = true ∧
    accepted "var x: list<object> = [1]\nvar y: list<list<object>> = [[1], [\"a\"], x]" = false :=
  ⟨⟨rfl, rfl, rfl⟩, by decide +kernel, by decide +kernel⟩

end Typing
end CatScript
