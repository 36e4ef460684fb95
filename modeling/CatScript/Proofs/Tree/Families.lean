import CatScript.Proofs.Tree.Whole

/-! # The families of a tree

A family is the mark of a node together with the marks of its parts, in the order of the source.
What holds of each node and its parts holds of each family of the tree. -/
set_option autoImplicit false
namespace CatScript

variable {α β : Type}

mutual

/-- The families of an expression: its own before those of its parts. -/
def Expr.families : Expr α → List (α × List α)
  | .identifier mark _ | .integer mark _ | .string mark _ | .boolean mark _ | .null mark
  | .broken mark _ => [(mark, [])]
  | .list mark items | .call mark _ items =>
    (mark, items.map Expr.mark) :: Expr.familiesAll items
  | .parenthesized mark inner => (mark, [inner.mark]) :: inner.families
  | .unary mark _ operand => (mark, [operand.mark]) :: operand.families
  | .binary mark _ left right | .comparison mark _ left right | .equality mark _ left right =>
    (mark, [left.mark, right.mark]) :: (left.families ++ right.families)

def Expr.familiesAll : List (Expr α) → List (α × List α)
  | [] => []
  | e :: rest => e.families ++ Expr.familiesAll rest

end

mutual

def Stmt.families : Stmt α → List (α × List α)
  | .declaration mark _ _ value | .assignment mark _ value | .print mark value
  | .call mark value | .returning mark (some value) => (mark, [value.mark]) :: value.families
  | .function mark _ _ _ body => (mark, body.map Stmt.mark) :: Stmt.familiesAll body
  | .ifThen mark condition thenBody =>
    (mark, condition.mark :: thenBody.map Stmt.mark) ::
      (condition.families ++ Stmt.familiesAll thenBody)
  | .ifThenElse mark condition thenBody elseBody =>
    (mark, condition.mark :: (thenBody.map Stmt.mark ++ elseBody.map Stmt.mark)) ::
      (condition.families ++ Stmt.familiesAll thenBody ++ Stmt.familiesAll elseBody)
  | .loop mark _ iterable body =>
    (mark, iterable.mark :: body.map Stmt.mark) :: (iterable.families ++ Stmt.familiesAll body)
  | .returning mark none | .broken mark _ => [(mark, [])]
  | .bare value => value.families

def Stmt.familiesAll : List (Stmt α) → List (α × List α)
  | [] => []
  | s :: rest => s.families ++ Stmt.familiesAll rest

end

def Program.families : Program α → List (α × List α)
  | .expression mark body => (mark, [body.mark]) :: body.families
  | .statements mark body => (mark, body.map Stmt.mark) :: Stmt.familiesAll body

theorem Expr.forall_familiesAll {P : α × List α → Prop} {items : List (Expr α)}
    (h : ∀ e ∈ items, ∀ family ∈ e.families, P family) :
    ∀ family ∈ Expr.familiesAll items, P family := by
  induction items with
  | nil => nofun
  | cons e rest ih =>
    obtain ⟨hfirst, hrest⟩ := List.forall_mem_cons.1 h
    exact List.forall_mem_append.2 ⟨hfirst, ih hrest⟩

theorem Stmt.forall_familiesAll {P : α × List α → Prop} {body : List (Stmt α)}
    (h : ∀ s ∈ body, ∀ family ∈ s.families, P family) :
    ∀ family ∈ Stmt.familiesAll body, P family := by
  induction body with
  | nil => nofun
  | cons s rest ih =>
    obtain ⟨hfirst, hrest⟩ := List.forall_mem_cons.1 h
    exact List.forall_mem_append.2 ⟨hfirst, ih hrest⟩

section Marks

theorem Expr.map_mark_subset (items : List (Expr α)) :
    items.map Expr.mark ⊆ Expr.marksAll items := by
  induction items with
  | nil => exact List.nil_subset _
  | cons e rest ih =>
    exact List.cons_subset.2 ⟨List.mem_append_left _ e.mark_mem_marks,
      List.Subset.trans ih (List.subset_append_right ..)⟩

theorem Stmt.map_mark_subset (body : List (Stmt α)) :
    body.map Stmt.mark ⊆ Stmt.marksAll body := by
  induction body with
  | nil => exact List.nil_subset _
  | cons s rest ih =>
    exact List.cons_subset.2 ⟨List.mem_append_left _ s.mark_mem_marks,
      List.Subset.trans ih (List.subset_append_right ..)⟩

/-- The parts of the families are among the marks. -/
def PartsIn (families : List (α × List α)) (marks : List α) : Prop :=
  ∀ family ∈ families, family.2 ⊆ marks

theorem PartsIn.append {families others : List (α × List α)} {marks more : List α}
    (h : PartsIn families marks) (h' : PartsIn others more) :
    PartsIn (families ++ others) (marks ++ more) := by
  intro family hfamily
  rcases List.mem_append.1 hfamily with hfamily | hfamily
  · exact List.Subset.trans (h family hfamily) (List.subset_append_left ..)
  · exact List.Subset.trans (h' family hfamily) (List.subset_append_right ..)

theorem PartsIn.cons {families : List (α × List α)} {marks parts : List α} {mark : α}
    (hparts : parts ⊆ marks) (h : PartsIn families marks) :
    PartsIn ((mark, parts) :: families) (mark :: marks) := by
  have hcons : marks ⊆ mark :: marks := List.subset_cons_self ..
  intro family hfamily
  rcases List.mem_cons.1 hfamily with rfl | hfamily
  · exact List.Subset.trans hparts hcons
  · exact List.Subset.trans (h family hfamily) hcons

theorem PartsIn.leaf (mark : α) : PartsIn [(mark, [])] [mark] :=
  .cons (List.nil_subset _) nofun

mutual

theorem Expr.parts_in : (e : Expr α) → PartsIn e.families e.marks
  | .identifier .. | .integer .. | .string .. | .boolean .. | .null _ | .broken .. => by
    simp only [Expr.families, Expr.marks]
    exact .leaf _
  | .list _ items | .call _ _ items => by
    simp only [Expr.families, Expr.marks]
    exact .cons (Expr.map_mark_subset items) (Expr.partsAll_in items)
  | .parenthesized _ inner | .unary _ _ inner => by
    simp only [Expr.families, Expr.marks]
    exact .cons (List.cons_subset.2 ⟨inner.mark_mem_marks, List.nil_subset _⟩) (Expr.parts_in inner)
  | .binary _ _ left right | .comparison _ _ left right | .equality _ _ left right => by
    simp only [Expr.families, Expr.marks]
    refine .cons ?_ (.append (Expr.parts_in left) (Expr.parts_in right))
    exact List.cons_subset.2 ⟨List.mem_append_left _ left.mark_mem_marks,
      List.cons_subset.2 ⟨List.mem_append_right _ right.mark_mem_marks, List.nil_subset _⟩⟩

theorem Expr.partsAll_in : (items : List (Expr α)) →
    PartsIn (Expr.familiesAll items) (Expr.marksAll items)
  | [] => by
    simp only [Expr.familiesAll]
    exact nofun
  | e :: rest => by
    simp only [Expr.familiesAll, Expr.marksAll]
    exact .append (Expr.parts_in e) (Expr.partsAll_in rest)

end

mutual

theorem Stmt.parts_in : (s : Stmt α) → PartsIn s.families s.marks
  | .declaration _ _ _ value | .assignment _ _ value | .print _ value | .call _ value
  | .returning _ (some value) => by
    simp only [Stmt.families, Stmt.marks]
    exact .cons (List.cons_subset.2 ⟨value.mark_mem_marks, List.nil_subset _⟩) (Expr.parts_in value)
  | .bare value => by
    simp only [Stmt.families, Stmt.marks]
    exact Expr.parts_in value
  | .function _ _ _ _ body => by
    simp only [Stmt.families, Stmt.marks]
    exact .cons (Stmt.map_mark_subset body) (Stmt.partsAll_in body)
  | .ifThen _ condition body | .loop _ _ condition body => by
    simp only [Stmt.families, Stmt.marks]
    refine .cons ?_ (.append (Expr.parts_in condition) (Stmt.partsAll_in body))
    exact List.cons_subset.2 ⟨List.mem_append_left _ condition.mark_mem_marks,
      List.Subset.trans (Stmt.map_mark_subset body) (List.subset_append_right ..)⟩
  | .ifThenElse _ condition thenBody elseBody => by
    simp only [Stmt.families, Stmt.marks]
    refine .cons ?_ (.append (.append (Expr.parts_in condition) (Stmt.partsAll_in thenBody))
      (Stmt.partsAll_in elseBody))
    rw [List.append_assoc]
    refine List.cons_subset.2 ⟨List.mem_append_left _ condition.mark_mem_marks, ?_⟩
    refine List.append_subset.2 ⟨?_, ?_⟩
    · exact List.Subset.trans (Stmt.map_mark_subset thenBody)
        (List.Subset.trans (List.subset_append_left ..) (List.subset_append_right ..))
    · exact List.Subset.trans (Stmt.map_mark_subset elseBody)
        (List.Subset.trans (List.subset_append_right ..) (List.subset_append_right ..))
  | .returning _ none | .broken .. => by
    simp only [Stmt.families, Stmt.marks]
    exact .leaf _

theorem Stmt.partsAll_in : (body : List (Stmt α)) →
    PartsIn (Stmt.familiesAll body) (Stmt.marksAll body)
  | [] => by
    simp only [Stmt.familiesAll]
    exact nofun
  | s :: rest => by
    simp only [Stmt.familiesAll, Stmt.marksAll]
    exact .append (Stmt.parts_in s) (Stmt.partsAll_in rest)

end

theorem Program.parts_in (p : Program α) : PartsIn p.families p.marks := by
  cases p with
  | expression mark body =>
    exact .cons (List.cons_subset.2 ⟨body.mark_mem_marks, List.nil_subset _⟩) body.parts_in
  | statements mark body => exact .cons (Stmt.map_mark_subset body) (Stmt.partsAll_in body)

end Marks

section Map
variable (f : α → β)

theorem Expr.map_mark_mapAll (items : List (Expr α)) :
    (Expr.mapAll f items).map Expr.mark = (items.map Expr.mark).map f := by
  induction items with
  | nil => rfl
  | cons e rest ih => simp only [Expr.mapAll, List.map_cons, Expr.mark_map, ih]

theorem Stmt.map_mark_mapAll (body : List (Stmt α)) :
    (Stmt.mapAll f body).map Stmt.mark = (body.map Stmt.mark).map f := by
  induction body with
  | nil => rfl
  | cons s rest ih => simp only [Stmt.mapAll, List.map_cons, Stmt.mark_map, ih]

mutual

theorem Expr.families_map : (e : Expr α) →
    (e.map f).families = e.families.map (Prod.map f (List.map f))
  | .identifier .. | .integer .. | .string .. | .boolean .. | .null _ | .broken .. => by
    simp only [Expr.map, Expr.families, List.map_cons, List.map_nil, Prod.map]
  | .list _ items | .call _ _ items => by
    simp only [Expr.map, Expr.families, List.map_cons, Prod.map, Expr.map_mark_mapAll,
      Expr.familiesAll_map items]
  | .parenthesized _ inner | .unary _ _ inner => by
    simp only [Expr.map, Expr.families, List.map_cons, List.map_nil, Prod.map, Expr.mark_map,
      Expr.families_map inner]
  | .binary _ _ left right | .comparison _ _ left right | .equality _ _ left right => by
    simp only [Expr.map, Expr.families, List.map_cons, List.map_nil, List.map_append, Prod.map,
      Expr.mark_map, Expr.families_map left, Expr.families_map right]

theorem Expr.familiesAll_map : (items : List (Expr α)) →
    Expr.familiesAll (Expr.mapAll f items) =
      (Expr.familiesAll items).map (Prod.map f (List.map f))
  | [] => by simp only [Expr.mapAll, Expr.familiesAll, List.map_nil]
  | e :: rest => by
    simp only [Expr.mapAll, Expr.familiesAll, List.map_append, Expr.families_map e,
      Expr.familiesAll_map rest]

end

mutual

theorem Stmt.families_map : (s : Stmt α) →
    (s.map f).families = s.families.map (Prod.map f (List.map f))
  | .declaration _ _ _ value | .assignment _ _ value | .print _ value | .call _ value
  | .returning _ (some value) => by
    simp only [Stmt.map, Stmt.families, List.map_cons, List.map_nil, Prod.map, Expr.mark_map,
      Expr.families_map f value]
  | .bare value => by simp only [Stmt.map, Stmt.families, Expr.families_map f value]
  | .function _ _ _ _ body => by
    simp only [Stmt.map, Stmt.families, List.map_cons, Prod.map, Stmt.map_mark_mapAll,
      Stmt.familiesAll_map body]
  | .ifThen _ condition body | .loop _ _ condition body => by
    simp only [Stmt.map, Stmt.families, List.map_cons, List.map_append, Prod.map, Expr.mark_map,
      Stmt.map_mark_mapAll, Expr.families_map f condition, Stmt.familiesAll_map body]
  | .ifThenElse _ condition thenBody elseBody => by
    simp only [Stmt.map, Stmt.families, List.map_cons, List.map_append, Prod.map, Expr.mark_map,
      Stmt.map_mark_mapAll, Expr.families_map f condition, Stmt.familiesAll_map thenBody,
      Stmt.familiesAll_map elseBody]
  | .returning _ none | .broken .. => by
    simp only [Stmt.map, Stmt.families, List.map_cons, List.map_nil, Prod.map]

theorem Stmt.familiesAll_map : (body : List (Stmt α)) →
    Stmt.familiesAll (Stmt.mapAll f body) =
      (Stmt.familiesAll body).map (Prod.map f (List.map f))
  | [] => by simp only [Stmt.mapAll, Stmt.familiesAll, List.map_nil]
  | s :: rest => by
    simp only [Stmt.mapAll, Stmt.familiesAll, List.map_append, Stmt.families_map s,
      Stmt.familiesAll_map rest]

end

theorem Program.families_map (p : Program α) :
    (p.map f).families = p.families.map (Prod.map f (List.map f)) := by
  cases p with
  | expression mark body =>
    simp only [Program.map, Program.families, List.map_cons, List.map_nil, Prod.map, Expr.mark_map,
      Expr.families_map]
  | statements mark body =>
    simp only [Program.map, Program.families, List.map_cons, Prod.map, Stmt.map_mark_mapAll,
      Stmt.familiesAll_map]

end Map
end CatScript
