import CatScript.Proofs.Typing.Subtyping
import CatScript.Tree.Marks

/-! # Whole trees

A tree is whole when every piece of it that could not be read is reported, functions return where
they may, and annotations name types that can be stored.  Changing the marks of a tree keeps the
rest of it (`Expr.map`). -/
set_option autoImplicit false
namespace CatScript

variable {α β γ : Type}

mutual

def Expr.map (f : α → β) : Expr α → Expr β
  | .identifier mark name => .identifier (f mark) name
  | .integer mark value => .integer (f mark) value
  | .string mark text => .string (f mark) text
  | .boolean mark value => .boolean (f mark) value
  | .null mark => .null (f mark)
  | .list mark items => .list (f mark) (Expr.mapAll f items)
  | .parenthesized mark inner => .parenthesized (f mark) (inner.map f)
  | .unary mark op operand => .unary (f mark) op (operand.map f)
  | .binary mark op left right => .binary (f mark) op (left.map f) (right.map f)
  | .comparison mark op left right => .comparison (f mark) op (left.map f) (right.map f)
  | .equality mark op left right => .equality (f mark) op (left.map f) (right.map f)
  | .call mark name args => .call (f mark) name (Expr.mapAll f args)
  | .broken mark text => .broken (f mark) text

def Expr.mapAll (f : α → β) : List (Expr α) → List (Expr β)
  | [] => []
  | e :: rest => e.map f :: Expr.mapAll f rest

end

mutual

def Stmt.map (f : α → β) : Stmt α → Stmt β
  | .declaration mark name ty? value => .declaration (f mark) name ty? (value.map f)
  | .assignment mark name value => .assignment (f mark) name (value.map f)
  | .function mark name params returns body =>
    .function (f mark) name params returns (Stmt.mapAll f body)
  | .ifThen mark condition thenBody =>
    .ifThen (f mark) (condition.map f) (Stmt.mapAll f thenBody)
  | .ifThenElse mark condition thenBody elseBody =>
    .ifThenElse (f mark) (condition.map f) (Stmt.mapAll f thenBody) (Stmt.mapAll f elseBody)
  | .loop mark name iterable body =>
    .loop (f mark) name (iterable.map f) (Stmt.mapAll f body)
  | .print mark value => .print (f mark) (value.map f)
  | .call mark value => .call (f mark) (value.map f)
  | .returning mark none => .returning (f mark) none
  | .returning mark (some value) => .returning (f mark) (some (value.map f))
  | .broken mark text => .broken (f mark) text
  | .bare value => .bare (value.map f)

def Stmt.mapAll (f : α → β) : List (Stmt α) → List (Stmt β)
  | [] => []
  | s :: rest => s.map f :: Stmt.mapAll f rest

end

def Program.map (f : α → β) : Program α → Program β
  | .expression mark body => .expression (f mark) (body.map f)
  | .statements mark body => .statements (f mark) (Stmt.mapAll f body)

def Info.bare (info : Info) : Info :=
  { info with errors := [], ty := none }

theorem Expr.mark_mem_marks (e : Expr α) : e.mark ∈ e.marks :=
  List.mem_of_mem_head? e.head?_marks

theorem Stmt.mark_mem_marks (s : Stmt α) : s.mark ∈ s.marks :=
  List.mem_of_mem_head? s.head?_marks

theorem Expr.mark_map (f : α → β) (e : Expr α) : (e.map f).mark = f e.mark := by
  cases e <;> rfl

theorem Stmt.mark_map (f : α → β) (s : Stmt α) : (s.map f).mark = f s.mark := by
  cases s with
  | returning mark value => cases value <;> rfl
  | bare value => exact Expr.mark_map f value
  | _ => rfl

/-- Changes that keep what `f` sees of a mark are not seen in the tree. -/
theorem Expr.map_adjust {f : α → β} {change : α → α} (h : ∀ mark, f (change mark) = f mark)
    (e : Expr α) : (e.adjust change).map f = e.map f := by
  cases e <;> simp only [Expr.adjust, Expr.map, h]

section Marks
variable (f : α → β)

mutual

theorem Expr.marks_map : (e : Expr α) → (e.map f).marks = e.marks.map f
  | .identifier .. | .integer .. | .string .. | .boolean .. | .null _ | .broken .. => rfl
  | .list _ items | .call _ _ items => by
    simp only [Expr.map, Expr.marks, List.map_cons, Expr.marksAll_map items]
  | .parenthesized _ inner | .unary _ _ inner => by
    simp only [Expr.map, Expr.marks, List.map_cons, Expr.marks_map inner]
  | .binary _ _ left right | .comparison _ _ left right | .equality _ _ left right => by
    simp only [Expr.map, Expr.marks, List.map_cons, List.map_append, Expr.marks_map left,
      Expr.marks_map right]

theorem Expr.marksAll_map : (items : List (Expr α)) →
    Expr.marksAll (Expr.mapAll f items) = (Expr.marksAll items).map f
  | [] => rfl
  | e :: rest => by
    simp only [Expr.mapAll, Expr.marksAll, List.map_append, Expr.marks_map e,
      Expr.marksAll_map rest]

end

mutual

theorem Stmt.marks_map : (s : Stmt α) → (s.map f).marks = s.marks.map f
  | .declaration _ _ _ value | .assignment _ _ value | .print _ value | .call _ value
  | .returning _ (some value) => by
    simp only [Stmt.map, Stmt.marks, List.map_cons, Expr.marks_map f value]
  | .bare value => by simp only [Stmt.map, Stmt.marks, Expr.marks_map f value]
  | .function _ _ _ _ body => by
    simp only [Stmt.map, Stmt.marks, List.map_cons, Stmt.marksAll_map body]
  | .ifThen _ condition body | .loop _ _ condition body => by
    simp only [Stmt.map, Stmt.marks, List.map_cons, List.map_append, Expr.marks_map f condition,
      Stmt.marksAll_map body]
  | .ifThenElse _ condition thenBody elseBody => by
    simp only [Stmt.map, Stmt.marks, List.map_cons, List.map_append, Expr.marks_map f condition,
      Stmt.marksAll_map thenBody, Stmt.marksAll_map elseBody]
  | .returning _ none | .broken .. => rfl

theorem Stmt.marksAll_map : (body : List (Stmt α)) →
    Stmt.marksAll (Stmt.mapAll f body) = (Stmt.marksAll body).map f
  | [] => rfl
  | s :: rest => by
    simp only [Stmt.mapAll, Stmt.marksAll, List.map_append, Stmt.marks_map s,
      Stmt.marksAll_map rest]

end

theorem Program.marks_map (p : Program α) : (p.map f).marks = p.marks.map f := by
  cases p with
  | expression mark body => simp only [Program.map, Program.marks, List.map_cons, Expr.marks_map]
  | statements mark body => simp only [Program.map, Program.marks, List.map_cons, Stmt.marksAll_map]

end Marks

section Whole
variable (reported : α → Prop)

mutual

/-- What could not be read of an expression is reported. -/
def Expr.Whole : Expr α → Prop
  | .identifier .. | .integer .. | .string .. | .boolean .. | .null _ => True
  | .list _ items | .call _ _ items => Expr.WholeAll items
  | .parenthesized _ inner | .unary _ _ inner => inner.Whole
  | .binary _ _ left right | .comparison _ _ left right | .equality _ _ left right =>
    left.Whole ∧ right.Whole
  | .broken mark _ => reported mark

def Expr.WholeAll : List (Expr α) → Prop
  | [] => True
  | e :: rest => e.Whole ∧ Expr.WholeAll rest

end

mutual

/-- What could not be read of a statement is reported, and only functions return. -/
def Stmt.Whole (inFunction : Bool) : Stmt α → Prop
  | .declaration _ _ ty? value => (∀ ty, ty? = some ty → ty.Storable) ∧ value.Whole reported
  | .assignment _ _ value | .print _ value | .call _ value => value.Whole reported
  | .function _ _ params returns body => (∀ param ∈ params, param.ty.Storable) ∧
    (returns = .void ∨ returns.Storable) ∧ Stmt.WholeAll true body
  | .ifThen _ condition body | .loop _ _ condition body =>
    condition.Whole reported ∧ Stmt.WholeAll inFunction body
  | .ifThenElse _ condition thenBody elseBody => condition.Whole reported ∧
    Stmt.WholeAll inFunction thenBody ∧ Stmt.WholeAll inFunction elseBody
  | .returning _ none => inFunction = true
  | .returning _ (some value) => inFunction = true ∧ value.Whole reported
  | .broken mark _ => reported mark
  | .bare _ => False

def Stmt.WholeAll (inFunction : Bool) : List (Stmt α) → Prop
  | [] => True
  | s :: rest => Stmt.Whole inFunction s ∧ Stmt.WholeAll inFunction rest

end

def Program.Whole : Program α → Prop
  | .expression _ body => body.Whole reported
  | .statements _ body => Stmt.WholeAll reported false body

end Whole

section Maps
variable {reported : β → Prop} {f : α → β}

mutual

theorem Expr.whole_of_map : (e : Expr α) → (e.map f).Whole reported →
    e.Whole fun mark => reported (f mark)
  | .identifier .., _ | .integer .., _ | .string .., _ | .boolean .., _ | .null _, _ => by
    simp only [Expr.Whole]
  | .list _ items, h | .call _ _ items, h => by
    simp only [Expr.map, Expr.Whole] at h ⊢
    exact Expr.wholeAll_of_map items h
  | .parenthesized _ inner, h | .unary _ _ inner, h => by
    simp only [Expr.map, Expr.Whole] at h ⊢
    exact Expr.whole_of_map inner h
  | .binary _ _ left right, h | .comparison _ _ left right, h | .equality _ _ left right, h => by
    simp only [Expr.map, Expr.Whole] at h ⊢
    exact ⟨Expr.whole_of_map left h.1, Expr.whole_of_map right h.2⟩
  | .broken .., h => by
    simp only [Expr.map, Expr.Whole] at h ⊢
    exact h

theorem Expr.wholeAll_of_map : (items : List (Expr α)) →
    Expr.WholeAll reported (Expr.mapAll f items) → Expr.WholeAll (fun mark => reported (f mark)) items
  | [], _ => by simp only [Expr.WholeAll]
  | e :: rest, h => by
    simp only [Expr.mapAll, Expr.WholeAll] at h ⊢
    exact ⟨Expr.whole_of_map e h.1, Expr.wholeAll_of_map rest h.2⟩

end

mutual

theorem Stmt.whole_of_map {inFunction : Bool} : (s : Stmt α) →
    (s.map f).Whole reported inFunction → s.Whole (fun mark => reported (f mark)) inFunction
  | .declaration _ _ _ value, h => by
    simp only [Stmt.map, Stmt.Whole] at h ⊢
    exact ⟨h.1, value.whole_of_map h.2⟩
  | .assignment _ _ value, h | .print _ value, h | .call _ value, h => by
    simp only [Stmt.map, Stmt.Whole] at h ⊢
    exact value.whole_of_map h
  | .function _ _ _ _ body, h => by
    simp only [Stmt.map, Stmt.Whole] at h ⊢
    exact ⟨h.1, h.2.1, Stmt.wholeAll_of_map body h.2.2⟩
  | .ifThen _ condition body, h | .loop _ _ condition body, h => by
    simp only [Stmt.map, Stmt.Whole] at h ⊢
    exact ⟨condition.whole_of_map h.1, Stmt.wholeAll_of_map body h.2⟩
  | .ifThenElse _ condition thenBody elseBody, h => by
    simp only [Stmt.map, Stmt.Whole] at h ⊢
    exact ⟨condition.whole_of_map h.1, Stmt.wholeAll_of_map thenBody h.2.1,
      Stmt.wholeAll_of_map elseBody h.2.2⟩
  | .returning _ none, h | .broken .., h => by
    simp only [Stmt.map, Stmt.Whole] at h ⊢
    exact h
  | .returning _ (some value), h => by
    simp only [Stmt.map, Stmt.Whole] at h ⊢
    exact ⟨h.1, value.whole_of_map h.2⟩
  | .bare _, h => by
    simp only [Stmt.map, Stmt.Whole] at h

theorem Stmt.wholeAll_of_map {inFunction : Bool} : (body : List (Stmt α)) →
    Stmt.WholeAll reported inFunction (Stmt.mapAll f body) →
    Stmt.WholeAll (fun mark => reported (f mark)) inFunction body
  | [], _ => by simp only [Stmt.WholeAll]
  | s :: rest, h => by
    simp only [Stmt.mapAll, Stmt.WholeAll] at h ⊢
    exact ⟨Stmt.whole_of_map s h.1, Stmt.wholeAll_of_map rest h.2⟩

end

theorem Program.whole_of_map (p : Program α) (h : (p.map f).Whole reported) :
    p.Whole fun mark => reported (f mark) := by
  cases p with
  | expression mark body => exact Expr.whole_of_map body h
  | statements mark body => exact Stmt.wholeAll_of_map body h

end Maps
end CatScript
