import CatScript.Proofs.Arena.PostOrder
import CatScript.Proofs.Grammar.Descent.Basic

/-! # One pass and its readers

The functions of the parser go where the readers go that are made for a given number of nesting
levels and of tokens, and they store what those read.  `Agrees` says it of one function and one
reader at one point: the function ends, whatever number of calls above some number is allowed, and
it does so at the depth where it began; it has gone where the reader goes, and not back; and what
both give is related as `P` wants it.  There is one rule for every primitive step, `Agrees.bind`
puts steps together, and `Agrees.call` opens a function. -/
set_option autoImplicit false
namespace CatScript
open Grammar

namespace Cursor
variable {cursor : Cursor} {tokens : List Token}

/-- The cursor stands on one of the tokens or on the end of the input behind them. -/
def Over (cursor : Cursor) (tokens : List Token) : Prop :=
  cursor.all = terminated tokens

theorem over_ofTokens (tokens : List Token) : (ofTokens tokens).Over tokens :=
  all_ofTokens tokens

theorem Over.next (h : cursor.Over tokens) : cursor.next.Over tokens :=
  cursor.all_next.trans h

theorem getLast?_terminated (tokens : List Token) :
    ∃ stop, (terminated tokens).getLast? = some stop ∧ stop.kind = .endOfInput := by
  unfold terminated
  split
  · exact ⟨_, rfl, rfl⟩
  · rename_i last hlast
    split
    · rename_i hkind
      exact ⟨last, hlast, hkind⟩
    · exact ⟨_, List.getLast?_concat, rfl⟩

theorem Over.kind_eq (h : cursor.Over tokens) (hlast : cursor.remaining = 0) :
    cursor.current.kind = .endOfInput := by
  obtain ⟨stop, hstop, hkind⟩ := getLast?_terminated tokens
  rw [← h, all, List.eq_nil_of_length_eq_zero hlast, List.getLast?_concat] at hstop
  rw [Option.some.inj hstop]
  exact hkind

theorem remaining_next (cursor : Cursor) : cursor.next.remaining = cursor.remaining - 1 := by
  obtain ⟨passed, current, ahead⟩ := cursor
  cases ahead <;> rfl

theorem Over.remaining_next_lt (h : cursor.Over tokens)
    (hmore : cursor.current.kind ≠ .endOfInput) : cursor.next.remaining < cursor.remaining := by
  have hpos := mt h.kind_eq hmore
  rw [remaining_next]
  omega

theorem Over.length_eq (h : cursor.Over tokens) :
    cursor.position + cursor.remaining + 1 = (terminated tokens).length := by
  rw [← h]
  simp only [all, position, remaining, List.length_append, List.length_reverse, List.length_cons]
  omega

theorem Over.reset_eq (h : cursor.Over tokens) : cursor.reset = ofTokens tokens := by
  unfold reset ofTokens
  rw [h]
  split
  · rename_i hnil
    exact absurd hnil (terminated_ne_nil tokens)
  · rfl

end Cursor

namespace Arena
variable {before arena after : Arena} {kind : NodeKind}

def Shows (arena : Arena) (id : NodeId) (span : Span) : Prop :=
  ∃ node, arena.nodes[id]? = some node ∧ node.span = span

theorem Shows.later {id : NodeId} {span : Span} {roots : List NodeId} (h : arena.Shows id span)
    (hlaid : Laid arena roots after) : after.Shows id span := by
  obtain ⟨node, hnode, hspan⟩ := h
  have hlt := (Array.getElem?_eq_some_iff.1 hnode).1
  exact ⟨node, (hlaid.old id hlt).trans hnode, hspan⟩

theorem attach_ok (parent : NodeId) {nodes : Array Node} {children : List NodeId}
    (hnodup : children.Nodup)
    (horphan : ∀ child ∈ children, ∃ node, nodes[child]? = some node ∧ node.parent = none) :
    ∃ result, children.foldlM (attach parent) nodes = .ok result := by
  induction children generalizing nodes with
  | nil => exact ⟨nodes, rfl⟩
  | cons child rest ih =>
    obtain ⟨hnot, hrest⟩ := List.nodup_cons.1 hnodup
    obtain ⟨node, hnode, hparent⟩ := horphan child List.mem_cons_self
    have hattach : attach parent nodes child =
        .ok (nodes.modify child fun node => { node with parent := some parent }) := by
      simp [attach, hnode, hparent]
    rw [List.foldlM_cons, hattach]
    refine ih hrest fun other hother => ?_
    obtain ⟨node, hnode, hparent⟩ := horphan other (List.mem_cons_of_mem _ hother)
    refine ⟨node, ?_, hparent⟩
    have hne : child ≠ other := fun heq => hnot (heq ▸ hother)
    rw [Array.getElem?_modify, if_neg hne]
    exact hnode

/-- A node that is pushed on top of the parts laid last breaks no rule. -/
theorem push_laid (h : Laid before kind.children arena) (span : Span) :
    arena.push kind span = .ok (arena.place kind ⟨span, []⟩) := by
  have horphan : ∀ child ∈ kind.children,
      ∃ node, arena.nodes[child]? = some node ∧ node.parent = none := by
    intro child hchild
    obtain ⟨hlow, hhigh⟩ := h.range child hchild
    obtain ⟨node, hnode⟩ : ∃ node, arena.nodes[child]? = some node :=
      ⟨_, Array.getElem?_eq_getElem hhigh⟩
    exact ⟨node, hnode, (h.orphan child node hlow hnode).2 hchild⟩
  obtain ⟨nodes, hnodes⟩ := attach_ok arena.size h.nodup horphan
  have hpush : arena.push kind span = .ok
      (arena.size, { arena with nodes := nodes.push ⟨kind, span, none, [], none⟩ }) := by
    simp only [push, hnodes]
    rfl
  rw [hpush, push_eq_place hpush]

/-- A report on a node that was just placed is one more that it is placed with. -/
theorem report_place (kind : NodeKind) (span : Span) (errors : List Diagnostic)
    (error : Diagnostic) : (arena.place kind ⟨span, errors⟩).2.report arena.size error =
      .ok (arena.place kind ⟨span, errors ++ [error]⟩).2 := by
  have hnode : (arena.place kind ⟨span, errors⟩).2.node arena.size =
      .ok ⟨kind, span, none, errors, none⟩ := by
    unfold node
    rw [getElem?_place]
  have hsize := size_attach arena.size kind.children arena.nodes
  simp only [report, hnode, bind, Except.bind, pure, Except.pure, Except.ok.injEq]
  simp only [place, Arena.mk.injEq, and_true]
  apply Array.ext_getElem?
  intro id
  rw [Array.getElem?_modify, Array.getElem?_push, Array.getElem?_push, hsize]
  by_cases hid : id = arena.size
  · subst hid
    simp [Arena.size]
  · have hother : ¬arena.size = id := fun heq => hid heq.symm
    rw [if_neg hother]
    simp only [Arena.size] at hid
    rw [if_neg hid, if_neg hid]

theorem reports_place (arena : Arena) (kind : NodeKind) (span : Span)
    (errors done : List Diagnostic) :
    errors.foldlM (fun after error => after.report arena.size error)
        (arena.place kind ⟨span, done⟩).2 =
      .ok (arena.place kind ⟨span, done ++ errors⟩).2 := by
  induction errors generalizing done with
  | nil => simp [pure, Except.pure]
  | cons error rest ih =>
    rw [List.foldlM_cons, report_place]
    refine (ih (done ++ [error])).trans ?_
    rw [List.append_assoc, List.singleton_append]

end Arena

namespace Descent
variable {β γ δ : Type} {tokens : List Token} {depth : Nat} {arena before after : Arena}
  {cursor later : Cursor}

/-- With enough calls the step ends, at the depth where it began and where the reader ends, and
never goes deeper than allowed.  What the step gives, and the arena it leaves, suit what the reader
gives. -/
def Agrees (tokens : List Token) (depth : Nat) (arena : Arena) (cursor : Cursor)
    (step : Nat → Descent γ) (reader : Reader β) (P : β → γ → Arena → Cursor → Prop) : Prop :=
  cursor.Over tokens → ∀ deepest, ∃ enough c after reached,
    (∀ calls ≥ enough, step calls ⟨cursor, arena, depth, deepest⟩ =
        some (.ok (c, ⟨(reader.run cursor).2, after, depth, reached⟩))) ∧
      deepest ≤ reached ∧ reached ≤ max deepest maxNesting ∧
      (reader.run cursor).2.Over tokens ∧ (reader.run cursor).2.remaining ≤ cursor.remaining ∧
      P (reader.run cursor).1 c after (reader.run cursor).2

theorem bind_ok {step : Descent γ} {session next : Session} {c : γ} (f : γ → Descent δ)
    (h : step session = some (.ok (c, next))) : (step >>= f) session = f c next := by
  show (step session >>= fun result => f result.1 result.2) = _
  rw [h]
  rfl

theorem peek_ok (deepest : Nat) : read Reader.peek ⟨cursor, arena, depth, deepest⟩ =
    some (.ok (cursor.current.kind, ⟨cursor, arena, depth, deepest⟩)) :=
  rfl

theorem current_ok (deepest : Nat) : read Reader.current ⟨cursor, arena, depth, deepest⟩ =
    some (.ok (cursor.current, ⟨cursor, arena, depth, deepest⟩)) :=
  rfl

theorem more_ok (deepest : Nat) : more ⟨cursor, arena, depth, deepest⟩ =
    some (.ok (cursor.hasMore, ⟨cursor, arena, depth, deepest⟩)) :=
  rfl

theorem checkpoint_ok (deepest : Nat) : checkpoint ⟨cursor, arena, depth, deepest⟩ =
    some (.ok (arena.size, ⟨cursor, arena, depth, deepest⟩)) :=
  rfl

theorem full_ok (deepest : Nat) : full ⟨cursor, arena, depth, deepest⟩ =
    some (.ok (decide (maxNesting ≤ depth), ⟨cursor, arena, depth, deepest⟩)) :=
  rfl

theorem spanAt_ok {id : NodeId} {span : Span} (h : arena.Shows id span) (deepest : Nat) :
    spanAt id ⟨cursor, arena, depth, deepest⟩ =
      some (.ok (span, ⟨cursor, arena, depth, deepest⟩)) := by
  obtain ⟨node, hnode, rfl⟩ := h
  have hfound : arena.node id = .ok node := by
    unfold Arena.node
    rw [hnode]
  simp only [spanAt, build, hfound]
  rfl

theorem push_ok {kind : NodeKind} (h : Laid before kind.children arena) (mark : Mark)
    (deepest : Nat) : push kind mark ⟨cursor, arena, depth, deepest⟩ =
      some (.ok (arena.size, ⟨cursor, (arena.place kind mark).2, depth, deepest⟩)) := by
  have hreports := arena.reports_place kind mark.span mark.errors []
  simp only [push, build, Arena.push_laid h, bind, Except.bind]
  have hid : (arena.place kind ⟨mark.span, []⟩).1 = arena.size := rfl
  rw [hid, hreports]
  rfl

namespace Agrees
variable {step : Nat → Descent γ} {reader : Reader β} {P : β → γ → Arena → Cursor → Prop}

theorem of_over (h : cursor.Over tokens → Agrees tokens depth arena cursor step reader P) :
    Agrees tokens depth arena cursor step reader P := by
  intro hover
  exact h hover hover

theorem pure {b : β} {c : γ} (h : P b c arena cursor) :
    Agrees tokens depth arena cursor (fun _ => Pure.pure c) (Pure.pure b) P := by
  intro hover deepest
  exact ⟨0, c, arena, deepest, fun _ _ => rfl, Nat.le_refl _, Nat.le_max_left .., hover,
    Nat.le_refl _, h⟩

theorem mono {P' : β → γ → Arena → Cursor → Prop}
    (h : Agrees tokens depth arena cursor step reader P)
    (himp : ∀ b c after later, P b c after later → later.remaining ≤ cursor.remaining →
      P' b c after later) : Agrees tokens depth arena cursor step reader P' := by
  intro hover deepest
  obtain ⟨enough, c, after, reached, hstep, hlow, hhigh, hlater, hle, hP⟩ := h hover deepest
  exact ⟨enough, c, after, reached, hstep, hlow, hhigh, hlater, hle, himp _ c after _ hP hle⟩

theorem call {opened : Nat → Descent γ} (hopened : ∀ calls, step (calls + 1) = opened calls)
    (h : Agrees tokens depth arena cursor opened reader P) :
    Agrees tokens depth arena cursor step reader P := by
  intro hover deepest
  obtain ⟨enough, c, after, reached, hstep, hrest⟩ := h hover deepest
  refine ⟨enough + 1, c, after, reached, fun calls hcalls => ?_, hrest⟩
  obtain ⟨left, rfl⟩ := Nat.exists_eq_add_of_le' (Nat.le_trans (Nat.le_add_left 1 enough) hcalls)
  rw [hopened]
  exact hstep left (Nat.le_of_succ_le_succ hcalls)

theorem bind {γ' β' : Type} {f : Nat → γ → Descent γ'} {g : β → Reader β'}
    {Q : β' → γ' → Arena → Cursor → Prop} (h : Agrees tokens depth arena cursor step reader P)
    (hnext : ∀ b c after later, P b c after later → later.remaining ≤ cursor.remaining →
      Agrees tokens depth after later (fun calls => f calls c) (g b) Q) :
    Agrees tokens depth arena cursor (fun calls => step calls >>= f calls) (reader >>= g) Q := by
  intro hover deepest
  obtain ⟨enough, c, after, reached, hstep, hlow, hhigh, hlater, hle, hP⟩ := h hover deepest
  obtain ⟨enough', c', after', reached', hstep', hlow', hhigh', hlater', hle', hQ⟩ :=
    hnext _ c after _ hP hle hlater reached
  refine ⟨max enough enough', c', after', reached', fun calls hcalls => ?_, by omega, by omega,
    hlater', Nat.le_trans hle' hle, hQ⟩
  exact (bind_ok _ (hstep calls (by omega))).trans (hstep' calls (by omega))

/-- What is made of what the first step gives does not matter to the arena. -/
theorem bind_map {γ' β' α ι : Type} {make : γ → ι} {give : β → α} {f : Nat → ι → Descent γ'}
    {g : α → Reader β'} {Q : β' → γ' → Arena → Cursor → Prop}
    (h : Agrees tokens depth arena cursor step reader P)
    (hnext : ∀ b c after later, P b c after later → later.remaining ≤ cursor.remaining →
      Agrees tokens depth after later (fun calls => f calls (make c)) (g (give b)) Q) :
    Agrees tokens depth arena cursor (fun calls => make <$> step calls >>= f calls)
      (give <$> reader >>= g) Q := by
  simp only [bind_map_left]
  exact h.bind hnext

/-- A step that the reader does not take: it works on the arena alone. -/
theorem aside {γ' : Type} {step : Descent γ} {f : Nat → γ → Descent γ'}
    {Q : β → γ' → Arena → Cursor → Prop} {c : γ}
    (hstep : ∀ deepest, step ⟨cursor, arena, depth, deepest⟩ =
      some (.ok (c, ⟨cursor, after, depth, deepest⟩)))
    (h : Agrees tokens depth after cursor (fun calls => f calls c) reader Q) :
    Agrees tokens depth arena cursor (fun calls => step >>= f calls) reader Q := by
  intro hover deepest
  simp only [bind_ok _ (hstep deepest)]
  exact h hover deepest

/-- The bounds of a loop are asked for by the reader alone. -/
theorem remaining {g : Nat → Reader β}
    (h : Agrees tokens depth arena cursor step (g cursor.remaining) P) :
    Agrees tokens depth arena cursor step (Reader.remaining >>= g) P :=
  h

/-- The step alone asks for the spans of the nodes. -/
theorem span {f : Nat → Span → Descent γ} {id : NodeId} {span : Span}
    (hshows : arena.Shows id span)
    (h : Agrees tokens depth arena cursor (fun calls => f calls span) reader P) :
    Agrees tokens depth arena cursor (fun calls => spanAt id >>= f calls) reader P :=
  aside (spanAt_ok hshows) h

theorem push {b : β} {P : β → NodeId → Arena → Cursor → Prop} {kind : NodeKind} {mark : Mark}
    (hlaid : Laid before kind.children arena)
    (h : P b arena.size (arena.place kind mark).2 cursor) :
    Agrees tokens depth arena cursor (fun _ => Descent.push kind mark) (Pure.pure b) P := by
  intro hover deepest
  refine ⟨0, _, _, deepest, fun _ _ => ?_, Nat.le_refl _, Nat.le_max_left .., hover, Nat.le_refl _,
    h⟩
  exact push_ok hlaid mark deepest

theorem ite {p : Prop} [Decidable p] {step' : Nat → Descent γ} {reader' : Reader β}
    (hyes : p → Agrees tokens depth arena cursor step reader P)
    (hno : ¬p → Agrees tokens depth arena cursor step' reader' P) :
    Agrees tokens depth arena cursor (fun calls => if p then step calls else step' calls)
      (if p then reader else reader') P := by
  by_cases h : p
  · simp only [if_pos h]
    exact hyes h
  · simp only [if_neg h]
    exact hno h

theorem ended {f : Nat → Bool → Descent γ} {kind : TokenKind} (hlast : cursor.remaining = 0)
    (hkind : kind ≠ .endOfInput)
    (h : Agrees tokens depth arena cursor (fun calls => f calls false) reader P) :
    Agrees tokens depth arena cursor (fun calls => Descent.read (Reader.accept kind) >>= f calls)
      reader P := by
  refine of_over fun hover => aside (fun deepest => ?_) h
  have hrefused : (Reader.accept kind).run cursor = (false, cursor) :=
    if_neg (hover.kind_eq hlast ▸ Ne.symm hkind)
  simp only [Descent.read, hrefused]
  rfl

section Depth
variable {f : Nat → γ → Descent δ} {β' : Type} {g : β → Reader β'}
  {Q : β' → δ → Arena → Cursor → Prop}

theorem deeper (hroom : depth < maxNesting)
    (h : Agrees tokens (depth + 1) arena cursor step reader P)
    (hnext : ∀ b c after later, P b c after later → later.remaining ≤ cursor.remaining →
      Agrees tokens depth after later (fun calls => f calls c) (g b) Q) :
    Agrees tokens depth arena cursor
      (fun calls => enter >>= fun _ => step calls >>= fun c => leave >>= fun _ => f calls c)
      (reader >>= g) Q := by
  intro hover deepest
  obtain ⟨enough, c, after, reached, hstep, hlow, hhigh, hlater, hle, hP⟩ :=
    h hover (max deepest (depth + 1))
  obtain ⟨enough', c', after', reached', hstep', hlow', hhigh', hlater', hle', hQ⟩ :=
    hnext _ c after _ hP hle hlater reached
  refine ⟨max enough enough', c', after', reached', fun calls hcalls => ?_, by omega, by omega,
    hlater', Nat.le_trans hle' hle, hQ⟩
  have hinner := hstep calls (by omega)
  refine (bind_ok _ rfl).trans ((bind_ok _ hinner).trans ((bind_ok _ rfl).trans ?_))
  exact hstep' calls (by omega)

variable {step' : Nat → Descent γ}

theorem full (hfull : maxNesting ≤ depth)
    (h : Agrees tokens depth arena cursor step reader P) :
    Agrees tokens depth arena cursor
      (fun calls => Descent.full >>= fun b => if b then step calls else step' calls) reader P := by
  refine aside full_ok ?_
  simp only [decide_eq_true hfull]
  exact h

theorem room (hroom : depth < maxNesting)
    (h : Agrees tokens depth arena cursor step' reader P) :
    Agrees tokens depth arena cursor
      (fun calls => Descent.full >>= fun b => if b then step calls else step' calls) reader P := by
  refine aside full_ok ?_
  simp only [decide_eq_false (Nat.not_le.2 hroom)]
  exact h

end Depth

section Reading
variable {γ' β' : Type} {P : β' → γ' → Arena → Cursor → Prop}

/-- What a reader does, a step does that reads with it. -/
theorem read {reader : Reader δ} {f : Nat → δ → Descent γ'} {g : δ → Reader β'} {d : δ}
    (hread : reader.run cursor = (d, later)) (hover : cursor.Over tokens → later.Over tokens)
    (hle : later.remaining ≤ cursor.remaining)
    (h : Agrees tokens depth arena later (fun calls => f calls d) (g d) P) :
    Agrees tokens depth arena cursor (fun calls => Descent.read reader >>= f calls) (reader >>= g)
      P := by
  have hstep : Agrees tokens depth arena cursor (fun _ => Descent.read reader) reader
      fun b c after now => b = d ∧ c = d ∧ after = arena ∧ now = later := by
    intro hcursor deepest
    refine ⟨0, d, arena, deepest, fun _ _ => ?_, Nat.le_refl _, Nat.le_max_left .., ?_⟩
    · simp only [Descent.read, hread]
      rfl
    · rw [hread]
      exact ⟨hover hcursor, hle, rfl, rfl, rfl, rfl⟩
  refine hstep.bind fun b c after now heq _ => ?_
  obtain ⟨rfl, rfl, rfl, rfl⟩ := heq
  exact h

theorem peek {f : Nat → TokenKind → Descent γ'} {g : TokenKind → Reader β'}
    (h : Agrees tokens depth arena cursor (fun calls => f calls cursor.current.kind)
      (g cursor.current.kind) P) :
    Agrees tokens depth arena cursor (fun calls => Descent.read Reader.peek >>= f calls)
      (Reader.peek >>= g) P :=
  read rfl id (Nat.le_refl _) h

theorem current {f : Nat → Token → Descent γ'} {g : Token → Reader β'}
    (h : Agrees tokens depth arena cursor (fun calls => f calls cursor.current)
      (g cursor.current) P) :
    Agrees tokens depth arena cursor (fun calls => Descent.read Reader.current >>= f calls)
      (Reader.current >>= g) P :=
  read rfl id (Nat.le_refl _) h

theorem close {P : β' → NodeId → Arena → Cursor → Prop} {kind : NodeKind} {start : Span}
    {errors : List Diagnostic} {result : Span → β'} (hlaid : Laid before kind.children arena)
    (h : ∀ span, P (result span) arena.size (arena.place kind ⟨span, errors⟩).2 cursor) :
    Agrees tokens depth arena cursor
      (fun _ => Descent.read (Reader.spanFrom start) >>= fun span =>
        Descent.push kind ⟨span, errors⟩)
      (Reader.spanFrom start >>= fun span => Pure.pure (result span)) P :=
  read rfl id (Nat.le_refl _) (push hlaid (h _))

theorem take {f : Nat → Token → Descent γ'} {g : Token → Reader β'}
    (h : (cursor.current.kind ≠ .endOfInput → cursor.next.remaining < cursor.remaining) →
      Agrees tokens depth arena cursor.next (fun calls => f calls cursor.current)
        (g cursor.current) P) :
    Agrees tokens depth arena cursor (fun calls => Descent.read Reader.take >>= f calls)
      (Reader.take >>= g) P := by
  refine of_over fun hover => ?_
  exact read rfl Cursor.Over.next (by rw [Cursor.remaining_next]; omega) (h hover.remaining_next_lt)

theorem accept {kind : TokenKind} {f : Nat → Bool → Descent γ'} {g : Bool → Reader β'}
    (hkind : kind ≠ .endOfInput)
    (hyes : cursor.next.remaining < cursor.remaining →
      Agrees tokens depth arena cursor.next (fun calls => f calls true) (g true) P)
    (hno : Agrees tokens depth arena cursor (fun calls => f calls false) (g false) P) :
    Agrees tokens depth arena cursor (fun calls => Descent.read (Reader.accept kind) >>= f calls)
      (Reader.accept kind >>= g) P := by
  by_cases hcurrent : cursor.current.kind = kind
  · refine of_over fun hover => ?_
    have hlt := hover.remaining_next_lt (hcurrent ▸ hkind)
    exact read (if_pos hcurrent) Cursor.Over.next (Nat.le_of_lt hlt) (hyes hlt)
  · exact read (if_neg hcurrent) id (Nat.le_refl _) hno

theorem require {kind : TokenKind} {f : Nat → Token × List Diagnostic → Descent γ'}
    {g : Token × List Diagnostic → Reader β'}
    (h : ∀ token errors later, later.remaining ≤ cursor.remaining →
      Agrees tokens depth arena later (fun calls => f calls (token, errors)) (g (token, errors))
        P) :
    Agrees tokens depth arena cursor (fun calls => Descent.read (Reader.require kind) >>= f calls)
      (Reader.require kind >>= g) P := by
  by_cases hcurrent : cursor.current.kind = kind
  · have hle : cursor.next.remaining ≤ cursor.remaining := by
      rw [Cursor.remaining_next]
      omega
    exact read (if_pos hcurrent) Cursor.Over.next hle (h _ _ _ hle)
  · exact read (if_neg hcurrent) id (Nat.le_refl _) (h _ _ _ (Nat.le_refl _))

end Reading
end Agrees
end Descent
end CatScript
