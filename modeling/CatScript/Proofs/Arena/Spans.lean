import CatScript.Proofs.Arena.Holding
import CatScript.Proofs.Arena.PostOrder
import CatScript.Proofs.Grammar.Nesting

/-! # Spans in an arena

The nodes of the tree of a text nest like their spans do (`Arena.parse_spans_nest`).  A row of an
arena names its children by their places, and the marks of the same parts make up a family of the
tree (`Program.rows_families`). -/
set_option autoImplicit false
namespace CatScript

section Families

def Row.places (row : Row) : Info × List NodeId :=
  (row.1, row.2.children)

/-- A family with the places of its parts. -/
def placesOf (family : Info × List Info) : Info × List NodeId :=
  (family.1, family.2.map Info.id)

theorem Expr.ids_eq (items : List (Expr Info)) :
    Expr.ids items = (items.map Expr.mark).map Info.id := by
  rw [List.map_map]
  rfl

theorem Stmt.ids_eq (body : List (Stmt Info)) :
    Stmt.ids body = (body.map Stmt.mark).map Info.id := by
  rw [List.map_map]
  rfl

mutual

theorem Expr.rows_families : (e : Expr Info) → e.rows.map Row.places = e.families.map placesOf
  | .identifier .. | .integer .. | .string .. | .boolean .. | .null _ | .broken .. => by
    simp only [Expr.rows, Expr.families, List.map_cons, List.map_nil, Row.places, placesOf,
      NodeKind.children]
  | .list _ items | .call _ _ items => by
    simp only [Expr.rows, Expr.families, List.map_cons, Row.places, placesOf, NodeKind.children,
      Expr.ids_eq, Expr.rowsAll_families items]
  | .parenthesized _ inner | .unary _ _ inner => by
    simp only [Expr.rows, Expr.families, List.map_cons, List.map_nil, Row.places, placesOf,
      NodeKind.children, Expr.rows_families inner]
  | .binary _ _ left right | .comparison _ _ left right | .equality _ _ left right => by
    simp only [Expr.rows, Expr.families, List.map_cons, List.map_nil, List.map_append, Row.places,
      placesOf, NodeKind.children, Expr.rows_families left, Expr.rows_families right]

theorem Expr.rowsAll_families : (items : List (Expr Info)) →
    (Expr.rowsAll items).map Row.places = (Expr.familiesAll items).map placesOf
  | [] => by simp only [Expr.rowsAll, Expr.familiesAll, List.map_nil]
  | e :: rest => by
    simp only [Expr.rowsAll, Expr.familiesAll, List.map_append, Expr.rows_families e,
      Expr.rowsAll_families rest]

end

mutual

theorem Stmt.rows_families : (s : Stmt Info) → s.rows.map Row.places = s.families.map placesOf
  | .declaration _ _ _ value | .assignment _ _ value | .print _ value | .call _ value
  | .returning _ (some value) => by
    simp only [Stmt.rows, Stmt.families, List.map_cons, List.map_nil, Row.places, placesOf,
      NodeKind.children, Option.toList, Expr.rows_families value]
  | .bare value => by simp only [Stmt.rows, Stmt.families, Expr.rows_families value]
  | .function _ _ _ _ body => by
    simp only [Stmt.rows, Stmt.families, List.map_cons, Row.places, placesOf, NodeKind.children,
      Stmt.ids_eq, Stmt.rowsAll_families body]
  | .ifThen _ condition body | .loop _ _ condition body => by
    simp only [Stmt.rows, Stmt.families, List.map_cons, List.map_append, Row.places, placesOf,
      NodeKind.children, Stmt.ids_eq, Expr.rows_families condition, Stmt.rowsAll_families body]
  | .ifThenElse _ condition thenBody elseBody => by
    simp only [Stmt.rows, Stmt.families, List.map_cons, List.map_append, Row.places, placesOf,
      NodeKind.children, Stmt.ids_eq, Expr.rows_families condition,
      Stmt.rowsAll_families thenBody, Stmt.rowsAll_families elseBody]
  | .returning _ none | .broken .. => by
    simp only [Stmt.rows, Stmt.families, List.map_cons, List.map_nil, Row.places, placesOf,
      NodeKind.children, Option.toList]

theorem Stmt.rowsAll_families : (body : List (Stmt Info)) →
    (Stmt.rowsAll body).map Row.places = (Stmt.familiesAll body).map placesOf
  | [] => by simp only [Stmt.rowsAll, Stmt.familiesAll, List.map_nil]
  | s :: rest => by
    simp only [Stmt.rowsAll, Stmt.familiesAll, List.map_append, Stmt.rows_families s,
      Stmt.rowsAll_families rest]

end

theorem Program.rows_families (p : Program Info) :
    p.rows.map Row.places = p.families.map placesOf := by
  cases p with
  | expression info body =>
    simp only [Program.rows, Program.families, List.map_cons, List.map_nil, Row.places, placesOf,
      NodeKind.children, Expr.rows_families]
  | statements info body =>
    simp only [Program.rows, Program.families, List.map_cons, Row.places, placesOf,
      NodeKind.children, Stmt.ids_eq, Stmt.rowsAll_families]

end Families

namespace Arena

def span? (arena : Arena) (id : NodeId) : Option Span :=
  arena.nodes[id]?.map Node.span

/-- The children of every node stand inside its span, apart from each other and in the order of the
source.  A child that ends behind its parent ends at `limit`, and its parent at `finish`. -/
def SpansNest (arena : Arena) (limit finish : Nat) : Prop :=
  ∀ (id : Nat) (node : Node), arena.nodes[id]? = some node →
    node.span.start ≤ node.span.stop ∧ ∃ spans : List Span,
      node.kind.children.map arena.span? = spans.map some ∧
      spans.Pairwise (fun a b => a.stop ≤ b.start) ∧
      ∀ span ∈ spans, node.span.start ≤ span.start ∧
        (span.stop ≤ node.span.stop ∨ span.stop = limit ∧ node.span.stop = finish)

theorem spansNest_of_holds {arena : Arena} {p : Program Info} {limit finish : Nat}
    (hholds : arena.Holds p) (hcovers : ∀ id : Nat, id < arena.size → ∃ row ∈ p.rows, row.1.id = id)
    (hnests : ∀ family ∈ (p.map Info.read).families, Grammar.Nests limit finish family) :
    arena.SpansNest limit finish := by
  have hspan : ∀ info ∈ p.marks, arena.span? info.id = some info.span := by
    intro info hinfo
    rw [← p.rows_marks] at hinfo
    obtain ⟨row, hrow, rfl⟩ := List.mem_map.1 hinfo
    obtain ⟨⟨parent, hnode⟩, -⟩ := hholds.stands row hrow
    rw [span?, hnode]
    rfl
  intro id node hnode
  obtain ⟨row, hrow, rfl⟩ := hcovers id (Array.getElem?_eq_some_iff.1 hnode).1
  obtain ⟨⟨parent, hstands⟩, -⟩ := hholds.stands row hrow
  obtain rfl := Option.some.inj (hnode.symm.trans hstands)
  -- The row is a family of the program, and the arena knows the spans of its parts.
  have hmem : Row.places row ∈ p.families.map placesOf :=
    p.rows_families ▸ List.mem_map_of_mem hrow
  obtain ⟨family, hfamily, hplaces⟩ := List.mem_map.1 hmem
  obtain ⟨hinfo, hchildren⟩ := Prod.mk.inj hplaces
  have hparts := p.parts_in family hfamily
  rw [Program.families_map] at hnests
  have hnest := hnests _ (List.mem_map_of_mem hfamily)
  dsimp only at hinfo hchildren ⊢
  rw [← hinfo, ← hchildren]
  refine ⟨hnest.wide, family.2.map Info.span, ?_, ?_, ?_⟩
  · rw [List.map_map, List.map_map]
    exact List.map_congr_left fun part hpart => hspan part (hparts hpart)
  · have hapart : (family.2.map Info.read).Pairwise fun a b => a.span.stop ≤ b.span.start :=
      hnest.apart
    rw [List.pairwise_map] at hapart ⊢
    exact hapart
  · intro span hspans
    obtain ⟨part, hpart, rfl⟩ := List.mem_map.1 hspans
    exact hnest.holds _ (List.mem_map_of_mem hpart)

/-- In the tree of every text the span of a node holds the spans of its children, which do not
overlap and stand in the order of the source.  Where a child reaches further than its parent, it
reaches to the end of the text, and its parent ends with the last token.  So all spans nest in a
text that ends with a token. -/
theorem parse_spans_nest (source : String) :
    (parse source).SpansNest source.utf8ByteSize (Token.lastStop source) := by
  obtain ⟨landed, hread, hholds, -, hcovers⟩ := holds_ofProgram (Grammar.parse source)
  refine spansNest_of_holds hholds hcovers ?_
  rw [hread]
  exact Grammar.parse_nests source

/-- An open parenthesis with a blank behind it: the expression that is missing stands behind the
blank, but the parentheses around it end with the parenthesis. -/
theorem parse_spans_overrun : (parse "( ").Lists 1 0 ∧
    (parse "( ").span? 1 = some ⟨0, 1, 1, 0⟩ ∧ (parse "( ").span? 0 = some ⟨2, 2, 1, 2⟩ := by
  have hkind : (parse "( ").nodes[1]?.map Node.kind = some (.parenthesized 0) := by decide +kernel
  obtain ⟨above, habove, hkind⟩ := Option.map_eq_some_iff.1 hkind
  exact ⟨⟨above, habove, by rw [hkind]; exact List.mem_singleton_self 0⟩, by decide +kernel,
    by decide +kernel⟩

end Arena
end CatScript
