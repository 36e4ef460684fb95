import CatScript.Fault
import CatScript.Tree.Basic

/-! # Arenas

An arena holds the nodes of a tree in a row.  A node names its children by their places in the row,
and every child names its parent.  `push` refuses a child that is missing or has a parent already,
and does what `place` does otherwise (`push_eq_place`). -/
set_option autoImplicit false
namespace CatScript

/-- The place of a node in an arena. -/
abbrev NodeId := Nat

/-- What a node is, with its children by their places. -/
inductive NodeKind where
  | expressionProgram (body : NodeId)
  | statementProgram (body : List NodeId)
  | identifier (name : String)
  | integer (value : Int64)
  | string (text : String)
  | boolean (value : Bool)
  | null
  | list (items : List NodeId)
  | parenthesized (inner : NodeId)
  | unary (op : UnaryOp) (operand : NodeId)
  | binary (op : BinaryOp) (left right : NodeId)
  | comparison (op : ComparisonOp) (left right : NodeId)
  | equality (op : EqualityOp) (left right : NodeId)
  | call (name : String) (args : List NodeId)
  | brokenExpression (text : String)
  | declaration (name : String) (ty? : Option Ty) (value : NodeId)
  | assignment (name : String) (value : NodeId)
  | function (name : String) (params : List Parameter) (returns : Ty) (body : List NodeId)
  | ifThen (condition : NodeId) (thenBody : List NodeId)
  | ifThenElse (condition : NodeId) (thenBody elseBody : List NodeId)
  | loop (name : String) (iterable : NodeId) (body : List NodeId)
  | print (value : NodeId)
  | callStatement (value : NodeId)
  | returning (value : Option NodeId)
  | brokenStatement (text : String)
deriving DecidableEq, Inhabited

namespace NodeKind

/-- The children of a node, in the order of the source. -/
def children : NodeKind → List NodeId
  | expressionProgram body => [body]
  | statementProgram body => body
  | identifier _ | integer _ | string _ | boolean _ | null | brokenExpression _ => []
  | list items => items
  | parenthesized inner => [inner]
  | unary _ operand => [operand]
  | binary _ left right | comparison _ left right | equality _ left right => [left, right]
  | call _ args => args
  | declaration _ _ value | assignment _ value => [value]
  | function _ _ _ body => body
  | ifThen condition thenBody => condition :: thenBody
  | ifThenElse condition thenBody elseBody => condition :: (thenBody ++ elseBody)
  | loop _ iterable body => iterable :: body
  | print value | callStatement value => [value]
  | returning value => value.toList
  | brokenStatement _ => []

def isProgram : NodeKind → Bool
  | expressionProgram _ | statementProgram _ => true
  | _ => false

def isStatement : NodeKind → Bool
  | declaration .. | assignment .. | function .. | ifThen .. | ifThenElse .. | loop .. | print _
  | callStatement _ | returning _ | brokenStatement _ => true
  | _ => false

def isExpression (kind : NodeKind) : Bool :=
  !kind.isProgram && !kind.isStatement

end NodeKind

/-- A node: what it is, where it stands, what it belongs to, what is wrong with it and, once that is
known, its type. -/
structure Node where
  kind : NodeKind
  span : Span
  parent : Option NodeId
  errors : List Diagnostic
  ty : Option Ty
deriving DecidableEq, Inhabited

/-- The nodes of a tree, children before parents, and the root of the tree. -/
structure Arena where
  nodes : Array Node
  root : Option NodeId
deriving DecidableEq

namespace Arena

def empty : Arena := ⟨#[], none⟩

def size (arena : Arena) : Nat := arena.nodes.size

def node (arena : Arena) (id : NodeId) : Except Fault Node :=
  match arena.nodes[id]? with
  | some node => .ok node
  | none => .error (.outOfRange arena.size id)

/-- Makes `parent` the parent of the node at `child`, if that has none. -/
def attach (parent : NodeId) (nodes : Array Node) (child : NodeId) : Except Fault (Array Node) :=
  match nodes[child]? with
  | none => .error (.outOfRange nodes.size child)
  | some node =>
    if node.parent.isSome then .error (.attachedTwice child)
    else .ok (nodes.modify child fun node => { node with parent := some parent })

/-- Appends a node above nodes of the arena and gives its place. -/
def push (arena : Arena) (kind : NodeKind) (span : Span) : Except Fault (NodeId × Arena) := do
  let nodes ← kind.children.foldlM (attach arena.size) arena.nodes
  return (arena.size, { arena with nodes := nodes.push ⟨kind, span, none, [], none⟩ })

/-- Appends a node above orphans of the arena and gives its place. -/
def place (kind : NodeKind) (mark : Mark) (arena : Arena) : NodeId × Arena :=
  let nodes := kind.children.foldl
    (fun nodes child => nodes.modify child fun node => { node with parent := some arena.size })
    arena.nodes
  (arena.size, { arena with nodes := nodes.push ⟨kind, mark.span, none, mark.errors, none⟩ })

/-- Drops the nodes from place `size` on, and the root with them. -/
def truncate (arena : Arena) (size : Nat) : Arena :=
  { nodes := arena.nodes.take size
    root := arena.root.filter (· < size) }

def setRoot (arena : Arena) (id : NodeId) : Arena :=
  { arena with root := some id }

/-- Gives the node at a place its type, which it may not have already. -/
def setTy (arena : Arena) (id : NodeId) (ty : Ty) : Except Fault Arena := do
  let node ← arena.node id
  if node.ty.isSome then throw (.typeSetTwice id)
  return { arena with nodes := arena.nodes.modify id fun node => { node with ty := some ty } }

/-- The type of the node at a place, which it has to have. -/
def ty (arena : Arena) (id : NodeId) : Except Fault Ty := do
  match (← arena.node id).ty with
  | some ty => return ty
  | none => throw (.typeNotSet id)

def report (arena : Arena) (id : NodeId) (diagnostic : Diagnostic) : Except Fault Arena := do
  let _ ← arena.node id
  let add (node : Node) : Node := { node with errors := node.errors ++ [diagnostic] }
  return { arena with nodes := arena.nodes.modify id add }

def isTopLevel (arena : Arena) (id : NodeId) : Except Fault Bool := do
  match (← arena.node id).parent with
  | none => return false
  | some parent => return (← arena.node parent).kind.isProgram

/-- The first function at or above the node at `id?`, within `bound` steps. -/
def functionFrom (arena : Arena) : (bound : Nat) → (id? : Option NodeId) →
    Except Fault (Option NodeId)
  | _, none => pure none
  | 0, some _ => pure none
  | bound + 1, some id => do
    let node ← arena.node id
    match node.kind with
    | .function .. => return some id
    | _ => functionFrom arena bound node.parent

/-- The innermost function around a node.  A parent comes after its children, so there are no more
steps up than nodes. -/
def enclosingFunction (arena : Arena) (id : NodeId) : Except Fault (Option NodeId) := do
  arena.functionFrom (arena.size + 1) (← arena.node id).parent

def hasProgram (arena : Arena) : Except Fault Bool := do
  match arena.root with
  | none => return false
  | some root => return (← arena.node root).kind.isProgram

theorem foldlM_attach {parent : NodeId} {nodes result : Array Node} {children : List NodeId}
    (h : children.foldlM (attach parent) nodes = .ok result) :
    result = children.foldl
      (fun nodes child => nodes.modify child fun node => { node with parent := some parent })
      nodes := by
  induction children generalizing nodes with
  | nil => exact (Except.ok.inj h).symm
  | cons child rest ih =>
    rw [List.foldlM_cons] at h
    unfold attach at h
    split at h
    · exact absurd h (by simp [bind, Except.bind])
    · split at h
      · exact absurd h (by simp [bind, Except.bind])
      · exact ih h

theorem push_eq_place {arena result : Arena} {kind : NodeKind} {span : Span} {id : NodeId}
    (h : arena.push kind span = .ok (id, result)) :
    arena.place kind ⟨span, []⟩ = (id, result) := by
  unfold push at h
  cases hn : kind.children.foldlM (attach arena.size) arena.nodes with
  | error fault => simp [hn, bind, Except.bind] at h
  | ok nodes =>
    simp only [hn, bind, Except.bind, pure, Except.pure, Except.ok.injEq] at h
    rw [← h, foldlM_attach hn]
    rfl

end Arena
end CatScript
