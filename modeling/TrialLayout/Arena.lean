import TrialLayout.Arena.Node

/-!
# Arenas

An arena holds the nodes of trees in the order in which they were allocated, and the lists
inside them in one storage for each kind of list. Nothing is ever removed or changed, so a
handle goes on addressing what it was handed out for.

An empty list takes no room and has the range `0..0`. A list may have at most
`maxListLength` items; a longer one is refused, but only after its items have been stored.
-/

namespace TrialLayout

/-- Nodes and lists in order of allocation. -/
structure Arena where
  exprs : Array ExprNode := #[]
  types : Array TypeNode := #[]
  exprLists : Array ExprId := #[]
  typeLists : Array TypeId := #[]
  nameLists : Array Name := #[]
  decls : Array DeclNode := #[]
  stmts : Array StmtNode := #[]
  alts : Array AltNode := #[]
  branches : Array BranchNode := #[]
  fields : Array FieldNode := #[]
deriving DecidableEq, Repr, Inhabited

/-- The largest number of items in one list. -/
def maxListLength : Nat := 65535

/-- A list was too long for a range. -/
structure ListTooLong where
  pool : Pool
  length : Nat
deriving DecidableEq, Repr

namespace ListTooLong

/-- The text shown for a refused list. -/
def message (e : ListTooLong) : String :=
  e.pool.noun ++ " too long: " ++ e.length.repr ++ " exceeds u16::MAX"

end ListTooLong

/-- A handle that lies outside the arena, or a node that contains itself. -/
inductive ReadError where
  | outOfBounds
  | cyclic
deriving DecidableEq, Repr

namespace Arena

/-- An arena without nodes. -/
def empty : Arena := {}

/-! ## Storages -/

/-- The nodes of one kind. -/
def nodes (a : Arena) : (kind : NodeKind) → Array kind.Node
  | .expr => a.exprs
  | .type => a.types

/-- The storage of one kind of list. -/
def pool (a : Arena) : (k : Pool) → Array k.Item
  | .exprs => a.exprLists
  | .types => a.typeLists
  | .names => a.nameLists
  | .decls => a.decls
  | .stmts => a.stmts
  | .alts => a.alts
  | .branches => a.branches
  | .fields => a.fields

/-- Adds a node after those of its kind. -/
def pushNode (a : Arena) : (kind : NodeKind) → kind.Node → Arena
  | .expr, node => { a with exprs := a.exprs.push node }
  | .type, node => { a with types := a.types.push node }

/-- Adds items after those of a storage. -/
def append (a : Arena) : (k : Pool) → List k.Item → Arena
  | .exprs, items => { a with exprLists := a.exprLists.appendList items }
  | .types, items => { a with typeLists := a.typeLists.appendList items }
  | .names, items => { a with nameLists := a.nameLists.appendList items }
  | .decls, items => { a with decls := a.decls.appendList items }
  | .stmts, items => { a with stmts := a.stmts.appendList items }
  | .alts, items => { a with alts := a.alts.appendList items }
  | .branches, items => { a with branches := a.branches.appendList items }
  | .fields, items => { a with fields := a.fields.appendList items }

theorem nodes_pushNode_self (a : Arena) (kind : NodeKind) (node : kind.Node) :
    (a.pushNode kind node).nodes kind = (a.nodes kind).push node := by
  cases kind <;> rfl

theorem nodes_pushNode_of_ne (a : Arena) {kind other : NodeKind} (node : kind.Node)
    (h : other ≠ kind) : (a.pushNode kind node).nodes other = a.nodes other := by
  cases kind <;> cases other <;> try rfl
  all_goals exact absurd rfl h

theorem pool_pushNode (a : Arena) (kind : NodeKind) (node : kind.Node) (k : Pool) :
    (a.pushNode kind node).pool k = a.pool k := by
  cases k <;> cases kind <;> rfl

theorem pool_append_self (a : Arena) (k : Pool) (items : List k.Item) :
    (a.append k items).pool k = a.pool k ++ items := by
  cases k <;> rfl

theorem pool_append_of_ne (a : Arena) {k other : Pool} (items : List k.Item) (h : other ≠ k) :
    (a.append k items).pool other = a.pool other := by
  cases k <;> cases other <;> try rfl
  all_goals exact absurd rfl h

theorem nodes_append (a : Arena) (k : Pool) (items : List k.Item) (kind : NodeKind) :
    (a.append k items).nodes kind = a.nodes kind := by
  cases k <;> cases kind <;> rfl

/-! ## Allocation -/

/-- Allocates a node. -/
def alloc (a : Arena) (kind : NodeKind) (node : kind.Node) : Id kind × Arena :=
  (⟨(a.nodes kind).size⟩, a.pushNode kind node)

/-- Allocates a list. -/
def allocList (a : Arena) (k : Pool) (items : List k.Item) :
    Except ListTooLong (Span k) × Arena :=
  if items.isEmpty then (.ok .empty, a)
  else
    let start := (a.pool k).size
    let length := items.length
    (if length ≤ maxListLength then .ok ⟨start, length⟩ else .error ⟨k, length⟩,
      a.append k items)

/-! ## Reading -/

/-- The node of a number. -/
def get (a : Arena) {kind : NodeKind} (id : Id kind) : Except ReadError kind.Node :=
  match (a.nodes kind)[id.raw]? with
  | some node => .ok node
  | none => .error .outOfBounds

/-- The items of a range, which has to end inside its storage. -/
def slice (a : Arena) {k : Pool} (s : Span k) : Except ReadError (List k.Item) :=
  if s.stop ≤ (a.pool k).size then .ok ((a.pool k).extract s.start s.stop).toList
  else .error .outOfBounds

/-- The number of expressions. -/
def size (a : Arena) : Nat := a.exprs.size

end Arena

/-- Trees held as nodes, together with the names that occur in them. -/
structure Forest where
  arena : Arena := {}
  names : Interner := .empty
deriving DecidableEq, Repr, Inhabited

end TrialLayout
