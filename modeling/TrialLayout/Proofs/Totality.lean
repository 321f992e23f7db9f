import TrialLayout.Proofs.Reading
import Mathlib.Data.Finset.Card
import Mathlib.Logic.Relation

/-!
# Totality of reading

A node refers to its children by number and to its lists by range, and the items of a list
refer on in the same way. An arena in which every reference is in bounds, and in which
following references never leads back, holds a tree behind each of its references. Here it is
shown that reading finds that tree: the number of layers that a reader may descend, one for
each node and one more, is always enough (`readExpr_succeeds`, `readModule_succeeds`).

The measure is the number of nodes of the same kind below a node. It drops along every path of
references, because a node is not below itself.
-/

namespace TrialLayout

open Relation

/-! ## Success -/

section Success

variable {ε α β : Type}

/-- There is a result. -/
def Succeeds (x : Except ε α) : Prop := ∃ a, x = .ok a

theorem Succeeds.bind {x : Except ε α} {g : α → Except ε β} (first : Succeeds x)
    (next : ∀ a, x = .ok a → Succeeds (g a)) : Succeeds (x >>= g) := by
  obtain ⟨a, found⟩ := first
  obtain ⟨b, found'⟩ := next a found
  exact ⟨b, bind_eq_ok.mpr ⟨a, found, found'⟩⟩

theorem Succeeds.mapM {g : α → Except ε β} {xs : List α} (each : ∀ x ∈ xs, Succeeds (g x)) :
    Succeeds (xs.mapM g) := by
  induction xs with
  | nil => exact ⟨[], rfl⟩
  | cons x rest ih =>
    rw [List.forall_mem_cons] at each
    rw [List.mapM_cons]
    exact .bind each.1 fun _ _ => .bind (ih each.2) fun _ _ => ⟨_, rfl⟩

end Success

/-! ## References -/

/-- A reference: the number of a node, or the range of a list. -/
inductive Ref where
  | node (kind : NodeKind) (id : Id kind)
  | list (pool : Pool) (s : Span pool)
deriving DecidableEq

instance {kind : NodeKind} : CoeOut (Id kind) Ref := ⟨.node kind⟩

instance {pool : Pool} : CoeOut (Span pool) Ref := ⟨.list pool⟩

def TypeNode.refs : TypeNode → List Ref
  | .con _ | .var _ => []
  | .app func arg => [func, arg]
  | .arrow arg result => [arg, result]
  | .tuple _ items => [items]
  | .list element => [element]
  | .paren inner => [inner]
  | .quantified binders context body => [binders, context, body]

def ExprNode.refs : ExprNode → List Ref
  | .var _ | .con _ | .int _ | .frac _ | .char _ | .string _ | .varQuote _ | .typeQuote _ => []
  | .wildcard => []
  | .app func arg => [func, arg]
  | .binary left _ right => [left, right]
  | .neg operand => [operand]
  | .leftSection operand _ => [operand]
  | .rightSection _ operand => [operand]
  | .lambda params body => [params, body]
  | .tuple _ items => [items]
  | .list items => [items]
  | .paren inner => [inner]
  | .cond condition yes no => [condition, yes, no]
  | .caseOf scrutinee alts => [scrutinee, alts]
  | .block stmts => [stmts]
  | .letIn decls body => [decls, body]
  | .record _ fields => [fields]
  | .update old fields => [old, fields]
  | .annot expr type => [expr, type]

def BranchNode.refs (b : BranchNode) : List Ref := [b.guards, b.body]

def RhsNode.refs : RhsNode → List Ref
  | .plain body => [body]
  | .guarded branches => [branches]

def AltNode.refs (a : AltNode) : List Ref := a.pattern :: a.rhs.refs

def StmtNode.refs : StmtNode → List Ref
  | .bind pattern e => [pattern, e]
  | .expr e => [e]
  | .decls ds => [ds]

def DeclNode.refs : DeclNode → List Ref
  | .signature names type => [names, type]
  | .function _ params rhs => params :: rhs.refs
  | .pattern p rhs => p :: rhs.refs

/-- The references of a node. -/
def NodeKind.refs : (kind : NodeKind) → kind.Node → List Ref
  | expr, node => ExprNode.refs node
  | type, node => TypeNode.refs node

/-- The references of an item of a list. -/
def Pool.refs : (pool : Pool) → pool.Item → List Ref
  | exprs, id => [Ref.node .expr id]
  | types, id => [Ref.node .type id]
  | names, _ => []
  | decls, d => DeclNode.refs d
  | stmts, s => StmtNode.refs s
  | alts, a => AltNode.refs a
  | branches, b => BranchNode.refs b
  | fields, field => [Ref.node .expr (FieldNode.value field)]

/-- The rank of a reference, by the node or the storage that it addresses. -/
def Ref.rank (node : NodeKind → Nat → Nat) (list : Pool → Nat) : Ref → Nat
  | .node kind id => node kind id.raw
  | .list pool _ => list pool

namespace Arena

/-- A reference is in bounds: what it addresses is there. -/
def Holds (a : Arena) : Ref → Prop
  | .node kind id => id.raw < (a.nodes kind).size
  | .list pool s => s.stop ≤ (a.pool pool).size

instance (a : Arena) : (r : Ref) → Decidable (a.Holds r)
  | .node _ _ => inferInstanceAs (Decidable (_ < _))
  | .list _ _ => inferInstanceAs (Decidable (_ ≤ _))

/-- Every reference in the arena is in bounds. -/
structure InBounds (a : Arena) : Prop where
  nodes : ∀ kind, ∀ node ∈ a.nodes kind, ∀ r ∈ kind.refs node, a.Holds r
  items : ∀ pool, ∀ item ∈ a.pool pool, ∀ r ∈ pool.refs item, a.Holds r

/-- What a reference addresses has the reference `r`. -/
inductive Leads (a : Arena) : Ref → Ref → Prop
  | node {kind : NodeKind} {id : Id kind} {node : kind.Node} {r : Ref} :
      a.get id = .ok node → r ∈ kind.refs node → Leads a id r
  | item {pool : Pool} {s : Span pool} {items : List pool.Item} {item : pool.Item} {r : Ref} :
      a.slice s = .ok items → item ∈ items → r ∈ pool.refs item → Leads a s r

/-- Following references never leads back. -/
def Acyclic (a : Arena) : Prop := ∀ r, ¬ TransGen a.Leads r r

variable {a : Arena}

theorem get_of_holds {kind : NodeKind} {id : Id kind} (h : a.Holds id) :
    ∃ node, a.get id = .ok node := by
  refine ⟨(a.nodes kind)[id.raw], ?_⟩
  rw [get, Array.getElem?_eq_getElem h]

theorem slice_of_holds {pool : Pool} {s : Span pool} (h : a.Holds s) :
    ∃ items, a.slice s = .ok items :=
  ⟨_, if_pos h⟩

theorem getElem?_of_get {kind : NodeKind} {id : Id kind} {node : kind.Node}
    (done : a.get id = .ok node) : (a.nodes kind)[id.raw]? = some node := by
  unfold get at done
  split at done
  next found =>
    cases done
    exact found
  next => cases done

theorem mem_of_slice {pool : Pool} {s : Span pool} {items : List pool.Item}
    (done : a.slice s = .ok items) {item : pool.Item} (mem : item ∈ items) :
    item ∈ a.pool pool := by
  unfold slice at done
  split at done
  next =>
    cases done
    rw [Array.toList_extract, List.extract_eq_take_drop] at mem
    exact Array.mem_toList_iff.mp (List.mem_of_mem_drop (List.mem_of_mem_take mem))
  next => cases done

theorem InBounds.holds (bounds : a.InBounds) {r r' : Ref} (leads : a.Leads r r') :
    a.Holds r' := by
  cases leads with
  | node found mem => exact bounds.nodes _ _ (Array.mem_of_getElem? (getElem?_of_get found)) _ mem
  | item found mem mem' => exact bounds.items _ _ (mem_of_slice found mem) _ mem'

theorem InBounds.holds_of_reaches (bounds : a.InBounds) {r r' : Ref} (h : a.Holds r)
    (path : ReflTransGen a.Leads r r') : a.Holds r' := by
  cases path with
  | refl => exact h
  | tail _ leads => exact bounds.holds leads

/-- An arena is acyclic if its nodes and its storages have ranks that drop along every reference. -/
theorem acyclic_of_rank (node : NodeKind → Nat → Nat) (list : Pool → Nat)
    (nodes : ∀ kind, ∀ i : Fin (a.nodes kind).size, ∀ r ∈ kind.refs (a.nodes kind)[i],
      r.rank node list < node kind i)
    (items : ∀ pool, ∀ item ∈ a.pool pool, ∀ r ∈ pool.refs item,
      r.rank node list < list pool) : a.Acyclic := by
  have drops : ∀ {r r'}, a.Leads r r' → r'.rank node list < r.rank node list := by
    intro r r' leads
    cases leads with
    | @node kind id _ _ found mem =>
      obtain ⟨inside, rfl⟩ := Array.getElem?_eq_some_iff.mp (getElem?_of_get found)
      exact nodes kind ⟨id.raw, inside⟩ r' mem
    | @item pool _ _ item _ found mem mem' => exact items pool item (mem_of_slice found mem) r' mem'
  have lower : ∀ {r r'}, TransGen a.Leads r r' → r'.rank node list < r.rank node list := by
    intro r r' path
    induction path with
    | single leads => exact drops leads
    | tail _ leads ih => exact Nat.lt_trans (drops leads) ih
  exact fun r cycle => Nat.lt_irrefl _ (lower cycle)

/-! ## The measure -/

open Classical in
/-- The nodes of the same kind below a node. -/
noncomputable def below (a : Arena) {kind : NodeKind} (id : Id kind) : Finset Nat :=
  (Finset.range (a.nodes kind).size).filter fun i => TransGen a.Leads id (Ref.node kind ⟨i⟩)

theorem mem_below {kind : NodeKind} {id : Id kind} {i : Nat} :
    i ∈ a.below id ↔ i < (a.nodes kind).size ∧ TransGen a.Leads id (Ref.node kind ⟨i⟩) := by
  simp only [below, Finset.mem_filter, Finset.mem_range]

open Classical in
theorem card_below_le {kind : NodeKind} (id : Id kind) :
    (a.below id).card ≤ (a.nodes kind).size :=
  (Finset.card_filter_le _ _).trans (Finset.card_range _).le

/-- There are fewer nodes below a node further down. -/
theorem card_below_lt (acyclic : a.Acyclic) {kind : NodeKind} {id id' : Id kind}
    (path : TransGen a.Leads id id') (h : a.Holds id') :
    (a.below id').card < (a.below id).card := by
  refine Finset.card_lt_card ((Finset.ssubset_iff_of_subset ?_).mpr ⟨id'.raw, ?_, ?_⟩)
  · intro i mem
    rw [mem_below] at mem ⊢
    exact ⟨mem.1, path.trans mem.2⟩
  · exact mem_below.mpr ⟨h, path⟩
  · intro mem
    exact acyclic _ (mem_below.mp mem).2

/-! ## Reading what is ready -/

/-- From `r` on every reference is in bounds and satisfies `P`. -/
def Ready (a : Arena) (P : Ref → Prop) (r : Ref) : Prop :=
  ∀ r', ReflTransGen a.Leads r r' → a.Holds r' ∧ P r'

namespace Ready

variable {P : Ref → Prop}

theorem here {r : Ref} (ready : a.Ready P r) : P r := (ready r .refl).2

theorem next {r r' : Ref} (ready : a.Ready P r) (leads : a.Leads r r') : a.Ready P r' :=
  fun r'' path => ready r'' (path.head leads)

variable {pool : Pool} {s : Span pool}

theorem slice (ready : a.Ready P s) : Succeeds (a.slice s) := slice_of_holds (ready s .refl).1

/-- The items of a list that is ready are ready. -/
theorem mapM {α : Type} {g : pool.Item → Except ReadError α} (ready : a.Ready P s)
    (each : ∀ item, (∀ r ∈ pool.refs item, a.Ready P r) → Succeeds (g item))
    {items : List pool.Item} (found : a.slice s = .ok items) : Succeeds (items.mapM g) :=
  .mapM fun item mem => each item fun _ mem' => ready.next (.item found mem mem')

end Ready

end Arena

namespace Forest

variable {f : Forest}

theorem sliceUnlessEmpty_of_holds {pool : Pool} {s : Span pool} (h : f.arena.Holds s) :
    f.sliceUnlessEmpty s = f.arena.slice s := by
  unfold sliceUnlessEmpty
  split
  next empty =>
    have len : s.len = 0 := beq_iff_eq.mp empty
    have h : s.stop ≤ (f.arena.pool pool).size := h
    rw [Arena.slice, if_pos h, Span.stop, len]
    simp
  next => rfl

/-! ## Types -/

/-- `read` succeeds on the types among the references. -/
def TypeReadable (read : TypeId → Except ReadError Ty) : Ref → Prop
  | .node .type id => Succeeds (read id)
  | _ => True

theorem readTypeNode_succeeds {read : TypeId → Except ReadError Ty} {node : TypeNode}
    (ready : ∀ r ∈ node.refs, f.arena.Ready (TypeReadable read) r) :
    Succeeds (f.readTypeNode read node) := by
  have item : ∀ item : TypeId, (∀ r ∈ Pool.types.refs item,
      f.arena.Ready (TypeReadable read) r) → Succeeds (read item) :=
    fun item ready => (ready item (by simp [Pool.refs])).here
  cases node with
  | con name | var name => exact ⟨_, rfl⟩
  | app func arg | arrow arg result =>
    simp only [TypeNode.refs, List.forall_mem_cons] at ready
    exact .bind ready.1.here fun _ _ => .bind ready.2.1.here fun _ _ => ⟨_, rfl⟩
  | list element | paren inner =>
    simp only [TypeNode.refs, List.forall_mem_cons] at ready
    exact .bind ready.1.here fun _ _ => ⟨_, rfl⟩
  | tuple boxity items =>
    simp only [TypeNode.refs, List.forall_mem_cons] at ready
    exact .bind ready.1.slice fun _ found => .bind (ready.1.mapM item found) fun _ _ => ⟨_, rfl⟩
  | quantified binders context body =>
    simp only [TypeNode.refs, List.forall_mem_cons] at ready
    obtain ⟨binders, context, body, -⟩ := ready
    simp only [readTypeNode]
    rw [sliceUnlessEmpty_of_holds (binders _ .refl).1,
      sliceUnlessEmpty_of_holds (context _ .refl).1]
    exact .bind binders.slice fun _ _ => .bind context.slice fun _ found =>
      .bind (context.mapM item found) fun _ _ => .bind body.here fun _ _ => ⟨_, rfl⟩

theorem readTypeTo_succeeds (bounds : f.arena.InBounds) (acyclic : f.arena.Acyclic) {depth : Nat}
    {id : TypeId} (h : f.arena.Holds id) (enough : (f.arena.below id).card < depth) :
    Succeeds (f.readTypeTo depth id) := by
  induction depth generalizing id with
  | zero => cases enough
  | succ depth ih =>
    refine .bind (Arena.get_of_holds h) fun node found => readTypeNode_succeeds ?_
    intro r mem r' path
    have leads : f.arena.Leads id r := .node found mem
    have holds := bounds.holds_of_reaches (bounds.holds leads) path
    refine ⟨holds, ?_⟩
    match r' with
    | .node .type id' =>
      have fewer := Arena.card_below_lt acyclic (.head' leads path) holds
      exact ih holds (Nat.lt_of_lt_of_le fewer (Nat.le_of_lt_succ enough))
    | .node .expr _ | .list _ _ => trivial

/-- Every type can be read. -/
theorem readType_succeeds (bounds : f.arena.InBounds) (acyclic : f.arena.Acyclic) {id : TypeId}
    (h : f.arena.Holds id) : Succeeds (f.readType id) :=
  readTypeTo_succeeds bounds acyclic h (Nat.lt_succ_of_le (Arena.card_below_le id))

/-! ## Expressions -/

/-- Types can be read, and `read` succeeds on the expressions among the references. -/
def Readable (f : Forest) (read : ExprId → Except ReadError Expr) : Ref → Prop
  | .node .type id => Succeeds (f.readType id)
  | .node .expr id => Succeeds (read id)
  | .list _ _ => True

section Layers

variable {read : ExprId → Except ReadError Expr}

theorem readItem_succeeds {id : ExprId}
    (ready : ∀ r ∈ Pool.exprs.refs id, f.arena.Ready (f.Readable read) r) :
    Succeeds (read id) :=
  (ready _ List.mem_cons_self).here

theorem readExprs_succeeds {s : Span .exprs} (ready : f.arena.Ready (f.Readable read) s) :
    Succeeds (f.readExprs read s) :=
  .bind ready.slice fun _ found => ready.mapM (fun _ => readItem_succeeds) found

theorem readBranch_succeeds {b : BranchNode}
    (ready : ∀ r ∈ b.refs, f.arena.Ready (f.Readable read) r) :
    Succeeds (f.readBranch read b) := by
  simp only [BranchNode.refs, List.forall_mem_cons] at ready
  exact .bind (readExprs_succeeds ready.1) fun _ _ => .bind ready.2.1.here fun _ _ => ⟨_, rfl⟩

theorem readRhs_succeeds {rhs : RhsNode}
    (ready : ∀ r ∈ rhs.refs, f.arena.Ready (f.Readable read) r) :
    Succeeds (f.readRhs read rhs) := by
  cases rhs with
  | plain body =>
    simp only [RhsNode.refs, List.forall_mem_cons] at ready
    exact .bind ready.1.here fun _ _ => ⟨_, rfl⟩
  | guarded branches =>
    simp only [RhsNode.refs, List.forall_mem_cons] at ready
    exact .bind ready.1.slice fun _ found =>
      .bind (ready.1.mapM (fun _ => readBranch_succeeds) found) fun _ _ => ⟨_, rfl⟩

theorem readAlt_succeeds {a : AltNode}
    (ready : ∀ r ∈ a.refs, f.arena.Ready (f.Readable read) r) :
    Succeeds (f.readAlt read a) := by
  rw [AltNode.refs, List.forall_mem_cons] at ready
  exact .bind ready.1.here fun _ _ => .bind (readRhs_succeeds ready.2) fun _ _ => ⟨_, rfl⟩

theorem readDeclNode_succeeds {d : DeclNode}
    (ready : ∀ r ∈ d.refs, f.arena.Ready (f.Readable read) r) :
    Succeeds (f.readDeclNode read d) := by
  cases d with
  | signature names type =>
    simp only [DeclNode.refs, List.forall_mem_cons] at ready
    exact .bind ready.1.slice fun _ _ => .bind ready.2.1.here fun _ _ => ⟨_, rfl⟩
  | function name params rhs =>
    rw [DeclNode.refs, List.forall_mem_cons] at ready
    exact .bind (readExprs_succeeds ready.1) fun _ _ =>
      .bind (readRhs_succeeds ready.2) fun _ _ => ⟨_, rfl⟩
  | pattern pattern rhs =>
    rw [DeclNode.refs, List.forall_mem_cons] at ready
    exact .bind ready.1.here fun _ _ => .bind (readRhs_succeeds ready.2) fun _ _ => ⟨_, rfl⟩

theorem readDecls_succeeds {s : Span .decls} (ready : f.arena.Ready (f.Readable read) s) :
    Succeeds (f.readDecls read s) :=
  .bind ready.slice fun _ found => ready.mapM (fun _ => readDeclNode_succeeds) found

theorem readStmt_succeeds {stmt : StmtNode}
    (ready : ∀ r ∈ stmt.refs, f.arena.Ready (f.Readable read) r) :
    Succeeds (f.readStmt read stmt) := by
  cases stmt with
  | bind pattern expr =>
    simp only [StmtNode.refs, List.forall_mem_cons] at ready
    exact .bind ready.1.here fun _ _ => .bind ready.2.1.here fun _ _ => ⟨_, rfl⟩
  | expr expr =>
    simp only [StmtNode.refs, List.forall_mem_cons] at ready
    exact .bind ready.1.here fun _ _ => ⟨_, rfl⟩
  | decls decls =>
    simp only [StmtNode.refs, List.forall_mem_cons] at ready
    exact .bind (readDecls_succeeds ready.1) fun _ _ => ⟨_, rfl⟩

theorem readField_succeeds {field : FieldNode}
    (ready : ∀ r ∈ Pool.fields.refs field, f.arena.Ready (f.Readable read) r) :
    Succeeds (f.readField read field) :=
  .bind (ready _ List.mem_cons_self).here fun _ _ => ⟨_, rfl⟩

theorem readFields_succeeds {s : Span .fields} (ready : f.arena.Ready (f.Readable read) s) :
    Succeeds (f.readFields read s) :=
  .bind ready.slice fun _ found => ready.mapM (fun _ => readField_succeeds) found

theorem readExprNode_succeeds {node : ExprNode}
    (ready : ∀ r ∈ node.refs, f.arena.Ready (f.Readable read) r) :
    Succeeds (f.readExprNode read node) := by
  cases node with
  | var _ | con _ | int _ | frac _ | char _ | string _ | varQuote _ | typeQuote _ | wildcard =>
    exact ⟨_, rfl⟩
  | neg operand | leftSection operand op | rightSection op operand | paren operand =>
    simp only [ExprNode.refs, List.forall_mem_cons] at ready
    exact .bind ready.1.here fun _ _ => ⟨_, rfl⟩
  | app first second | binary first op second | annot first second =>
    simp only [ExprNode.refs, List.forall_mem_cons] at ready
    exact .bind ready.1.here fun _ _ => .bind ready.2.1.here fun _ _ => ⟨_, rfl⟩
  | cond condition yes no =>
    simp only [ExprNode.refs, List.forall_mem_cons] at ready
    exact .bind ready.1.here fun _ _ => .bind ready.2.1.here fun _ _ =>
      .bind ready.2.2.1.here fun _ _ => ⟨_, rfl⟩
  | lambda params body =>
    simp only [ExprNode.refs, List.forall_mem_cons] at ready
    exact .bind (readExprs_succeeds ready.1) fun _ _ => .bind ready.2.1.here fun _ _ => ⟨_, rfl⟩
  | tuple boxity items =>
    simp only [ExprNode.refs, List.forall_mem_cons] at ready
    exact .bind (readExprs_succeeds ready.1) fun _ _ => ⟨_, rfl⟩
  | list items =>
    simp only [ExprNode.refs, List.forall_mem_cons] at ready
    simp only [readExprNode, sliceUnlessEmpty_of_holds (ready.1 _ .refl).1]
    exact .bind ready.1.slice fun _ found =>
      .bind (ready.1.mapM (fun _ => readItem_succeeds) found) fun _ _ => ⟨_, rfl⟩
  | caseOf scrutinee alts =>
    simp only [ExprNode.refs, List.forall_mem_cons] at ready
    exact .bind ready.1.here fun _ _ => .bind ready.2.1.slice fun _ found =>
      .bind (ready.2.1.mapM (fun _ => readAlt_succeeds) found) fun _ _ => ⟨_, rfl⟩
  | block stmts =>
    simp only [ExprNode.refs, List.forall_mem_cons] at ready
    exact .bind ready.1.slice fun _ found =>
      .bind (ready.1.mapM (fun _ => readStmt_succeeds) found) fun _ _ => ⟨_, rfl⟩
  | letIn decls body =>
    simp only [ExprNode.refs, List.forall_mem_cons] at ready
    exact .bind (readDecls_succeeds ready.1) fun _ _ => .bind ready.2.1.here fun _ _ => ⟨_, rfl⟩
  | record con fields =>
    simp only [ExprNode.refs, List.forall_mem_cons] at ready
    exact .bind (readFields_succeeds ready.1) fun _ _ => ⟨_, rfl⟩
  | update record fields =>
    simp only [ExprNode.refs, List.forall_mem_cons] at ready
    exact .bind ready.1.here fun _ _ => .bind (readFields_succeeds ready.2.1) fun _ _ => ⟨_, rfl⟩

end Layers

theorem readExprTo_succeeds (bounds : f.arena.InBounds) (acyclic : f.arena.Acyclic) {depth : Nat}
    {id : ExprId} (h : f.arena.Holds id) (enough : (f.arena.below id).card < depth) :
    Succeeds (f.readExprTo depth id) := by
  induction depth generalizing id with
  | zero => cases enough
  | succ depth ih =>
    refine .bind (Arena.get_of_holds h) fun node found => readExprNode_succeeds ?_
    intro r mem r' path
    have leads : f.arena.Leads id r := .node found mem
    have holds := bounds.holds_of_reaches (bounds.holds leads) path
    refine ⟨holds, ?_⟩
    match r' with
    | .node .expr id' =>
      -- the path may go through any number of lists, but it stays below `id`
      have fewer := Arena.card_below_lt acyclic (.head' leads path) holds
      exact ih holds (Nat.lt_of_lt_of_le fewer (Nat.le_of_lt_succ enough))
    | .node .type id' => exact readType_succeeds bounds acyclic holds
    | .list _ _ => trivial

/-- Every expression can be read. -/
theorem readExpr_succeeds (bounds : f.arena.InBounds) (acyclic : f.arena.Acyclic) {id : ExprId}
    (h : f.arena.Holds id) : Succeeds (f.readExpr id) :=
  readExprTo_succeeds bounds acyclic h (Nat.lt_succ_of_le (Arena.card_below_le id))

theorem ready_of_holds (bounds : f.arena.InBounds) (acyclic : f.arena.Acyclic) {r : Ref}
    (h : f.arena.Holds r) : f.arena.Ready (f.Readable f.readExpr) r := by
  intro r' path
  have holds := bounds.holds_of_reaches h path
  refine ⟨holds, ?_⟩
  match r' with
  | .node .expr id => exact readExpr_succeeds bounds acyclic holds
  | .node .type id => exact readType_succeeds bounds acyclic holds
  | .list _ _ => trivial

/-- Every module can be read. -/
theorem readModule_succeeds (bounds : f.arena.InBounds) (acyclic : f.arena.Acyclic)
    {s : Span .decls} (h : f.arena.Holds s) : Succeeds (f.readModule s) :=
  readDecls_succeeds (ready_of_holds bounds acyclic h)

end Forest

end TrialLayout
