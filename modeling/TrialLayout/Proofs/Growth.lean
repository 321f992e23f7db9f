import TrialLayout.Build.Call
import TrialLayout.Proofs.Intact

/-!
# Growing forests

Nothing in a forest is ever removed or changed, so what is added leaves the trees that are there
as they are. `Forest.Grows` says that storages and names were only added to. Then a number that
could be read reads the same afterwards (`readTypeTo_extends`, `readExprTo_extends`), provided that
the names in the forest had been handed out: looking up a name that nobody has handed out gives
the empty text, and a later one may take its place.

A path of references that starts at something that was there stays among what was there
(`Arena.Grows.path`).
-/

namespace TrialLayout

open Relation

/-! ## Extended results -/

section Results

variable {ε α β : Type}

/-- Where `x` succeeds, `y` succeeds with the same result. -/
def Extends (x y : Except ε α) : Prop := ∀ a, x = .ok a → y = .ok a

theorem Extends.refl (x : Except ε α) : Extends x x := fun _ done => done

theorem Extends.bind {x y : Except ε α} {g h : α → Except ε β} (first : Extends x y)
    (next : ∀ a, x = .ok a → Extends (g a) (h a)) : Extends (x >>= g) (y >>= h) := by
  intro b done
  obtain ⟨a, found, done⟩ := bind_eq_ok.mp done
  exact bind_eq_ok.mpr ⟨a, first a found, next a found b done⟩

theorem Extends.map {x y : Except ε α} (extends' : Extends x y) (g : α → β) :
    Extends (x >>= fun a => pure (g a)) (y >>= fun a => pure (g a)) :=
  extends'.bind fun _ _ => .refl _

theorem Extends.mapM {g h : α → Except ε β} {xs : List α}
    (each : ∀ x ∈ xs, Extends (g x) (h x)) : Extends (xs.mapM g) (xs.mapM h) := by
  induction xs with
  | nil => exact .refl _
  | cons x rest ih =>
    rw [List.forall_mem_cons] at each
    rw [List.mapM_cons, List.mapM_cons]
    exact each.1.bind fun y _ => (ih each.2).map (y :: ·)

end Results

/-! ## Names -/

/-- The name was handed out. -/
def Interner.Knows (names : Interner) (n : Name) : Prop := n.raw < names.size

/-- The names that stand in a type. -/
def TypeNode.names : TypeNode → List Name
  | .con name | .var name => [name]
  | _ => []

/-- The names that stand in an expression. -/
def ExprNode.names : ExprNode → List Name
  | .var name | .con name | .frac name | .string name | .varQuote name | .typeQuote name => [name]
  | .binary _ op _ | .leftSection _ op | .rightSection op _ => [op.name]
  | .record name _ => [name]
  | _ => []

/-- The names that stand in a declaration. -/
def DeclNode.names : DeclNode → List Name
  | .function name _ _ => [name]
  | _ => []

/-- The names that stand in a node. -/
def NodeKind.names : (kind : NodeKind) → kind.Node → List Name
  | expr, node => ExprNode.names node
  | type, node => TypeNode.names node

/-- The names that stand in an item of a list. -/
def Pool.nameList : (pool : Pool) → pool.Item → List Name
  | names, name => [name]
  | decls, d => DeclNode.names d
  | fields, field => [FieldNode.name field]
  | _, _ => []

/-- Every name in the forest was handed out. -/
structure Forest.Named (f : Forest) : Prop where
  nodes : ∀ kind, ∀ node ∈ f.arena.nodes kind, ∀ n ∈ kind.names node, f.names.Knows n
  items : ∀ pool, ∀ item ∈ f.arena.pool pool, ∀ n ∈ pool.nameList item, f.names.Knows n

/-! ## Growth -/

/-- Nodes and items were only added. -/
structure Arena.Grows (a a' : Arena) : Prop where
  nodes : ∀ kind, ∃ more, a'.nodes kind = a.nodes kind ++ more
  pools : ∀ pool, ∃ more, a'.pool pool = a.pool pool ++ more

/-- Nodes, items and names were only added. -/
structure Forest.Grows (f f' : Forest) : Prop where
  arena : f.arena.Grows f'.arena
  names : ∃ more, f'.names.strings = f.names.strings ++ more

namespace Arena.Grows

variable {a a' a'' : Arena}

theorem refl (a : Arena) : a.Grows a :=
  ⟨fun _ => ⟨#[], Array.append_empty.symm⟩, fun _ => ⟨#[], Array.append_empty.symm⟩⟩

theorem trans (first : a.Grows a') (second : a'.Grows a'') : a.Grows a'' where
  nodes := by
    intro kind
    obtain ⟨more, grown⟩ := first.nodes kind
    obtain ⟨more', grown'⟩ := second.nodes kind
    exact ⟨more ++ more', by rw [grown', grown, Array.append_assoc]⟩
  pools := by
    intro pool
    obtain ⟨more, grown⟩ := first.pools pool
    obtain ⟨more', grown'⟩ := second.pools pool
    exact ⟨more ++ more', by rw [grown', grown, Array.append_assoc]⟩

theorem pushNode (a : Arena) (kind : NodeKind) (node : kind.Node) :
    a.Grows (a.pushNode kind node) where
  nodes := by
    intro other
    by_cases same : other = kind
    · subst same
      exact ⟨#[node], by rw [nodes_pushNode_self, Array.push_eq_append]⟩
    · exact ⟨#[], by rw [nodes_pushNode_of_ne a node same, Array.append_empty]⟩
  pools := fun pool => ⟨#[], by rw [pool_pushNode, Array.append_empty]⟩

theorem append (a : Arena) (k : Pool) (items : List k.Item) : a.Grows (a.append k items) where
  nodes := fun kind => ⟨#[], by rw [nodes_append, Array.append_empty]⟩
  pools := by
    intro pool
    by_cases same : pool = k
    · subst same
      exact ⟨items.toArray, by rw [pool_append_self]; exact Array.ext' (by simp)⟩
    · exact ⟨#[], by rw [pool_append_of_ne a items same, Array.append_empty]⟩

theorem nodes_size_le (grows : a.Grows a') (kind : NodeKind) :
    (a.nodes kind).size ≤ (a'.nodes kind).size := by
  obtain ⟨more, grown⟩ := grows.nodes kind
  rw [grown, Array.size_append]
  exact Nat.le_add_right _ _

theorem pool_size_le (grows : a.Grows a') (pool : Pool) :
    (a.pool pool).size ≤ (a'.pool pool).size := by
  obtain ⟨more, grown⟩ := grows.pools pool
  rw [grown, Array.size_append]
  exact Nat.le_add_right _ _

theorem holds (grows : a.Grows a') {r : Ref} (h : a.Holds r) : a'.Holds r := by
  cases r with
  | node kind id => exact Nat.lt_of_lt_of_le h (grows.nodes_size_le kind)
  | list pool s => exact Nat.le_trans h (grows.pool_size_le pool)

theorem get (grows : a.Grows a') {kind : NodeKind} (id : Id kind) :
    Extends (a.get id) (a'.get id) := by
  intro node found
  obtain ⟨more, grown⟩ := grows.nodes kind
  have inside := holds_of_get found
  rw [Arena.get, grown, Array.getElem?_append_left inside]
  exact found

theorem slice (grows : a.Grows a') {pool : Pool} (s : Span pool) :
    Extends (a.slice s) (a'.slice s) := by
  intro items found
  obtain ⟨more, grown⟩ := grows.pools pool
  have inside : s.stop ≤ (a.pool pool).size := holds_of_slice found
  have still : s.stop ≤ (a'.pool pool).size := Nat.le_trans inside (grows.pool_size_le pool)
  rw [Arena.slice, if_pos inside] at found
  rw [Arena.slice, if_pos still, grown, Array.extract_append, Nat.sub_eq_zero_of_le inside]
  simpa using found

/-- What was there leads where it led. -/
theorem leads (grows : a.Grows a') {r r' : Ref} (h : a.Holds r) (leads : a'.Leads r r') :
    a.Leads r r' := by
  cases leads with
  | node found mem =>
    obtain ⟨node, found'⟩ := get_of_holds h
    cases found.symm.trans (grows.get _ _ found')
    exact .node found' mem
  | item found mem mem' =>
    obtain ⟨items, found'⟩ := slice_of_holds h
    cases found.symm.trans (grows.slice _ _ found')
    exact .item found' mem mem'

/-- A path from something that was there stays among what was there. -/
theorem path (grows : a.Grows a') (bounds : a.InBounds) {r r' : Ref} (h : a.Holds r)
    (path : TransGen a'.Leads r r') : TransGen a.Leads r r' ∧ a.Holds r' := by
  induction path with
  | single step =>
    have old := grows.leads h step
    exact ⟨.single old, bounds.holds old⟩
  | tail _ step ih =>
    have old := grows.leads ih.2 step
    exact ⟨ih.1.tail old, bounds.holds old⟩

end Arena.Grows

namespace Forest

variable {f f' f'' : Forest}

namespace Grows

theorem refl (f : Forest) : f.Grows f := ⟨.refl _, #[], Array.append_empty.symm⟩

theorem trans (first : f.Grows f') (second : f'.Grows f'') : f.Grows f'' where
  arena := first.arena.trans second.arena
  names := by
    obtain ⟨more, grown⟩ := first.names
    obtain ⟨more', grown'⟩ := second.names
    exact ⟨more ++ more', by rw [grown', grown, Array.append_assoc]⟩

theorem knows (grows : f.Grows f') {n : Name} (known : f.names.Knows n) : f'.names.Knows n := by
  obtain ⟨more, grown⟩ := grows.names
  refine Nat.lt_of_lt_of_le known ?_
  calc f.names.strings.size
    _ ≤ f.names.strings.size + more.size := Nat.le_add_right _ _
    _ = f'.names.strings.size := by rw [grown, Array.size_append]

theorem lookup (grows : f.Grows f') {n : Name} (known : f.names.Knows n) :
    f'.names.lookup n = f.names.lookup n := by
  obtain ⟨more, grown⟩ := grows.names
  have inside : n.raw < f.names.strings.size := known
  calc f'.names.strings.getD n.raw ""
    _ = (f.names.strings ++ more).getD n.raw "" := by rw [grown]
    _ = f.names.strings.getD n.raw "" := by
      rw [Array.getD_eq_getD_getElem?, Array.getElem?_append_left inside,
        ← Array.getD_eq_getD_getElem?]

theorem readOp (grows : f.Grows f') {op : Op Name} (known : f.names.Knows op.name) :
    f'.readOp op = f.readOp op := by
  cases op with
  | symbol name | quoted name =>
    exact congrArg _ (grows.lookup known)

theorem lookupAll (grows : f.Grows f') {ns : List Name} (known : ∀ n ∈ ns, f.names.Knows n) :
    f'.lookupAll ns = f.lookupAll ns :=
  List.map_congr_left fun n mem => grows.lookup (known n mem)

end Grows

/-! ## Reading what was there -/

section Reading

variable (grows : f.Grows f')
include grows

/-- Lists are read item by item. -/
theorem slice_extends {α : Type} {pool : Pool} {g h : pool.Item → Except ReadError α}
    (s : Span pool) (each : ∀ item ∈ f.arena.pool pool, Extends (g item) (h item)) :
    Extends (f.arena.slice s >>= fun items => items.mapM g)
      (f'.arena.slice s >>= fun items => items.mapM h) :=
  (grows.arena.slice s).bind fun _ found => .mapM fun item mem =>
    each item (Arena.mem_of_slice found mem)

theorem sliceUnlessEmpty_extends {pool : Pool} (s : Span pool) :
    Extends (f.sliceUnlessEmpty s) (f'.sliceUnlessEmpty s) := by
  unfold sliceUnlessEmpty
  split
  · exact .refl _
  · exact grows.arena.slice s

section Layers

variable {child child' : ExprId → Except ReadError Expr}
  (below : ∀ id, Extends (child id) (child' id))
include below

theorem readExprs_extends (s : Span .exprs) :
    Extends (f.readExprs child s) (f'.readExprs child' s) :=
  slice_extends grows s fun id _ => below id

theorem readRhs_extends (rhs : RhsNode) :
    Extends (f.readRhs child rhs) (f'.readRhs child' rhs) := by
  cases rhs with
  | plain body => exact (below body).map _
  | guarded branches =>
    have branch : ∀ b : BranchNode, Extends (f.readBranch child b) (f'.readBranch child' b) :=
      fun b => (readExprs_extends grows below b.guards).bind fun _ _ => (below b.body).map _
    simp only [readRhs, ← bind_assoc]
    exact (slice_extends grows branches fun b _ => branch b).map _

theorem readAlt_extends (a : AltNode) : Extends (f.readAlt child a) (f'.readAlt child' a) :=
  (below a.pattern).bind fun _ _ => (readRhs_extends grows below a.rhs).map _

end Layers

variable (named : f.Named)
include named

theorem readTypeNode_extends {child child' : TypeId → Except ReadError Ty} {node : TypeNode}
    (known : ∀ n ∈ node.names, f.names.Knows n) (below : ∀ id, Extends (child id) (child' id)) :
    Extends (f.readTypeNode child node) (f'.readTypeNode child' node) := by
  cases node with
  | con name | var name =>
    simp only [readTypeNode, grows.lookup (known name List.mem_cons_self)]
    exact .refl _
  | app func arg | arrow func arg => exact (below _).bind fun _ _ => (below _).map _
  | list element | paren element => exact (below _).map _
  | tuple boxity items =>
    simp only [readTypeNode, ← bind_assoc]
    exact (slice_extends grows items fun id _ => below id).map _
  | quantified binders context body =>
    refine (sliceUnlessEmpty_extends grows binders).bind fun names found => ?_
    have same : f'.lookupAll names = f.lookupAll names := by
      obtain ⟨-, rfl⟩ | ⟨-, -, found⟩ := sliceUnlessEmpty_cases found
      · rfl
      · exact grows.lookupAll fun n mem =>
          named.items .names n (Arena.mem_of_slice found mem) n List.mem_cons_self
    rw [same]
    exact (sliceUnlessEmpty_extends grows context).bind fun _ _ =>
      (Extends.mapM fun id _ => below id).bind fun _ _ => (below _).map _

theorem readTypeTo_extends {depth depth' : Nat} (deeper : depth ≤ depth') (id : TypeId) :
    Extends (f.readTypeTo depth id) (f'.readTypeTo depth' id) := by
  induction depth generalizing depth' id with
  | zero => exact fun _ done => nomatch done
  | succ depth ih =>
    obtain ⟨rest, rfl⟩ := Nat.exists_eq_add_of_le' deeper
    refine (grows.arena.get id).bind fun node found => ?_
    refine readTypeNode_extends grows named ?_ fun id => ih (Nat.le_add_left depth rest) id
    exact named.nodes .type node (Array.mem_of_getElem? (Arena.getElem?_of_get found))

theorem readType_extends (id : TypeId) : Extends (f.readType id) (f'.readType id) :=
  readTypeTo_extends grows named (Nat.succ_le_succ (grows.arena.nodes_size_le .type)) id

section Layers

variable {child child' : ExprId → Except ReadError Expr}
  (below : ∀ id, Extends (child id) (child' id))
include below

theorem readDeclNode_extends {d : DeclNode} (known : ∀ n ∈ d.names, f.names.Knows n) :
    Extends (f.readDeclNode child d) (f'.readDeclNode child' d) := by
  cases d with
  | signature names type =>
    refine (grows.arena.slice names).bind fun items found => ?_
    have same : f'.lookupAll items = f.lookupAll items :=
      grows.lookupAll fun n mem =>
        named.items .names n (Arena.mem_of_slice found mem) n List.mem_cons_self
    rw [same]
    exact (readType_extends grows named type).map _
  | function name params rhs =>
    simp only [readDeclNode, grows.lookup (known name List.mem_cons_self)]
    exact (readExprs_extends grows below params).bind fun _ _ =>
      (readRhs_extends grows below rhs).map _
  | pattern p rhs => exact (below p).bind fun _ _ => (readRhs_extends grows below rhs).map _

theorem readDecls_extends (s : Span .decls) :
    Extends (f.readDecls child s) (f'.readDecls child' s) :=
  slice_extends grows s fun d mem =>
    readDeclNode_extends grows named below (named.items .decls d mem)

theorem readStmt_extends (s : StmtNode) : Extends (f.readStmt child s) (f'.readStmt child' s) := by
  cases s with
  | bind p e => exact (below p).bind fun _ _ => (below e).map _
  | expr e => exact (below e).map _
  | decls ds => exact (readDecls_extends grows named below ds).map _

theorem readFields_extends (s : Span .fields) :
    Extends (f.readFields child s) (f'.readFields child' s) := by
  refine slice_extends grows s fun field mem => ?_
  simp only [readField, grows.lookup (named.items .fields field mem _ List.mem_cons_self)]
  exact (below _).map _

theorem readExprNode_extends {node : ExprNode} (known : ∀ n ∈ node.names, f.names.Knows n) :
    Extends (f.readExprNode child node) (f'.readExprNode child' node) := by
  have exprs := readExprs_extends grows below
  have fields := readFields_extends grows named below
  have decls := readDecls_extends grows named below
  cases node with
  | var name | con name | frac name | string name | varQuote name | typeQuote name =>
    simp only [readExprNode, grows.lookup (known name List.mem_cons_self)]
    exact .refl _
  | int value | char value | wildcard => exact .refl _
  | app func arg => exact (below func).bind fun _ _ => (below arg).map _
  | binary left op right =>
    simp only [readExprNode, grows.readOp (known op.name List.mem_cons_self)]
    exact (below left).bind fun _ _ => (below right).map _
  | leftSection operand op | rightSection op operand =>
    simp only [readExprNode, grows.readOp (known op.name List.mem_cons_self)]
    exact (below operand).map _
  | neg operand | paren operand => exact (below operand).map _
  | lambda params body => exact (exprs params).bind fun _ _ => (below body).map _
  | tuple boxity items => exact (exprs items).map _
  | list items =>
    exact (sliceUnlessEmpty_extends grows items).bind fun _ _ =>
      (Extends.mapM fun id _ => below id).map _
  | cond condition yes no =>
    exact (below condition).bind fun _ _ => (below yes).bind fun _ _ => (below no).map _
  | caseOf scrutinee alts =>
    refine (below scrutinee).bind fun _ _ => ?_
    rw [← bind_assoc, ← bind_assoc]
    exact (slice_extends grows alts fun a _ => readAlt_extends grows below a).map _
  | block stmts =>
    simp only [readExprNode, ← bind_assoc]
    exact (slice_extends grows stmts fun s _ => readStmt_extends grows named below s).map _
  | letIn ds body => exact (decls ds).bind fun _ _ => (below body).map _
  | record name entries =>
    simp only [readExprNode, grows.lookup (known name List.mem_cons_self)]
    exact (fields entries).map _
  | update old entries => exact (below old).bind fun _ _ => (fields entries).map _
  | annot e type =>
    exact (below e).bind fun _ _ => (readType_extends grows named type).map _

end Layers

theorem readExprTo_extends {depth depth' : Nat} (deeper : depth ≤ depth') (id : ExprId) :
    Extends (f.readExprTo depth id) (f'.readExprTo depth' id) := by
  induction depth generalizing depth' id with
  | zero => exact fun _ done => nomatch done
  | succ depth ih =>
    obtain ⟨rest, rfl⟩ := Nat.exists_eq_add_of_le' deeper
    refine (grows.arena.get id).bind fun node found => ?_
    refine readExprNode_extends grows named (fun id => ih (Nat.le_add_left depth rest) id) ?_
    exact named.nodes .expr node (Array.mem_of_getElem? (Arena.getElem?_of_get found))

end Reading

end Forest

end TrialLayout
