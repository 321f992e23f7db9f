import TrialLayout.Proofs.Growth

/-!
# Sound forests

In a sound forest references are in bounds, names have been handed out, and every path of
references from a node to a node of the same kind leads to a smaller number. It holds of a forest
if its nodes and items refer only to what was there when they were added (`Sound.grow`), since
whatever is reached from there was there too.

* Sound forests are acyclic (`Sound.acyclic`): a path that leads back and meets a node would lead
  from its number to a smaller one, and lists refer to lists of other storages in one order only.
* Every handle whose references are in bounds can be read (`Sound.read_succeeds`).
-/

namespace TrialLayout

open Relation

/-! ## Handles -/

/-- The references of a handle. -/
def Part.refs : (k : Part) → k.Handle → List Ref
  | op, _ => []
  | expr, id => [Ref.node .expr id]
  | type, id => [Ref.node .type id]
  | rhs, r => RhsNode.refs r
  | alt, a => AltNode.refs a
  | stmt, s => StmtNode.refs s
  | decl, d => DeclNode.refs d
  | module, s => [Ref.list .decls s]

/-- The names that stand in a handle. -/
def Part.names : (k : Part) → k.Handle → List Name
  | op, symbol => [Op.name symbol]
  | decl, d => DeclNode.names d
  | _, _ => []

/-- What a handle refers to is there. -/
structure Forest.Held (f : Forest) (k : Part) (h : k.Handle) : Prop where
  refs : ∀ r ∈ k.refs h, f.arena.Holds r
  names : ∀ n ∈ k.names h, f.names.Knows n

/-- The nodes whose number limits the depth of a part. -/
def Part.kind : Part → NodeKind
  | type => .type
  | _ => .expr

/-- The tree that a handle stands for, if it is at most `depth` layers deep. -/
def Forest.readTo (f : Forest) (depth : Nat) : (k : Part) → k.Handle → Except ReadError k.Tree
  | .op, op => .ok (f.readOp op)
  | .expr, id => f.readExprTo depth id
  | .type, id => f.readTypeTo depth id
  | .rhs, rhs => f.readRhs (f.readExprTo depth) rhs
  | .alt, alt => f.readAlt (f.readExprTo depth) alt
  | .stmt, stmt => f.readStmt (f.readExprTo depth) stmt
  | .decl, decl => f.readDeclNode (f.readExprTo depth) decl
  | .module, decls => f.readDecls (f.readExprTo depth) decls

theorem Forest.read_eq_readTo (f : Forest) (k : Part) (h : k.Handle) :
    f.read k h = f.readTo ((f.arena.nodes k.kind).size + 1) k h := by
  cases k <;> rfl

/-- Lists refer to lists only in storages of smaller rank. -/
def Pool.rank : Pool → Nat
  | stmts => 3
  | decls | alts => 2
  | branches => 1
  | _ => 0

/-- References are in bounds, names have been handed out, and numbers go down. -/
structure Forest.Sound (f : Forest) : Prop where
  bounds : f.arena.InBounds
  named : f.Named
  descends : ∀ {kind : NodeKind} {i j : Id kind}, TransGen f.arena.Leads i j → j.raw < i.raw

namespace Forest

variable {f f' : Forest}

theorem Held.grow {k : Part} {h : k.Handle} (held : f.Held k h) (grows : f.Grows f') :
    f'.Held k h :=
  ⟨fun r mem => grows.arena.holds (held.refs r mem), fun n mem => grows.knows (held.names n mem)⟩

theorem Held.expr {id : ExprId} (held : f.Held .expr id) : f.arena.Holds id :=
  held.refs _ List.mem_cons_self

theorem Held.type {id : TypeId} (held : f.Held .type id) : f.arena.Holds id :=
  held.refs _ List.mem_cons_self

/-- A handle reads the same after the forest has grown. -/
theorem readTo_extends (grows : f.Grows f') (named : f.Named) {k : Part} {h : k.Handle}
    (known : ∀ n ∈ k.names h, f.names.Knows n) {depth depth' : Nat} (deeper : depth ≤ depth') :
    Extends (f.readTo depth k h) (f'.readTo depth' k h) := by
  have exprs := readExprTo_extends grows named deeper
  cases k with
  | op =>
    have same : f'.readOp h = f.readOp h := grows.readOp (known _ List.mem_cons_self)
    simp only [readTo, same]
    exact .refl _
  | expr => exact exprs h
  | type => exact readTypeTo_extends grows named deeper h
  | rhs => exact readRhs_extends grows exprs h
  | alt => exact readAlt_extends grows exprs h
  | stmt => exact readStmt_extends grows named exprs h
  | decl => exact readDeclNode_extends grows named exprs known
  | module => exact readDecls_extends grows named exprs h

namespace Sound

theorem empty : Sound {} where
  bounds := by
    constructor
    · intro kind
      cases kind <;> exact fun _ mem => absurd mem (Array.not_mem_empty _)
    · intro pool
      cases pool <;> exact fun _ mem => absurd mem (Array.not_mem_empty _)
  named := by
    constructor
    · intro kind
      cases kind <;> exact fun _ mem => absurd mem (Array.not_mem_empty _)
    · intro pool
      cases pool <;> exact fun _ mem => absurd mem (Array.not_mem_empty _)
  descends := by
    intro kind i j path
    obtain ⟨r, leads, -⟩ := TransGen.head'_iff.mp path
    cases leads with
    | node found _ =>
      have inside := Arena.holds_of_get found
      cases kind <;> exact absurd inside (Nat.not_lt_zero _)

/-- Soundness is kept if whatever is there now refers only to what was there before. -/
theorem grow (sound : f.Sound) (grows : f.Grows f')
    (nodes : ∀ kind, ∀ node ∈ f'.arena.nodes kind,
      (∀ r ∈ kind.refs node, f.arena.Holds r) ∧ ∀ n ∈ kind.names node, f'.names.Knows n)
    (items : ∀ pool, ∀ item ∈ f'.arena.pool pool,
      (∀ r ∈ pool.refs item, f.arena.Holds r) ∧ ∀ n ∈ pool.nameList item, f'.names.Knows n) :
    f'.Sound where
  bounds := ⟨fun kind node mem r mem' => grows.arena.holds ((nodes kind node mem).1 r mem'),
    fun pool item mem r mem' => grows.arena.holds ((items pool item mem).1 r mem')⟩
  named := ⟨fun kind node mem => (nodes kind node mem).2,
    fun pool item mem => (items pool item mem).2⟩
  descends := by
    intro kind i j path
    by_cases old : f.arena.Holds i
    · exact sound.descends (grows.arena.path sound.bounds old path).1
    · -- one step from a new node leads back to what was there
      obtain ⟨r, leads, path⟩ := TransGen.head'_iff.mp path
      have holds : f.arena.Holds r := by
        cases leads with
        | node found mem =>
          exact (nodes kind _ (Array.mem_of_getElem? (Arena.getElem?_of_get found))).1 r mem
      have inside : f.arena.Holds j := by
        rcases reflTransGen_iff_eq_or_transGen.mp path with rfl | path
        · exact holds
        · exact (grows.arena.path sound.bounds holds path).2
      exact Nat.lt_of_lt_of_le inside (Nat.le_of_not_lt old)

theorem intern (sound : f.Sound) {names : Interner}
    (grows : f.Grows { f with names }) : Sound { f with names } :=
  sound.grow grows
    (fun kind node mem => ⟨sound.bounds.nodes kind node mem,
      fun n mem' => grows.knows (sound.named.nodes kind node mem n mem')⟩)
    (fun pool item mem => ⟨sound.bounds.items pool item mem,
      fun n mem' => grows.knows (sound.named.items pool item mem n mem')⟩)

theorem pushNode (sound : f.Sound) {kind : NodeKind} {node : kind.Node}
    (refs : ∀ r ∈ kind.refs node, f.arena.Holds r)
    (names : ∀ n ∈ kind.names node, f.names.Knows n) :
    Sound { f with arena := f.arena.pushNode kind node } := by
  refine sound.grow ⟨.pushNode f.arena kind node, (Grows.refl f).names⟩ ?_ ?_
  · intro other node' mem
    by_cases same : other = kind
    · subst same
      rw [Arena.nodes_pushNode_self, Array.mem_push] at mem
      rcases mem with old | rfl
      · exact ⟨sound.bounds.nodes _ _ old, sound.named.nodes _ _ old⟩
      · exact ⟨refs, names⟩
    · rw [Arena.nodes_pushNode_of_ne _ _ same] at mem
      exact ⟨sound.bounds.nodes _ _ mem, sound.named.nodes _ _ mem⟩
  · intro pool item mem
    rw [Arena.pool_pushNode] at mem
    exact ⟨sound.bounds.items _ _ mem, sound.named.items _ _ mem⟩

theorem append (sound : f.Sound) {k : Pool} {items : List k.Item}
    (refs : ∀ item ∈ items, ∀ r ∈ k.refs item, f.arena.Holds r)
    (names : ∀ item ∈ items, ∀ n ∈ k.nameList item, f.names.Knows n) :
    Sound { f with arena := f.arena.append k items } := by
  refine sound.grow ⟨.append f.arena k items, (Grows.refl f).names⟩ ?_ ?_
  · intro kind node mem
    rw [Arena.nodes_append] at mem
    exact ⟨sound.bounds.nodes _ _ mem, sound.named.nodes _ _ mem⟩
  · intro pool item mem
    by_cases same : pool = k
    · subst same
      rw [Arena.pool_append_self, ← Array.mem_toList_iff, Array.toList_appendList,
        List.mem_append] at mem
      rcases mem with old | new
      · have old := Array.mem_toList_iff.mp old
        exact ⟨sound.bounds.items _ _ old, sound.named.items _ _ old⟩
      · exact ⟨refs item new, names item new⟩
    · rw [Arena.pool_append_of_ne _ _ same] at mem
      exact ⟨sound.bounds.items _ _ mem, sound.named.items _ _ mem⟩

end Sound

/-! ## Paths -/

theorem rank_lt_of_mem {k k' : Pool} {item : k.Item} {s : Span k'}
    (mem : Ref.list k' s ∈ k.refs item) : k'.rank < k.rank := by
  have rhs : ∀ rhs : RhsNode, Ref.list k' s ∈ rhs.refs → k' = .branches := by
    intro rhs mem
    cases rhs with
    | plain body => simp [RhsNode.refs] at mem
    | guarded branches =>
      simp only [RhsNode.refs, List.mem_singleton, Ref.list.injEq] at mem
      exact mem.1
  cases k with
  | exprs | types | fields => simp [Pool.refs] at mem
  | names => cases mem
  | branches =>
    simp only [Pool.refs, BranchNode.refs, List.mem_cons, Ref.list.injEq, reduceCtorEq,
      List.not_mem_nil, or_false] at mem
    rw [mem.1]
    decide
  | alts =>
    simp only [Pool.refs, AltNode.refs, List.mem_cons, reduceCtorEq, false_or] at mem
    rw [rhs _ mem]
    decide
  | decls =>
    cases item with
    | signature names type =>
      simp only [Pool.refs, DeclNode.refs, List.mem_cons, Ref.list.injEq, reduceCtorEq,
        List.not_mem_nil, or_false] at mem
      rw [mem.1]
      decide
    | function name params body =>
      simp only [Pool.refs, DeclNode.refs, List.mem_cons, Ref.list.injEq] at mem
      rcases mem with ⟨rfl, -⟩ | mem
      · decide
      · rw [rhs _ mem]
        decide
    | pattern p body =>
      simp only [Pool.refs, DeclNode.refs, List.mem_cons, reduceCtorEq, false_or] at mem
      rw [rhs _ mem]
      decide
  | stmts =>
    cases item with
    | bind p e | expr e => simp [Pool.refs, StmtNode.refs] at mem
    | decls ds =>
      simp only [Pool.refs, StmtNode.refs, List.mem_singleton, Ref.list.injEq] at mem
      rw [mem.1]
      decide

theorem rank_lt_of_leads {a : Arena} {k k' : Pool} {s : Span k} {s' : Span k'}
    (leads : a.Leads s s') : k'.rank < k.rank := by
  cases leads with
  | item _ _ mem => exact rank_lt_of_mem mem

/-- A path either meets a node or leads from a list to a list of smaller rank. -/
theorem path_cases {a : Arena} {r r' : Ref} (path : TransGen a.Leads r r') :
    (∃ (kind : NodeKind) (id : Id kind),
      ReflTransGen a.Leads r id ∧ ReflTransGen a.Leads (Ref.node kind id) r') ∨
    ∃ (k k' : Pool) (s : Span k) (s' : Span k'), r = s ∧ r' = s' ∧ k'.rank < k.rank := by
  induction path with
  | @single r' leads =>
    cases r with
    | node kind id => exact .inl ⟨kind, id, .refl, .single leads⟩
    | list k s =>
      cases r' with
      | node kind id => exact .inl ⟨kind, id, .single leads, .refl⟩
      | list k' s' => exact .inr ⟨k, k', s, s', rfl, rfl, rank_lt_of_leads leads⟩
  | @tail b c before leads ih =>
    rcases ih with ⟨kind, id, first, second⟩ | ⟨k, k', s, s', rfl, rfl, lower⟩
    · exact .inl ⟨kind, id, first, second.tail leads⟩
    · cases c with
      | node kind id => exact .inl ⟨kind, id, before.to_reflTransGen.tail leads, .refl⟩
      | list k'' s'' =>
        exact .inr ⟨k, k'', s, s'', rfl, rfl, Nat.lt_trans (rank_lt_of_leads leads) lower⟩

namespace Sound

theorem acyclic (sound : f.Sound) : f.arena.Acyclic := by
  intro r cycle
  rcases path_cases cycle with ⟨kind, id, first, second⟩ | ⟨k, k', s, s', rfl, same, lower⟩
  · have again : TransGen f.arena.Leads (Ref.node kind id) id :=
      (cycle.trans_right second).trans_left first
    exact Nat.lt_irrefl _ (sound.descends again)
  · cases same
    exact Nat.lt_irrefl _ lower

theorem read_succeeds (sound : f.Sound) {k : Part} {h : k.Handle} (held : f.Held k h) :
    Succeeds (f.read k h) := by
  have ready : ∀ r ∈ k.refs h, f.arena.Ready (f.Readable f.readExpr) r :=
    fun r mem => ready_of_holds sound.bounds sound.acyclic (held.refs r mem)
  cases k with
  | op => exact ⟨_, rfl⟩
  | expr => exact (ready _ List.mem_cons_self).here
  | type => exact (ready _ List.mem_cons_self).here
  | rhs => exact readRhs_succeeds ready
  | alt => exact readAlt_succeeds ready
  | stmt => exact readStmt_succeeds ready
  | decl => exact readDeclNode_succeeds ready
  | module => exact readDecls_succeeds (ready _ List.mem_cons_self)

end Sound

end Forest

end TrialLayout
