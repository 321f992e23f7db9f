import TrialLayout.Proofs.Building

/-!
# What calls make

For every call of the builder: given handles that stand for trees, the call returns a handle that
stands for the tree that it describes, unless one of its lists is too long (`Call.makes`). A call
with several arguments nests to the left, an arrow to the right.

Each call is treated once. What a list holds is read item by item, and what was given to the call
goes on to stand for the same while the call adds to the forest.
-/

namespace TrialLayout

/-! ## Assembled parts -/

namespace Forest.Means

variable {A : Prop} {f : Forest} {id id' : ExprId} {e e' : Expr} {rhs : RhsNode} {body : Rhs}

theorem plain (means : Means A f .expr id e) : Means A f .rhs (.plain id) (.plain e) :=
  ⟨fun a => ⟨(means.held a).refs, (means.held a).names⟩,
    fun later => bind_eq_ok.mpr ⟨e, means.read later, rfl⟩⟩

theorem alt (first : Means A f .expr id e) (second : Means A f .rhs rhs body) :
    Means A f .alt ⟨id, rhs⟩ (.mk e body) where
  held := fun a => ⟨List.forall_mem_cons.mpr ⟨(first.held a).expr, (second.held a).refs⟩,
    (second.held a).names⟩
  read := fun later =>
    bind_eq_ok.mpr ⟨e, first.read later, bind_eq_ok.mpr ⟨body, second.read later, rfl⟩⟩

theorem pattern (first : Means A f .expr id e) (second : Means A f .rhs rhs body) :
    Means A f .decl (.pattern id rhs) (.pattern e body) where
  held := fun a => ⟨List.forall_mem_cons.mpr ⟨(first.held a).expr, (second.held a).refs⟩,
    (second.held a).names⟩
  read := fun later =>
    bind_eq_ok.mpr ⟨e, first.read later, bind_eq_ok.mpr ⟨body, second.read later, rfl⟩⟩

theorem stmt (means : Means A f .expr id e) : Means A f .stmt (.expr id) (.expr e) :=
  ⟨fun a => ⟨(means.held a).refs, (means.held a).names⟩,
    fun later => bind_eq_ok.mpr ⟨e, means.read later, rfl⟩⟩

theorem bind (first : Means A f .expr id e) (second : Means A f .expr id' e') :
    Means A f .stmt (.bind id id') (.bind e e') where
  held := fun a => ⟨List.forall_mem_cons.mpr ⟨(first.held a).expr, (second.held a).refs⟩,
    (second.held a).names⟩
  read := fun later =>
    bind_eq_ok.mpr ⟨e, first.read later, bind_eq_ok.mpr ⟨e', second.read later, rfl⟩⟩

end Forest.Means

/-! ## Fields and branches -/

namespace Forest

variable {A : Prop} {f f' : Forest}

/-- The handle of a field's value stands for the value. -/
inductive MeansField (A : Prop) (f : Forest) : String × ExprId → Field → Prop
  | mk {name : String} {value : ExprId} {e : Expr} :
      Means A f .expr value e → MeansField A f (name, value) (.mk name e)

theorem MeansField.grow {entry : String × ExprId} {t : Field} (means : MeansField A f entry t)
    (grows : f.Grows f') : MeansField A f' entry t := by
  obtain ⟨value⟩ := means
  exact ⟨value.grow grows⟩

theorem MeansField.exists_all_of_sound (sound : f.Sound) {entries : List (String × ExprId)}
    (held : ∀ entry ∈ entries, f.Held .expr entry.2) :
    ∃ fs, entries.mapM (Call.tree.field f) = .ok fs ∧
      List.Forall₂ (MeansField A f) entries fs := by
  refine exists_mapM fun entry mem => ?_
  obtain ⟨e, read, means⟩ := Means.exists_of_sound sound (held entry mem)
  exact ⟨.mk entry.1 e, bind_eq_ok.mpr ⟨e, read, rfl⟩, ⟨means⟩⟩

/-- The handles of a branch stand for its guards and its body. -/
inductive MeansBranch (A : Prop) (f : Forest) : List ExprId × ExprId → Branch → Prop
  | mk {guards : List ExprId} {body : ExprId} {es : List Expr} {e : Expr} :
      List.Forall₂ (Means A f .expr) guards es → Means A f .expr body e →
        MeansBranch A f (guards, body) (.mk es e)

theorem MeansBranch.grow {b : List ExprId × ExprId} {t : Branch} (means : MeansBranch A f b t)
    (grows : f.Grows f') : MeansBranch A f' b t := by
  obtain ⟨guards, body⟩ := means
  exact ⟨Means.all_grow guards grows, body.grow grows⟩

theorem MeansBranch.exists_all_of_sound (sound : f.Sound)
    {branches : List (List ExprId × ExprId)}
    (held : ∀ b ∈ branches, (∀ id ∈ b.1, f.Held .expr id) ∧ f.Held .expr b.2) :
    ∃ bs, branches.mapM (Call.tree.branch f) = .ok bs ∧
      List.Forall₂ (MeansBranch A f) branches bs := by
  refine exists_mapM fun b mem => ?_
  obtain ⟨es, first, guards⟩ := Means.exists_all_of_sound (k := .expr) sound (held b mem).1
  obtain ⟨e, second, body⟩ := Means.exists_of_sound sound (held b mem).2
  exact ⟨.mk es e, bind_eq_ok.mpr ⟨es, first, bind_eq_ok.mpr ⟨e, second, rfl⟩⟩, ⟨guards, body⟩⟩

end Forest

namespace Build

open Forest

variable {A : Prop} {f f' : Forest} {depth : Nat}

/-- A part that is put together without touching the forest. -/
theorem assembled_makes (sound : A → f.Sound) {k : Part} {h : k.Handle} {t : k.Tree}
    (means : Means A f k h t) : Makes A f k (pure h) True t :=
  Does.pure sound means

/-! ## Leaves -/

theorem leaf_makes (sound : A → f.Sound) (text : String) {node : Name → ExprNode}
    {tree : String → Expr} (refs : ∀ n, (node n).refs = []) (names : ∀ n, (node n).names = [n])
    (reads : ∀ (f : Forest) child n,
      f.readExprNode child (node n) = .ok (tree (f.names.lookup n))) :
    Makes A f .expr (intern text >>= fun n => expr (node n)) True (tree text) := by
  refine (intern_does sound text).andThen fun n f' sound' _ named => expr_makes sound' ?_ ?_ ?_
  · rw [refs]
    exact fun _ => List.forall_mem_nil _
  · rw [names]
    exact fun _ => List.forall_mem_singleton.mpr named.known
  · intro f'' depth later
    rw [reads, (named.grow later.grows).lookup]

theorem typeLeaf_makes (sound : A → f.Sound) (text : String) {node : Name → TypeNode}
    {tree : String → Ty} (refs : ∀ n, (node n).refs = []) (names : ∀ n, (node n).names = [n])
    (reads : ∀ (f : Forest) child n,
      f.readTypeNode child (node n) = .ok (tree (f.names.lookup n))) :
    Makes A f .type (intern text >>= fun n => type (node n)) True (tree text) := by
  refine (intern_does sound text).andThen fun n f' sound' _ named => type_makes sound' ?_ ?_ ?_
  · rw [refs]
    exact fun _ => List.forall_mem_nil _
  · rw [names]
    exact fun _ => List.forall_mem_singleton.mpr named.known
  · intro f'' depth later
    rw [reads, (named.grow later.grows).lookup]

theorem constant_makes (sound : A → f.Sound) {node : ExprNode} {e : Expr} (refs : node.refs = [])
    (names : node.names = []) (reads : ∀ (f : Forest) child, f.readExprNode child node = .ok e) :
    Makes A f .expr (expr node) True e :=
  expr_makes sound (by simp [refs]) (by simp [names]) fun _ => reads _ _

/-! ## Nodes with a fixed number of children -/

section Children

variable {id id' id'' : ExprId} {e e' e'' : Expr} {u : TypeId} {t : Ty}

theorem neg_makes (sound : A → f.Sound) (means : Means A f .expr id e) :
    Makes A f .expr (neg id) True (.neg e) :=
  expr_makes sound (fun a => (means.held a).refs) (fun _ => List.forall_mem_nil _)
    fun later => bind_eq_ok.mpr ⟨e, means.read later, rfl⟩

theorem paren_makes (sound : A → f.Sound) (means : Means A f .expr id e) :
    Makes A f .expr (paren id) True (.paren e) :=
  expr_makes sound (fun a => (means.held a).refs) (fun _ => List.forall_mem_nil _)
    fun later => bind_eq_ok.mpr ⟨e, means.read later, rfl⟩

theorem cond_makes (sound : A → f.Sound) (first : Means A f .expr id e)
    (second : Means A f .expr id' e') (third : Means A f .expr id'' e'') :
    Makes A f .expr (cond id id' id'') True (.cond e e' e'') := by
  refine expr_makes sound (fun a => ?_) (fun _ => List.forall_mem_nil _) fun later => ?_
  · simp [ExprNode.refs, (first.held a).expr, (second.held a).expr, (third.held a).expr]
  · exact bind_eq_ok.mpr ⟨e, first.read later, bind_eq_ok.mpr ⟨e', second.read later,
      bind_eq_ok.mpr ⟨e'', third.read later, rfl⟩⟩⟩

theorem annot_makes (sound : A → f.Sound) (first : Means A f .expr id e)
    (second : Means A f .type u t) : Makes A f .expr (annot id u) True (.annot e t) := by
  refine expr_makes sound (fun a => ?_) (fun _ => List.forall_mem_nil _) fun later => ?_
  · simp [ExprNode.refs, (first.held a).expr, (second.held a).type]
  · exact bind_eq_ok.mpr ⟨e, first.read later,
      bind_eq_ok.mpr ⟨t, second.reads later.grows, rfl⟩⟩

theorem typeList_makes (sound : A → f.Sound) (means : Means A f .type u t) :
    Makes A f .type (typeList u) True (.list t) :=
  type_makes sound (fun a => (means.held a).refs) (fun _ => List.forall_mem_nil _)
    fun later => bind_eq_ok.mpr ⟨t, means.read later, rfl⟩

theorem typeParen_makes (sound : A → f.Sound) (means : Means A f .type u t) :
    Makes A f .type (typeParen u) True (.paren t) :=
  type_makes sound (fun a => (means.held a).refs) (fun _ => List.forall_mem_nil _)
    fun later => bind_eq_ok.mpr ⟨t, means.read later, rfl⟩

end Children

/-! ## Operators -/

theorem op_makes (sound : A → f.Sound) (symbol : Op String) :
    Makes A f .op (op symbol) True symbol := by
  refine (op_does sound symbol).imp fun o f' _ named => ⟨fun _ => ⟨?_, ?_⟩, fun later => ?_⟩
  · exact List.forall_mem_nil _
  · exact List.forall_mem_singleton.mpr named.1
  · rw [readTo, later.grows.readOp named.1, named.2]

theorem binary_makes (sound : A → f.Sound) {left right : ExprId} {a b : Expr} (symbol : Op String)
    (first : Means A f .expr left a) (second : Means A f .expr right b) :
    Makes A f .expr (binary left symbol right) True (.binary a symbol b) := by
  refine (op_does sound symbol).andThen fun o f' sound' grows named => ?_
  have first := first.grow grows
  have second := second.grow grows
  refine expr_makes sound' (fun a => ?_) (fun _ => List.forall_mem_singleton.mpr named.1)
    fun later => ?_
  · simp [ExprNode.refs, (first.held a).expr, (second.held a).expr]
  · simp only [readExprNode, later.grows.readOp named.1, named.2]
    exact bind_eq_ok.mpr ⟨a, first.read later, bind_eq_ok.mpr ⟨b, second.read later, rfl⟩⟩

theorem leftSection_makes (sound : A → f.Sound) {operand : ExprId} {e : Expr} (symbol : Op String)
    (means : Means A f .expr operand e) :
    Makes A f .expr (leftSection operand symbol) True (.leftSection e symbol) := by
  refine (op_does sound symbol).andThen fun o f' sound' grows named => ?_
  have means := means.grow grows
  refine expr_makes sound' (fun a => (means.held a).refs)
    (fun _ => List.forall_mem_singleton.mpr named.1) fun later => ?_
  simp only [readExprNode, later.grows.readOp named.1, named.2]
  exact bind_eq_ok.mpr ⟨e, means.read later, rfl⟩

theorem rightSection_makes (sound : A → f.Sound) {operand : ExprId} {e : Expr}
    (symbol : Op String) (means : Means A f .expr operand e) :
    Makes A f .expr (rightSection symbol operand) True (.rightSection symbol e) := by
  refine (op_does sound symbol).andThen fun o f' sound' grows named => ?_
  have means := means.grow grows
  refine expr_makes sound' (fun a => (means.held a).refs)
    (fun _ => List.forall_mem_singleton.mpr named.1) fun later => ?_
  simp only [readExprNode, later.grows.readOp named.1, named.2]
  exact bind_eq_ok.mpr ⟨e, means.read later, rfl⟩

/-! ## Applications and arrows -/

theorem app_makes (sound : A → f.Sound) {func : ExprId} {args : List ExprId} {e : Expr}
    {es : List Expr} (head : Means A f .expr func e)
    (means : List.Forall₂ (Means A f .expr) args es) :
    Makes A f .expr (app func args) True (e.apply es) := by
  induction args generalizing f func e es with
  | nil =>
    cases means
    exact assembled_makes sound head
  | cons arg rest ih =>
    cases means with
    | @cons _ a _ es first others =>
      have layer : Makes A f .expr (expr (.app func arg)) True (.app e a) := by
        refine expr_makes sound (fun a => ?_) (fun _ => List.forall_mem_nil _) fun later => ?_
        · simp [ExprNode.refs, (head.held a).expr, (first.held a).expr]
        · exact bind_eq_ok.mpr ⟨e, head.read later, bind_eq_ok.mpr ⟨a, first.read later, rfl⟩⟩
      refine layer.andThen fun func' f' sound' grows head' => ?_
      change Makes A f' .expr (app func' rest) True ((Expr.app e a).apply es)
      exact ih sound' head' (Means.all_grow others grows)

theorem typeApp_makes (sound : A → f.Sound) {func : TypeId} {args : List TypeId} {t : Ty}
    {ts : List Ty} (head : Means A f .type func t)
    (means : List.Forall₂ (Means A f .type) args ts) :
    Makes A f .type (typeApp func args) True (t.apply ts) := by
  induction args generalizing f func t ts with
  | nil =>
    cases means
    exact assembled_makes sound head
  | cons arg rest ih =>
    cases means with
    | @cons _ a _ ts first others =>
      have layer : Makes A f .type (type (.app func arg)) True (.app t a) := by
        refine type_makes sound (fun a => ?_) (fun _ => List.forall_mem_nil _) fun later => ?_
        · simp [TypeNode.refs, (head.held a).type, (first.held a).type]
        · exact bind_eq_ok.mpr ⟨t, head.read later, bind_eq_ok.mpr ⟨a, first.read later, rfl⟩⟩
      refine layer.andThen fun func' f' sound' grows head' => ?_
      change Makes A f' .type (typeApp func' rest) True ((Ty.app t a).apply ts)
      exact ih sound' head' (Means.all_grow others grows)

/-! ## Nodes with lists -/

theorem exprs_do (sound : A → f.Sound) {ids : List ExprId} {es : List Expr}
    (means : List.Forall₂ (Means A f .expr) ids es) :
    Does A f (list .exprs ids) (ids.length ≤ maxListLength)
      fun s f' => f'.arena.slice s = .ok ids :=
  list_does sound (Means.all_refs means) (Means.all_names means)

theorem types_do (sound : A → f.Sound) {ids : List TypeId} {ts : List Ty}
    (means : List.Forall₂ (Means A f .type) ids ts) :
    Does A f (list .types ids) (ids.length ≤ maxListLength)
      fun s f' => f'.arena.slice s = .ok ids :=
  list_does sound (Means.all_refs means) (Means.all_names means)

theorem decls_do (sound : A → f.Sound) {ds : List DeclNode} {ts : List Decl}
    (means : List.Forall₂ (Means A f .decl) ds ts) :
    Does A f (list .decls ds) (ds.length ≤ maxListLength)
      fun s f' => f'.arena.slice s = .ok ds :=
  list_does sound (Means.all_refs means) (Means.all_names means)

theorem readExprs_of_slice {s : Span .exprs} {ids : List ExprId} {es : List Expr}
    (found : f.arena.slice s = .ok ids) (means : List.Forall₂ (Means A f .expr) ids es)
    (later : f.Later .expr f' depth) : f'.readExprs (f'.readExprTo depth) s = .ok es :=
  bind_eq_ok.mpr ⟨ids, later.grows.arena.slice s ids found, Means.all_read means later⟩

theorem readDecls_of_slice {s : Span .decls} {ds : List DeclNode} {ts : List Decl}
    (found : f.arena.slice s = .ok ds) (means : List.Forall₂ (Means A f .decl) ds ts)
    (later : f.Later .expr f' depth) : f'.readDecls (f'.readExprTo depth) s = .ok ts :=
  bind_eq_ok.mpr ⟨ds, later.grows.arena.slice s ds found, Means.all_read means later⟩

theorem typeTuple_makes (sound : A → f.Sound) (boxity : Boxity) {items : List TypeId}
    {ts : List Ty} (means : List.Forall₂ (Means A f .type) items ts) :
    Makes A f .type (typeTuple boxity items) (items.length ≤ maxListLength) (.tuple boxity ts) := by
  refine (types_do sound means).andThen fun s f' sound' grows found => ?_
  have means := Means.all_grow means grows
  refine type_makes sound' (fun _ => ?_) (fun _ => List.forall_mem_nil _) fun later => ?_
  · exact List.forall_mem_singleton.mpr (Arena.holds_of_slice found)
  · exact bind_eq_ok.mpr ⟨items, later.grows.arena.slice s items found,
      bind_eq_ok.mpr ⟨ts, Means.all_read means later, rfl⟩⟩

theorem arrow_makes (sound : A → f.Sound) {components : List TypeId} {ts : List Ty}
    (means : List.Forall₂ (Means A f .type) components ts) :
    Makes A f .type (arrow components) True (.chainOf ts) := by
  induction means with
  | nil => exact (typeTuple_makes sound .boxed .nil).fitting fun _ => Nat.zero_le _
  | @cons arg t rest ts first others ih =>
    cases others with
    | nil => exact assembled_makes sound first
    | cons next more =>
      refine ih.andThen fun result f' sound' grows means => ?_
      have first := first.grow grows
      refine type_makes sound' (fun a => ?_) (fun _ => List.forall_mem_nil _) fun later => ?_
      · simp [TypeNode.refs, (first.held a).type, (means.held a).type]
      · exact bind_eq_ok.mpr ⟨t, first.read later, bind_eq_ok.mpr ⟨_, means.read later, rfl⟩⟩

theorem lambda_makes (sound : A → f.Sound) {params : List ExprId} {body : ExprId}
    {es : List Expr} {e : Expr} (ps : List.Forall₂ (Means A f .expr) params es)
    (b : Means A f .expr body e) :
    Makes A f .expr (lambda params body) (params.length ≤ maxListLength) (.lambda es e) := by
  refine (exprs_do sound ps).andThen fun s f' sound' grows found => ?_
  have ps := Means.all_grow ps grows
  have b := b.grow grows
  refine expr_makes sound' (fun a => ?_) (fun _ => List.forall_mem_nil _) fun later => ?_
  · simp [ExprNode.refs, Arena.holds_of_slice found, (b.held a).expr]
  · exact bind_eq_ok.mpr ⟨es, readExprs_of_slice found ps later,
      bind_eq_ok.mpr ⟨e, b.read later, rfl⟩⟩

theorem tuple_makes (sound : A → f.Sound) (boxity : Boxity) {items : List ExprId}
    {es : List Expr} (means : List.Forall₂ (Means A f .expr) items es) :
    Makes A f .expr (tuple boxity items) (items.length ≤ maxListLength) (.tuple boxity es) := by
  refine (exprs_do sound means).andThen fun s f' sound' grows found => ?_
  have means := Means.all_grow means grows
  refine expr_makes sound' (fun _ => ?_) (fun _ => List.forall_mem_nil _) fun later => ?_
  · exact List.forall_mem_singleton.mpr (Arena.holds_of_slice found)
  · exact bind_eq_ok.mpr ⟨es, readExprs_of_slice found means later, rfl⟩

theorem listOf_makes (sound : A → f.Sound) {items : List ExprId} {es : List Expr}
    (means : List.Forall₂ (Means A f .expr) items es) :
    Makes A f .expr (listOf items) (items.length ≤ maxListLength) (.list es) := by
  refine (exprs_do sound means).andThen fun s f' sound' grows found => ?_
  have means := Means.all_grow means grows
  refine expr_makes sound' (fun _ => ?_) (fun _ => List.forall_mem_nil _) fun later => ?_
  · exact List.forall_mem_singleton.mpr (Arena.holds_of_slice found)
  · have found := later.grows.arena.slice s items found
    simp only [readExprNode, sliceUnlessEmpty_of_holds (Arena.holds_of_slice found)]
    exact bind_eq_ok.mpr ⟨items, found, bind_eq_ok.mpr ⟨es, Means.all_read means later, rfl⟩⟩

theorem caseOf_makes (sound : A → f.Sound) {scrutinee : ExprId} {alts : List AltNode} {e : Expr}
    {as : List Alt} (first : Means A f .expr scrutinee e)
    (means : List.Forall₂ (Means A f .alt) alts as) :
    Makes A f .expr (caseOf scrutinee alts) (alts.length ≤ maxListLength) (.caseOf e as) := by
  refine (list_does (k := .alts) sound (Means.all_refs means) (Means.all_names means)).andThen
    fun s f' sound' grows found => ?_
  have first := first.grow grows
  have means := Means.all_grow means grows
  refine expr_makes sound' (fun a => ?_) (fun _ => List.forall_mem_nil _) fun later => ?_
  · simp [ExprNode.refs, (first.held a).expr, Arena.holds_of_slice found]
  · exact bind_eq_ok.mpr ⟨e, first.read later, bind_eq_ok.mpr ⟨alts,
      later.grows.arena.slice s alts found,
      bind_eq_ok.mpr ⟨as, Means.all_read means later, rfl⟩⟩⟩

theorem block_makes (sound : A → f.Sound) {stmts : List StmtNode} {ts : List Stmt}
    (means : List.Forall₂ (Means A f .stmt) stmts ts) :
    Makes A f .expr (block stmts) (stmts.length ≤ maxListLength) (.block ts) := by
  refine (list_does (k := .stmts) sound (Means.all_refs means) (Means.all_names means)).andThen
    fun s f' sound' grows found => ?_
  have means := Means.all_grow means grows
  refine expr_makes sound' (fun _ => ?_) (fun _ => List.forall_mem_nil _) fun later => ?_
  · exact List.forall_mem_singleton.mpr (Arena.holds_of_slice found)
  · exact bind_eq_ok.mpr ⟨stmts, later.grows.arena.slice s stmts found,
      bind_eq_ok.mpr ⟨ts, Means.all_read means later, rfl⟩⟩

theorem letIn_makes (sound : A → f.Sound) {decls : List DeclNode} {body : ExprId}
    {ds : List Decl} {e : Expr} (means : List.Forall₂ (Means A f .decl) decls ds)
    (b : Means A f .expr body e) :
    Makes A f .expr (letIn decls body) (decls.length ≤ maxListLength) (.letIn ds e) := by
  refine (decls_do sound means).andThen fun s f' sound' grows found => ?_
  have means := Means.all_grow means grows
  have b := b.grow grows
  refine expr_makes sound' (fun a => ?_) (fun _ => List.forall_mem_nil _) fun later => ?_
  · simp [ExprNode.refs, Arena.holds_of_slice found, (b.held a).expr]
  · exact bind_eq_ok.mpr ⟨ds, readDecls_of_slice found means later,
      bind_eq_ok.mpr ⟨e, b.read later, rfl⟩⟩

/-! ## Records -/

theorem fields_do (sound : A → f.Sound) {entries : List (String × ExprId)} {fs : List Field}
    (means : List.Forall₂ (MeansField A f) entries fs) :
    Does A f (fields entries) (entries.length ≤ maxListLength)
      fun s f' => f'.arena.Holds s ∧ ∀ {f'' depth}, f'.Later .expr f'' depth →
        f''.readFields (f''.readExprTo depth) s = .ok fs := by
  have named : Does A f (entries.mapM fun entry => return ⟨← intern entry.1, entry.2⟩) True
      fun nodes f' => List.Forall₂ (fun (node : FieldNode) (entry : String × ExprId) =>
        node.value = entry.2 ∧ Names f' node.name entry.1) nodes entries := by
    refine (Does.mapM (R := fun (node : FieldNode) (entry : String × ExprId) f' =>
      node.value = entry.2 ∧ Names f' node.name entry.1) sound
      (fun grows node => ⟨node.1, node.2.grow grows⟩)
      fun entry _ f' sound' _ => ?_).fitting fun _ _ _ => trivial
    exact (intern_does sound' entry.1).map fun n f'' _ named => ⟨rfl, named⟩
  refine (named.bind fun nodes f' sound' grows named => ?_).fitting fun fits => ⟨trivial, fits⟩
  -- the fields by what their names and values stand for
  have made : List.Forall₂ (fun (node : FieldNode) (t : Field) => ∃ name e,
      t = .mk name e ∧ Names f' node.name name ∧ Means A f' .expr node.value e) nodes fs := by
    refine forall₂_trans ?_ named means
    rintro node entry t ⟨value, named⟩ ⟨means⟩
    exact ⟨_, _, rfl, named, value ▸ means.grow grows⟩
  have refs : A → ∀ node ∈ nodes, ∀ r ∈ Pool.fields.refs node, f'.arena.Holds r := by
    refine fun a => forall₂_left made ?_
    rintro node t ⟨name, e, -, -, value⟩
    exact (value.held a).refs
  have known : A → ∀ node ∈ nodes, ∀ n ∈ Pool.fields.nameList node, f'.names.Knows n := by
    refine fun _ => forall₂_left made ?_
    rintro node t ⟨name, e, -, named, -⟩
    exact List.forall_mem_singleton.mpr named.known
  refine ((list_does (k := .fields) sound' refs known).fitting ?_).imp fun s f'' later found => ?_
  · exact fun fits => named.length_eq.trans_le fits
  · refine ⟨Arena.holds_of_slice found, fun {f₃ depth} last => ?_⟩
    refine bind_eq_ok.mpr ⟨nodes, last.grows.arena.slice s nodes found, mapM_eq_ok.mpr ?_⟩
    refine made.imp ?_
    rintro node _ ⟨name, e, rfl, named, value⟩
    refine bind_eq_ok.mpr ⟨e, value.read (last.after later), ?_⟩
    rw [((named.grow later).grow last.grows).lookup]
    rfl

theorem record_makes (sound : A → f.Sound) (name : String) {entries : List (String × ExprId)}
    {fs : List Field} (means : List.Forall₂ (MeansField A f) entries fs) :
    Makes A f .expr (record name entries) (entries.length ≤ maxListLength) (.record name fs) := by
  refine ((intern_does sound name).bind fun n f' sound' grows named => ?_).fitting
    fun fits => ⟨trivial, fits⟩
  have means := means.imp fun _ _ one => one.grow grows
  refine (fields_do sound' means).andThen fun s f'' sound'' later found => ?_
  have named := named.grow later
  refine expr_makes sound'' (fun _ => ?_) (fun _ => List.forall_mem_singleton.mpr named.known)
    fun last => ?_
  · exact List.forall_mem_singleton.mpr found.1
  · simp only [readExprNode, (named.grow last.grows).lookup]
    exact bind_eq_ok.mpr ⟨fs, found.2 last, rfl⟩

theorem update_makes (sound : A → f.Sound) {old : ExprId} {e : Expr}
    {entries : List (String × ExprId)} {fs : List Field} (first : Means A f .expr old e)
    (means : List.Forall₂ (MeansField A f) entries fs) :
    Makes A f .expr (update old entries) (entries.length ≤ maxListLength) (.update e fs) := by
  refine (fields_do sound means).andThen fun s f' sound' grows found => ?_
  have first := first.grow grows
  refine expr_makes sound' (fun a => ?_) (fun _ => List.forall_mem_nil _) fun later => ?_
  · simp [ExprNode.refs, (first.held a).expr, found.1]
  · exact bind_eq_ok.mpr ⟨e, first.read later, bind_eq_ok.mpr ⟨fs, found.2 later, rfl⟩⟩

/-! ## Right-hand sides, statements and declarations -/

theorem guarded_makes (sound : A → f.Sound) {branches : List (List ExprId × ExprId)}
    {bs : List Branch} (means : List.Forall₂ (MeansBranch A f) branches bs) :
    Makes A f .rhs (guarded branches)
      ((∀ b ∈ branches, b.1.length ≤ maxListLength) ∧ branches.length ≤ maxListLength)
      (.guarded bs) := by
  have guards : A → ∀ b ∈ branches, ∀ id ∈ b.1, f.Held .expr id := by
    refine fun a => forall₂_left means ?_
    rintro b t ⟨guards, -⟩
    exact Means.all_held guards a
  have listed : Does A f (branches.mapM fun b => return ⟨← list .exprs b.1, b.2⟩)
      (∀ b ∈ branches, b.1.length ≤ maxListLength)
      fun nodes f' => List.Forall₂ (fun (node : BranchNode) (b : List ExprId × ExprId) =>
        node.body = b.2 ∧ f'.arena.slice node.guards = .ok b.1) nodes branches := by
    refine Does.mapM (R := fun (node : BranchNode) (b : List ExprId × ExprId) f' =>
      node.body = b.2 ∧ f'.arena.slice node.guards = .ok b.1) sound
      (fun grows node => ⟨node.1, grows.arena.slice _ _ node.2⟩) fun b mem f' sound' grows => ?_
    have held : A → ∀ id ∈ b.1, ∀ r ∈ Pool.exprs.refs id, f'.arena.Holds r :=
      fun a id mem' => ((guards a b mem id mem').grow grows).refs
    exact (list_does (k := .exprs) sound' held fun _ _ _ => List.forall_mem_nil _).map
      fun s f'' _ found => ⟨rfl, found⟩
  refine listed.bind fun nodes f' sound' grows listed => ?_
  -- the branches by what their guards and bodies stand for
  have made : List.Forall₂ (fun (node : BranchNode) (t : Branch) => ∃ ids es e,
      t = .mk es e ∧ f'.arena.slice node.guards = .ok ids ∧
        List.Forall₂ (Means A f' .expr) ids es ∧ Means A f' .expr node.body e) nodes bs := by
    refine forall₂_trans ?_ listed means
    rintro node b t ⟨body, found⟩ ⟨guards, means⟩
    exact ⟨_, _, _, rfl, found, Means.all_grow guards grows, body ▸ means.grow grows⟩
  have refs : A → ∀ node ∈ nodes, ∀ r ∈ Pool.branches.refs node, f'.arena.Holds r := by
    refine fun a => forall₂_left made ?_
    rintro node t ⟨ids, es, e, -, found, -, body⟩
    simp [Pool.refs, BranchNode.refs, Arena.holds_of_slice found, (body.held a).expr]
  have stored := list_does (k := .branches) sound' refs fun _ _ _ => List.forall_mem_nil _
  refine (stored.fitting ?_).map fun s f'' later found => ?_
  · exact fun fits => listed.length_eq.trans_le fits
  · constructor
    · exact fun _ => ⟨List.forall_mem_singleton.mpr (Arena.holds_of_slice found),
        List.forall_mem_nil _⟩
    · intro f₃ depth last
      refine bind_eq_ok.mpr ⟨nodes, last.grows.arena.slice s nodes found,
        bind_eq_ok.mpr ⟨bs, mapM_eq_ok.mpr ?_, rfl⟩⟩
      have last := last.after later
      refine made.imp ?_
      rintro node _ ⟨ids, es, e, rfl, found, guards, body⟩
      exact bind_eq_ok.mpr ⟨es, readExprs_of_slice found guards last,
        bind_eq_ok.mpr ⟨e, body.read last, rfl⟩⟩

theorem declStmt_makes (sound : A → f.Sound) {decls : List DeclNode} {ds : List Decl}
    (means : List.Forall₂ (Means A f .decl) decls ds) :
    Makes A f .stmt (declStmt decls) (decls.length ≤ maxListLength) (.decls ds) := by
  refine (decls_do sound means).map fun s f' grows found => ?_
  have means := Means.all_grow means grows
  constructor
  · exact fun _ => ⟨List.forall_mem_singleton.mpr (Arena.holds_of_slice found),
      List.forall_mem_nil _⟩
  · exact fun later => bind_eq_ok.mpr ⟨ds, readDecls_of_slice found means later, rfl⟩

theorem module_makes (sound : A → f.Sound) {decls : List DeclNode} {ds : List Decl}
    (means : List.Forall₂ (Means A f .decl) decls ds) :
    Makes A f .module (module decls) (decls.length ≤ maxListLength) ds := by
  refine (decls_do sound means).imp fun s f' grows found => ?_
  have means := Means.all_grow means grows
  constructor
  · exact fun _ => ⟨List.forall_mem_singleton.mpr (Arena.holds_of_slice found),
      List.forall_mem_nil _⟩
  · exact fun later => readDecls_of_slice found means later

/-- Names that stand for texts, in a list. -/
theorem names_do (sound : A → f.Sound) (texts : List String) :
    Does A f (internAll texts >>= fun ns => list .names ns) (texts.length ≤ maxListLength)
      fun s f' => ∃ ns, f'.arena.slice s = .ok ns ∧ List.Forall₂ (Names f') ns texts := by
  refine ((internAll_does sound texts).bind fun ns f' sound' _ named => ?_).fitting
    fun fits => ⟨trivial, fits⟩
  have known : A → ∀ n ∈ ns, ∀ m ∈ Pool.names.nameList n, f'.names.Knows m :=
    fun _ => forall₂_left named fun _ _ one => List.forall_mem_singleton.mpr one.known
  have stored := list_does (k := .names) sound' (fun _ _ _ => List.forall_mem_nil _) known
  refine (stored.fitting ?_).imp fun s f'' later found => ⟨ns, found, ?_⟩
  · exact fun fits => named.length_eq.trans_le fits
  · exact named.imp fun _ _ one => one.grow later

theorem signature_makes (sound : A → f.Sound) (names : List String) {type : TypeId} {t : Ty}
    (means : Means A f .type type t) :
    Makes A f .decl (signature names type) (names.length ≤ maxListLength) (.signature names t) := by
  have made : Makes A f .decl
      ((internAll names >>= fun ns => list .names ns) >>= fun s => pure (.signature s type))
      (names.length ≤ maxListLength) (.signature names t) := by
    refine (names_do sound names).map fun s f' grows found => ?_
    obtain ⟨ns, found, named⟩ := found
    have means := means.grow grows
    constructor
    · refine fun a => ⟨?_, List.forall_mem_nil _⟩
      simp [Part.refs, DeclNode.refs, Arena.holds_of_slice found, (means.held a).type]
    · intro f'' depth later
      refine bind_eq_ok.mpr ⟨ns, later.grows.arena.slice s ns found,
        bind_eq_ok.mpr ⟨t, means.reads later.grows, ?_⟩⟩
      rw [lookupAll_of_names (named.imp fun _ _ one => one.grow later.grows)]
      rfl
  rwa [bind_assoc] at made

theorem function_makes (sound : A → f.Sound) (name : String) {params : List ExprId}
    {rhs : RhsNode} {es : List Expr} {body : Rhs}
    (ps : List.Forall₂ (Means A f .expr) params es) (b : Means A f .rhs rhs body) :
    Makes A f .decl (function name params rhs) (params.length ≤ maxListLength)
      (.function name es body) := by
  refine ((intern_does sound name).bind fun n f' sound' grows named => ?_).fitting
    fun fits => ⟨trivial, fits⟩
  have ps := Means.all_grow ps grows
  refine (exprs_do sound' ps).map fun s f'' later found => ?_
  have ps := Means.all_grow ps later
  have b := b.grow (grows.trans later)
  have named := named.grow later
  constructor
  · refine fun a => ⟨List.forall_mem_cons.mpr ⟨Arena.holds_of_slice found, (b.held a).refs⟩, ?_⟩
    exact List.forall_mem_singleton.mpr named.known
  · intro f₃ depth last
    refine bind_eq_ok.mpr ⟨es, readExprs_of_slice found ps last,
      bind_eq_ok.mpr ⟨body, b.read last, ?_⟩⟩
    rw [(named.grow last.grows).lookup]
    rfl

/-! ## Quantified types -/

theorem quantified_makes (sound : A → f.Sound) (binders : List String) {context : List TypeId}
    {body : TypeId} {ts : List Ty} {t : Ty} (cs : List.Forall₂ (Means A f .type) context ts)
    (b : Means A f .type body t) :
    Makes A f .type (quantified binders context body)
      (binders.length ≤ maxListLength ∧ context.length ≤ maxListLength)
      (.quantified binders ts t) := by
  have made : Makes A f .type
      ((internAll binders >>= fun ns => list .names ns) >>= fun s =>
        list .types context >>= fun s' => type (.quantified s s' body))
      (binders.length ≤ maxListLength ∧ context.length ≤ maxListLength)
      (.quantified binders ts t) := by
    refine (names_do sound binders).bind fun s f' sound' grows found => ?_
    obtain ⟨ns, found, named⟩ := found
    have cs := Means.all_grow cs grows
    refine (types_do sound' cs).andThen fun s' f'' sound'' later found' => ?_
    have cs := Means.all_grow cs later
    have b := b.grow (grows.trans later)
    have found := later.arena.slice s ns found
    have named := named.imp fun _ _ one => one.grow later
    refine type_makes sound'' (fun a => ?_) (fun _ => List.forall_mem_nil _) fun last => ?_
    · simp [TypeNode.refs, Arena.holds_of_slice found, Arena.holds_of_slice found',
        (b.held a).type]
    · have found := last.grows.arena.slice s ns found
      have found' := last.grows.arena.slice s' context found'
      simp only [readTypeNode, sliceUnlessEmpty_of_holds (Arena.holds_of_slice found),
        sliceUnlessEmpty_of_holds (Arena.holds_of_slice found')]
      refine bind_eq_ok.mpr ⟨ns, found, bind_eq_ok.mpr ⟨context, found',
        bind_eq_ok.mpr ⟨ts, Means.all_read cs last, bind_eq_ok.mpr ⟨t, b.read last, ?_⟩⟩⟩⟩
      rw [lookupAll_of_names (named.imp fun _ _ one => one.grow last.grows)]
      rfl
  rwa [bind_assoc] at made

end Build

/-! ## Calls -/

open Build Forest in
/-- A call on handles that are there describes a tree, and unless one of its lists is too long, it
returns a handle that stands for that tree. -/
theorem Call.makes {f : Forest} (sound : f.Sound) {k : Part} (c : Call k)
    (held : ∀ h ∈ c.uses, f.Held h.part h.value) :
    ∃ t, c.tree f = .ok t ∧ Makes True f k c.run c.Fits t := by
  have sure : True → f.Sound := fun _ => sound
  have one : ∀ {k : Part} {h : k.Handle}, f.Held k h →
      ∃ t, f.read k h = .ok t ∧ Means True f k h t :=
    Means.exists_of_sound sound
  have all : ∀ {k : Part} {hs : List k.Handle}, (∀ h ∈ hs, f.Held k h) →
      ∃ ts, hs.mapM (f.read k) = .ok ts ∧ List.Forall₂ (Means True f k) hs ts :=
    Means.exists_all_of_sound sound
  cases c with
  | op symbol => exact ⟨_, rfl, (op_makes sure symbol).never_refused⟩
  | var text | con text | frac text | string text | varQuote text | typeQuote text =>
    exact ⟨_, rfl, (leaf_makes sure text (fun _ => rfl) (fun _ => rfl)
      fun _ _ _ => rfl).never_refused⟩
  | typeCon text | typeVar text =>
    exact ⟨_, rfl, (typeLeaf_makes sure text (fun _ => rfl) (fun _ => rfl)
      fun _ _ _ => rfl).never_refused⟩
  | int value | char value | wildcard =>
    exact ⟨_, rfl, (constant_makes sure rfl rfl fun _ _ => rfl).never_refused⟩
  | app func args =>
    simp only [uses, List.forall_mem_cons, List.forall_mem_map] at held
    obtain ⟨e, first, head⟩ := one held.1
    obtain ⟨es, read, means⟩ := all held.2
    exact ⟨_, by rw [tree, first, read]; rfl, (app_makes sure head means).never_refused⟩
  | binary left symbol right =>
    simp only [uses, List.forall_mem_cons] at held
    obtain ⟨a, first, left⟩ := one held.1
    obtain ⟨b, second, right⟩ := one held.2.1
    exact ⟨_, by rw [tree, first, second]; rfl, (binary_makes sure symbol left right).never_refused⟩
  | leftSection operand symbol =>
    simp only [uses, List.forall_mem_singleton] at held
    obtain ⟨e, read, means⟩ := one held
    exact ⟨_, by rw [tree, read]; rfl, (leftSection_makes sure symbol means).never_refused⟩
  | rightSection symbol operand =>
    simp only [uses, List.forall_mem_singleton] at held
    obtain ⟨e, read, means⟩ := one held
    exact ⟨_, by rw [tree, read]; rfl, (rightSection_makes sure symbol means).never_refused⟩
  | neg operand =>
    simp only [uses, List.forall_mem_singleton] at held
    obtain ⟨e, read, means⟩ := one held
    exact ⟨_, by rw [tree, read]; rfl, (neg_makes sure means).never_refused⟩
  | paren inner =>
    simp only [uses, List.forall_mem_singleton] at held
    obtain ⟨e, read, means⟩ := one held
    exact ⟨_, by rw [tree, read]; rfl, (paren_makes sure means).never_refused⟩
  | lambda params body =>
    simp only [uses, List.forall_mem_append, List.forall_mem_map, List.forall_mem_singleton] at held
    obtain ⟨es, first, params⟩ := all (k := .expr) held.1
    obtain ⟨e, second, body⟩ := one held.2
    exact ⟨_, by rw [tree, first, second]; rfl,
      (lambda_makes sure params body).fitting fun fits => fits _ List.mem_cons_self⟩
  | tuple boxity items =>
    simp only [uses, List.forall_mem_map] at held
    obtain ⟨es, read, means⟩ := all held
    exact ⟨_, by rw [tree, read]; rfl,
      (tuple_makes sure boxity means).fitting fun fits => fits _ List.mem_cons_self⟩
  | list items =>
    simp only [uses, List.forall_mem_map] at held
    obtain ⟨es, read, means⟩ := all held
    exact ⟨_, by rw [tree, read]; rfl,
      (listOf_makes sure means).fitting fun fits => fits _ List.mem_cons_self⟩
  | cond condition yes no =>
    simp only [uses, List.forall_mem_cons] at held
    obtain ⟨c, first, condition⟩ := one held.1
    obtain ⟨y, second, yes⟩ := one held.2.1
    obtain ⟨n, third, no⟩ := one held.2.2.1
    exact ⟨_, by rw [tree, first, second, third]; rfl,
      (cond_makes sure condition yes no).never_refused⟩
  | caseOf scrutinee alts =>
    simp only [uses, List.forall_mem_cons, List.forall_mem_map] at held
    obtain ⟨e, first, scrutinee⟩ := one held.1
    obtain ⟨as, second, alts⟩ := all held.2
    exact ⟨_, by rw [tree, first, second]; rfl,
      (caseOf_makes sure scrutinee alts).fitting fun fits => fits _ List.mem_cons_self⟩
  | block stmts =>
    simp only [uses, List.forall_mem_map] at held
    obtain ⟨ts, read, means⟩ := all held
    exact ⟨_, by rw [tree, read]; rfl,
      (block_makes sure means).fitting fun fits => fits _ List.mem_cons_self⟩
  | letIn decls body =>
    simp only [uses, List.forall_mem_append, List.forall_mem_map, List.forall_mem_singleton] at held
    obtain ⟨ds, first, decls⟩ := all (k := .decl) held.1
    obtain ⟨e, second, body⟩ := one held.2
    exact ⟨_, by rw [tree, first, second]; rfl,
      (letIn_makes sure decls body).fitting fun fits => fits _ List.mem_cons_self⟩
  | record name entries =>
    simp only [uses, List.forall_mem_map] at held
    obtain ⟨fs, read, means⟩ := MeansField.exists_all_of_sound sound held
    exact ⟨_, by rw [tree, read]; rfl,
      (record_makes sure name means).fitting fun fits => fits _ List.mem_cons_self⟩
  | update old entries =>
    simp only [uses, List.forall_mem_cons, List.forall_mem_map] at held
    obtain ⟨e, first, old⟩ := one held.1
    obtain ⟨fs, read, means⟩ := MeansField.exists_all_of_sound sound held.2
    exact ⟨_, by rw [tree, first, read]; rfl,
      (update_makes sure old means).fitting fun fits => fits _ List.mem_cons_self⟩
  | annot e t =>
    simp only [uses, List.forall_mem_cons] at held
    obtain ⟨a, first, e⟩ := one held.1
    obtain ⟨b, second, t⟩ := one held.2.1
    exact ⟨_, by rw [tree, first, second]; rfl, (annot_makes sure e t).never_refused⟩
  | plain body =>
    simp only [uses, List.forall_mem_singleton] at held
    obtain ⟨e, read, means⟩ := one held
    exact ⟨_, by rw [tree, read]; rfl, (assembled_makes sure means.plain).never_refused⟩
  | guarded branches =>
    simp only [uses, List.forall_mem_flatMap, List.forall_mem_append, List.forall_mem_map,
      List.forall_mem_singleton] at held
    obtain ⟨bs, read, means⟩ := MeansBranch.exists_all_of_sound sound held
    refine ⟨_, by rw [tree, read]; rfl, (guarded_makes sure means).fitting fun fits => ?_⟩
    simp only [Fits, lengths, List.forall_mem_cons, List.forall_mem_map] at fits
    exact fits.symm
  | alt p rhs =>
    simp only [uses, List.forall_mem_cons] at held
    obtain ⟨e, first, p⟩ := one held.1
    obtain ⟨body, second, rhs⟩ := one held.2.1
    exact ⟨_, by rw [tree, first, second]; rfl, (assembled_makes sure (p.alt rhs)).never_refused⟩
  | bind p e =>
    simp only [uses, List.forall_mem_cons] at held
    obtain ⟨a, first, p⟩ := one held.1
    obtain ⟨b, second, e⟩ := one held.2.1
    exact ⟨_, by rw [tree, first, second]; rfl, (assembled_makes sure (p.bind e)).never_refused⟩
  | stmt e =>
    simp only [uses, List.forall_mem_singleton] at held
    obtain ⟨e, read, means⟩ := one held
    exact ⟨_, by rw [tree, read]; rfl, (assembled_makes sure means.stmt).never_refused⟩
  | declStmt decls =>
    simp only [uses, List.forall_mem_map] at held
    obtain ⟨ds, read, means⟩ := all held
    exact ⟨_, by rw [tree, read]; rfl,
      (declStmt_makes sure means).fitting fun fits => fits _ List.mem_cons_self⟩
  | signature names type =>
    simp only [uses, List.forall_mem_singleton] at held
    obtain ⟨t, read, means⟩ := one held
    exact ⟨_, by rw [tree, read]; rfl,
      (signature_makes sure names means).fitting fun fits => fits _ List.mem_cons_self⟩
  | function name params rhs =>
    simp only [uses, List.forall_mem_append, List.forall_mem_map, List.forall_mem_singleton] at held
    obtain ⟨es, first, params⟩ := all (k := .expr) held.1
    obtain ⟨body, second, rhs⟩ := one held.2
    exact ⟨_, by rw [tree, first, second]; rfl,
      (function_makes sure name params rhs).fitting fun fits => fits _ List.mem_cons_self⟩
  | pattern p rhs =>
    simp only [uses, List.forall_mem_cons] at held
    obtain ⟨e, first, p⟩ := one held.1
    obtain ⟨body, second, rhs⟩ := one held.2.1
    exact ⟨_, by rw [tree, first, second]; rfl,
      (assembled_makes sure (p.pattern rhs)).never_refused⟩
  | module decls =>
    simp only [uses, List.forall_mem_map] at held
    obtain ⟨ds, read, means⟩ := all held
    exact ⟨_, read, (module_makes sure means).fitting fun fits => fits _ List.mem_cons_self⟩
  | typeApp func args =>
    simp only [uses, List.forall_mem_cons, List.forall_mem_map] at held
    obtain ⟨t, first, head⟩ := one held.1
    obtain ⟨ts, read, means⟩ := all held.2
    exact ⟨_, by rw [tree, first, read]; rfl, (typeApp_makes sure head means).never_refused⟩
  | arrow components =>
    simp only [uses, List.forall_mem_map] at held
    obtain ⟨ts, read, means⟩ := all held
    exact ⟨_, by rw [tree, read]; rfl, (arrow_makes sure means).never_refused⟩
  | typeTuple boxity items =>
    simp only [uses, List.forall_mem_map] at held
    obtain ⟨ts, read, means⟩ := all held
    exact ⟨_, by rw [tree, read]; rfl,
      (typeTuple_makes sure boxity means).fitting fun fits => fits _ List.mem_cons_self⟩
  | typeList element =>
    simp only [uses, List.forall_mem_singleton] at held
    obtain ⟨t, read, means⟩ := one held
    exact ⟨_, by rw [tree, read]; rfl, (typeList_makes sure means).never_refused⟩
  | typeParen inner =>
    simp only [uses, List.forall_mem_singleton] at held
    obtain ⟨t, read, means⟩ := one held
    exact ⟨_, by rw [tree, read]; rfl, (typeParen_makes sure means).never_refused⟩
  | quantified binders context body =>
    simp only [uses, List.forall_mem_append, List.forall_mem_map, List.forall_mem_singleton] at held
    obtain ⟨ts, first, context⟩ := all (k := .type) held.1
    obtain ⟨t, second, body⟩ := one held.2
    refine ⟨_, by rw [tree, first, second]; rfl,
      (quantified_makes sure binders context body).fitting fun fits => ?_⟩
    exact ⟨fits _ List.mem_cons_self, fits _ (List.mem_cons_of_mem _ List.mem_cons_self)⟩

end TrialLayout
