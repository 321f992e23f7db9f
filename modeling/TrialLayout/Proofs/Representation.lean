import TrialLayout.Proofs.Reading

/-!
# Independence of the representation

A tree can be held by many forests: under other numbers, with subtrees shared or copied, with
its lists elsewhere in their storages, among other nodes, and with other numbers for the same
names. Rendering goes from node to node and never sees the tree, yet it depends on nothing but
the tree.

The layouter for nodes is compared with the reader layer by layer: whatever gives each part of
a layer the layout of the tree it holds gives the layer the layout of its tree
(`Follows.exprNode`). By induction on the depth of the reading, the layout of a handle is the
layout of its tree (`exprLayout_shows`, `declLayout_shows`, `moduleLayout_shows`).

Result: `rendering_representation_independent`.
-/

namespace TrialLayout

namespace Forest

variable {f : Forest}

/-- What the layers below give to a layer: `lay` lays out what `read` reads, by itself and as a
statement, and the arena knows whether it is flat. -/
structure Follows (f : Forest) (read : ExprId → Except ReadError Expr)
    (lay : ExprId → Except ReadError Layout) : Prop where
  layout : Shows read lay Expr.layout
  flat : Shows read f.arena.isFlat Expr.isFlat
  statement : ∀ {id e}, read id = .ok e →
    f.stmtLayout lay (.expr id) = .ok e.forms.statement

/-! ## One layer -/

namespace Follows

variable {read : ExprId → Except ReadError Expr} {lay : ExprId → Except ReadError Layout}
  (follows : f.Follows read lay)
include follows

theorem exprs : Shows (f.readExprs read) (f.exprLayouts lay) Expr.layouts := by
  intro s es done
  obtain ⟨ids, inside, done⟩ := bind_eq_ok.mp done
  rw [Expr.layouts_eq_map]
  exact bind_eq_ok.mpr ⟨ids, inside, follows.layout.mapM done⟩

theorem body (separator : String) (under : Layout → Layout) {id : ExprId} {e : Expr}
    (done : read id = .ok e) :
    f.bodyLayout lay separator id under =
      .ok (.attach separator e.isFlat (under e.layout)) := by
  rw [bodyLayout, follows.flat done, follows.layout done]
  rfl

theorem argument : Shows read (f.argumentLayout lay) Expr.argument := by
  intro id e done
  rw [argumentLayout, follows.layout done, follows.flat done]
  rfl

theorem branch (separator : String) :
    Shows (f.readBranch read) (f.branchLayout lay separator) (Branch.layout separator) := by
  intro node b done
  simp only [readBranch, bind_eq_ok, pure_eq_ok] at done
  obtain ⟨guards, readGuards, body, readBody, rfl⟩ := done
  rw [branchLayout, follows.exprs readGuards, follows.body separator _ readBody]
  rfl

theorem rhs (separator : String) :
    Shows (f.readRhs read) (f.rhsLayout lay separator) (Rhs.layout separator) := by
  intro node r done
  cases node with
  | plain body =>
    simp only [readRhs, bind_eq_ok, pure_eq_ok] at done
    obtain ⟨body, readBody, rfl⟩ := done
    rw [rhsLayout, follows.body separator _ readBody]
    rfl
  | guarded branches =>
    simp only [readRhs, bind_eq_ok, pure_eq_ok] at done
    obtain ⟨nodes, inside, branches, done, rfl⟩ := done
    rw [Rhs.layout, Branch.layouts_eq_map]
    exact bind_eq_ok.mpr ⟨nodes, inside,
      bind_eq_ok.mpr ⟨_, (follows.branch separator).mapM done, rfl⟩⟩

theorem alt : Shows (f.readAlt read) (f.altLayout lay) Alt.layout := by
  intro node a done
  simp only [readAlt, bind_eq_ok, pure_eq_ok] at done
  obtain ⟨pattern, readPattern, rhs, readRhs, rfl⟩ := done
  rw [altLayout, follows.layout readPattern, follows.rhs " -> " readRhs]
  rfl

theorem decl : Shows (f.readDeclNode read) (f.declNodeLayout lay) Decl.layout := by
  intro node d done
  cases node with
  | signature names type =>
    simp only [readDeclNode, bind_eq_ok, pure_eq_ok] at done
    obtain ⟨names, inside, t, readType, rfl⟩ := done
    rw [declNodeLayout, signatureLayout, inside, f.signatureTypeLayout_shows readType]
    rfl
  | function name params rhs =>
    simp only [readDeclNode, bind_eq_ok, pure_eq_ok] at done
    obtain ⟨params, readParams, rhs, readRhs, rfl⟩ := done
    rw [declNodeLayout, follows.exprs readParams, follows.rhs " = " readRhs]
    rfl
  | pattern pattern rhs =>
    simp only [readDeclNode, bind_eq_ok, pure_eq_ok] at done
    obtain ⟨pattern, readPattern, rhs, readRhs, rfl⟩ := done
    rw [declNodeLayout, follows.layout readPattern, follows.rhs " = " readRhs]
    rfl

theorem decls : Shows (f.readDecls read) (f.declLayouts lay) Decl.layouts := by
  intro s ds done
  obtain ⟨nodes, inside, done⟩ := bind_eq_ok.mp done
  rw [Decl.layouts_eq_map]
  exact bind_eq_ok.mpr ⟨nodes, inside, follows.decl.mapM done⟩

theorem stmt : Shows (f.readStmt read) (f.stmtLayout lay) Stmt.layout := by
  intro node s done
  cases node with
  | bind pattern expr =>
    simp only [readStmt, bind_eq_ok, pure_eq_ok] at done
    obtain ⟨pattern, readPattern, e, readExpr, rfl⟩ := done
    rw [stmtLayout, follows.layout readPattern, follows.body " <- " _ readExpr]
    rfl
  | expr expr =>
    simp only [readStmt, bind_eq_ok, pure_eq_ok] at done
    obtain ⟨e, readExpr, rfl⟩ := done
    exact follows.statement readExpr
  | decls decls =>
    simp only [readStmt, bind_eq_ok, pure_eq_ok] at done
    obtain ⟨ds, readDecls, rfl⟩ := done
    rw [stmtLayout, follows.decls readDecls]
    rfl

theorem field : Shows (f.readField read) (f.fieldLayout lay) Field.layout := by
  intro node field done
  simp only [readField, bind_eq_ok, pure_eq_ok] at done
  obtain ⟨value, readValue, rfl⟩ := done
  rw [fieldLayout, follows.body " = " _ readValue]
  rfl

theorem fields {s : Span .fields} {fields : List Field}
    (done : f.readFields read s = .ok fields) :
    f.fieldsLayout lay s = .ok (.bracketed "\x7b" "\x7d" (Field.layouts fields)) := by
  obtain ⟨nodes, inside, done⟩ := bind_eq_ok.mp done
  rw [Field.layouts_eq_map]
  exact bind_eq_ok.mpr ⟨nodes, inside, bind_eq_ok.mpr ⟨_, follows.field.mapM done, rfl⟩⟩

/-- One layer of an expression that is no application. -/
theorem exprNode {id : ExprId} {node : ExprNode} {e : Expr}
    (flat : f.arena.isFlat id = .ok e.isFlat) (done : f.readExprNode read node = .ok e)
    (other : ∀ func arg, node ≠ .app func arg) :
    f.exprNodeLayout lay id node = .ok e.layout := by
  cases node with
  | app func arg => exact absurd rfl (other func arg)
  | var _ | con _ | int _ | frac _ | char _ | string _ | varQuote _ | typeQuote _ | wildcard =>
    cases done
    rfl
  | binary left op right =>
    simp only [readExprNode, bind_eq_ok, pure_eq_ok] at done
    obtain ⟨left, readLeft, right, readRight, rfl⟩ := done
    rw [exprNodeLayout, operationLayout, flat, follows.layout readLeft,
      follows.layout readRight]
    rfl
  | neg operand | leftSection operand op | rightSection op operand | paren operand =>
    simp only [readExprNode, bind_eq_ok, pure_eq_ok] at done
    obtain ⟨operand, readOperand, rfl⟩ := done
    rw [exprNodeLayout, follows.layout readOperand]
    rfl
  | lambda params body =>
    simp only [readExprNode, bind_eq_ok, pure_eq_ok] at done
    obtain ⟨params, readParams, body, readBody, rfl⟩ := done
    rw [exprNodeLayout, follows.exprs readParams, follows.body " -> " _ readBody]
    rfl
  | tuple boxity items =>
    simp only [readExprNode, bind_eq_ok, pure_eq_ok] at done
    obtain ⟨items, readItems, rfl⟩ := done
    rw [exprNodeLayout, follows.exprs readItems]
    cases items <;> rfl
  | list items =>
    simp only [readExprNode, bind_eq_ok, pure_eq_ok] at done
    obtain ⟨ids, found, items, done, rfl⟩ := done
    rcases sliceUnlessEmpty_cases found with ⟨empty, rfl⟩ | ⟨nonempty, some, inside⟩
    · cases done
      rw [exprNodeLayout, empty]
      rfl
    · have readItems : f.readExprs read _ = .ok items := bind_eq_ok.mpr ⟨ids, inside, done⟩
      rw [exprNodeLayout, nonempty, follows.exprs readItems]
      cases items with
      | nil => cases (isEmpty_of_mapM done).trans some
      | cons item rest => rfl
  | cond condition yes no =>
    simp only [readExprNode, bind_eq_ok, pure_eq_ok] at done
    obtain ⟨condition, readCondition, yes, readYes, no, readNo, rfl⟩ := done
    rw [exprNodeLayout, follows.layout readCondition, follows.layout readYes,
      follows.layout readNo]
    rfl
  | caseOf scrutinee alts =>
    simp only [readExprNode, bind_eq_ok, pure_eq_ok] at done
    obtain ⟨scrutinee, readScrutinee, nodes, inside, alts, done, rfl⟩ := done
    rw [Expr.layout, Expr.forms, Alt.layouts_eq_map]
    exact bind_eq_ok.mpr ⟨_, follows.layout readScrutinee, bind_eq_ok.mpr ⟨nodes, inside,
      bind_eq_ok.mpr ⟨_, follows.alt.mapM done, rfl⟩⟩⟩
  | block stmts =>
    simp only [readExprNode, bind_eq_ok, pure_eq_ok] at done
    obtain ⟨nodes, inside, stmts, done, rfl⟩ := done
    rw [Expr.layout, Expr.forms, Stmt.layouts_eq_map]
    exact bind_eq_ok.mpr ⟨nodes, inside, bind_eq_ok.mpr ⟨_, follows.stmt.mapM done, rfl⟩⟩
  | letIn decls body =>
    simp only [readExprNode, bind_eq_ok, pure_eq_ok] at done
    obtain ⟨decls, readDecls, body, readBody, rfl⟩ := done
    rw [exprNodeLayout, follows.decls readDecls, follows.layout readBody]
    rfl
  | record con fields =>
    simp only [readExprNode, bind_eq_ok, pure_eq_ok] at done
    obtain ⟨fields, readFields, rfl⟩ := done
    rw [exprNodeLayout, follows.fields readFields]
    rfl
  | update record fields =>
    simp only [readExprNode, bind_eq_ok, pure_eq_ok] at done
    obtain ⟨record, readRecord, fields, readFields, rfl⟩ := done
    rw [exprNodeLayout, follows.layout readRecord, follows.fields readFields]
    rfl
  | annot expr type =>
    simp only [readExprNode, bind_eq_ok, pure_eq_ok] at done
    obtain ⟨e, readExpr, t, readType, rfl⟩ := done
    rw [exprNodeLayout, follows.layout readExpr, f.typeText_shows readType]
    rfl

end Follows

/-! ## All layers -/

section Depth

variable {lay : ExprId → Except ReadError Layout} {depth : Nat}

/-- A statement looks at the layer of its expression and lays out the one below, so the layers
at all smaller depths are needed. -/
theorem Follows.of_layouts (bounded : depth ≤ f.arena.exprs.size + 1)
    (layouts : ∀ k ≤ depth, Shows (f.readExprTo k) lay Expr.layout) :
    f.Follows (f.readExprTo depth) lay where
  layout := layouts depth (Nat.le_refl _)
  flat := f.isFlatTo_shows bounded
  statement := by
    intro id e done
    cases depth with
    | zero => cases done
    | succ depth =>
      have flat : f.arena.isFlat id = .ok e.isFlat := f.isFlatTo_shows bounded done
      have whole := layouts _ (Nat.le_refl _) done
      have below := layouts depth (Nat.le_succ _)
      obtain ⟨node, here, done⟩ := readExprTo_succ.mp done
      cases node with
      | binary left op right =>
        simp only [readExprNode, bind_eq_ok, pure_eq_ok] at done
        obtain ⟨l, readLeft, r, readRight, rfl⟩ := done
        refine bind_eq_ok.mpr ⟨_, here, ?_⟩
        show f.operationLayout lay id left op right .resume = _
        rw [operationLayout, flat, below readLeft, below readRight]
        rfl
      | _ =>
        rw [statement_of_readExprNode done (by simp)]
        exact bind_eq_ok.mpr ⟨_, here, whole⟩

/-- An application looks at the nodes of its spine and lays out its head and its arguments. -/
theorem applicationLayout_of_readExprTo (bounded : depth ≤ f.arena.exprs.size)
    (layouts : ∀ k ≤ depth, Shows (f.readExprTo k) lay Expr.layout) {id func arg : ExprId}
    {e x : Expr} (here : f.arena.get id = .ok (ExprNode.app func arg))
    (readFunc : f.readExprTo depth func = .ok e) (readArg : f.readExprTo depth arg = .ok x) :
    f.applicationLayout lay id = .ok (Expr.app e x).layout := by
  obtain ⟨head, args, found, ⟨k, le, readHead⟩, readArgs⟩ :=
    spineTo_of_readExprTo bounded readFunc [arg]
  have arguments : ∀ k ≤ depth, Shows (f.readExprTo k) (f.argumentLayout lay) Expr.argument :=
    fun k le => (Follows.of_layouts (Nat.le_succ_of_le (Nat.le_trans le bounded))
      fun j le' => layouts j (Nat.le_trans le' le)).argument
  have shown : (args ++ [arg]).mapM (f.argumentLayout lay) =
      .ok ((e.args ++ [x]).map Expr.argument) := by
    rw [mapM_eq_ok, List.forall₂_map_right_iff]
    refine List.rel_append (readArgs.imp ?_) (.cons ?_ .nil)
    · rintro arg x ⟨k, le, readArg⟩
      exact arguments k le readArg
    · exact arguments depth (Nat.le_refl _) readArg
  have spine : f.arena.spine id = .ok (head, args ++ [arg]) := bind_eq_ok.mpr ⟨_, here, found⟩
  rw [Expr.layout_app]
  exact bind_eq_ok.mpr ⟨_, spine, bind_eq_ok.mpr ⟨_, layouts k le readHead,
    bind_eq_ok.mpr ⟨_, shown, rfl⟩⟩⟩

end Depth

theorem exprLayoutTo_shows (f : Forest) {depth n : Nat} (enough : depth ≤ n)
    (bounded : depth ≤ f.arena.exprs.size + 1) :
    Shows (f.readExprTo depth) (f.exprLayoutTo n) Expr.layout := by
  -- the head of a spine and the operands of a statement may lie several layers further down
  induction depth using Nat.strongRecOn generalizing n with
  | ind depth ih =>
    intro id e done
    cases depth with
    | zero => cases done
    | succ depth =>
      cases n with
      | zero => cases enough
      | succ n =>
        have enough := Nat.le_of_succ_le_succ enough
        have layouts : ∀ k ≤ depth, Shows (f.readExprTo k) (f.exprLayoutTo n) Expr.layout :=
          fun k le => ih k (Nat.lt_succ_of_le le) (Nat.le_trans le enough)
            (Nat.le_trans le (Nat.le_of_succ_le bounded))
        have flat : f.arena.isFlat id = .ok e.isFlat := f.isFlatTo_shows bounded done
        obtain ⟨node, here, done⟩ := readExprTo_succ.mp done
        refine bind_eq_ok.mpr ⟨node, here, ?_⟩
        cases node with
        | app func arg =>
          simp only [readExprNode, bind_eq_ok, pure_eq_ok] at done
          obtain ⟨func, readFunc, arg, readArg, rfl⟩ := done
          exact applicationLayout_of_readExprTo (Nat.le_of_succ_le_succ bounded) layouts here
            readFunc readArg
        | _ =>
          have follows := Follows.of_layouts (Nat.le_of_succ_le bounded) layouts
          exact follows.exprNode flat done (by simp)

/-- An expression is laid out as its tree. -/
theorem exprLayout_shows (f : Forest) : Shows f.readExpr f.exprLayout Expr.layout :=
  f.exprLayoutTo_shows (Nat.le_refl _) (Nat.le_refl _)

theorem follows (f : Forest) : f.Follows f.readExpr f.exprLayout :=
  .of_layouts (Nat.le_refl _) fun _ le => f.exprLayoutTo_shows le le

/-- A declaration is laid out as its tree. -/
theorem declLayout_shows (f : Forest) : Shows f.readDecl f.declLayout Decl.layout :=
  f.follows.decl

/-! ## Modules -/

theorem gapAfter_eq {node : DeclNode} {d : Decl} (done : f.readDecl node = .ok d) :
    gapAfter node = Module.gap d := by
  cases node with
  | signature names type =>
    simp only [readDecl, readDeclNode, bind_eq_ok, pure_eq_ok] at done
    obtain ⟨names, -, t, -, rfl⟩ := done
    rfl
  | function name params rhs | pattern pattern rhs =>
    simp only [readDecl, readDeclNode, bind_eq_ok, pure_eq_ok] at done
    obtain ⟨_, -, rhs, -, rfl⟩ := done
    rfl

theorem layoutAfter_eq {node : DeclNode} {d : Decl} (done : f.readDecl node = .ok d)
    {nodes : List DeclNode} {ds : List Decl}
    (later : List.Forall₂ (fun node d => f.readDecl node = .ok d) nodes ds) :
    f.layoutAfter node nodes = .ok (Module.layoutAfter d ds) := by
  induction later generalizing node d with
  | nil => rfl
  | cons next later ih =>
    rw [layoutAfter, f.declLayout_shows next, ih next, gapAfter_eq done]
    rfl

/-- A module is laid out as its tree. -/
theorem moduleLayout_shows (f : Forest) : Shows f.readModule f.moduleLayout Module.layout := by
  intro s m done
  obtain ⟨nodes, inside, done⟩ := bind_eq_ok.mp done
  refine bind_eq_ok.mpr ⟨nodes, inside, ?_⟩
  cases mapM_eq_ok.mp done with
  | nil => rfl
  | cons first later =>
    exact bind_eq_ok.mpr ⟨_, f.declLayout_shows first, bind_eq_ok.mpr
      ⟨_, layoutAfter_eq first later, rfl⟩⟩

/-! ## Two forests -/

theorem printExpr_shows (f : Forest) (cfg : Config) (p : Printer) :
    Shows f.readExpr (f.printExpr · cfg p) (·.layout.run cfg p) :=
  fun _ _ done => bind_eq_ok.mpr ⟨_, f.exprLayout_shows done, rfl⟩

theorem printDecl_shows (f : Forest) (cfg : Config) (p : Printer) :
    Shows f.readDecl (f.printDecl · cfg p) (·.layout.run cfg p) :=
  fun _ _ done => bind_eq_ok.mpr ⟨_, f.declLayout_shows done, rfl⟩

theorem printModule_shows (f : Forest) (cfg : Config) (p : Printer) :
    Shows f.readModule (f.printModule · cfg p) (Module.layout · |>.run cfg p) :=
  fun _ _ done => bind_eq_ok.mpr ⟨_, f.moduleLayout_shows done, rfl⟩

end Forest

/-- Handles of two forests that hold the same tree are rendered alike: from every printer and
under all thresholds the same text is appended and the same printer is reached, and the two
expressions are both flat or both not. -/
theorem rendering_representation_independent (f g : Forest) :
    (∀ {i j : ExprId} {e : Expr}, f.readExpr i = .ok e → g.readExpr j = .ok e →
      (∃ flat, f.arena.isFlat i = .ok flat ∧ g.arena.isFlat j = .ok flat) ∧
        ∀ cfg p, ∃ q, f.printExpr i cfg p = .ok q ∧ g.printExpr j cfg p = .ok q) ∧
    (∀ {c d : DeclNode} {t : Decl}, f.readDecl c = .ok t → g.readDecl d = .ok t →
      ∀ cfg p, ∃ q, f.printDecl c cfg p = .ok q ∧ g.printDecl d cfg p = .ok q) ∧
    ∀ {s t : Span .decls} {m : Module}, f.readModule s = .ok m → g.readModule t = .ok m →
      ∀ cfg p, ∃ q, f.printModule s cfg p = .ok q ∧ g.printModule t cfg p = .ok q := by
  refine ⟨?_, ?_, ?_⟩
  · intro i j e here there
    refine ⟨⟨e.isFlat, f.follows.flat here, g.follows.flat there⟩, fun cfg p => ?_⟩
    exact ⟨_, f.printExpr_shows cfg p here, g.printExpr_shows cfg p there⟩
  · intro c d t here there cfg p
    exact ⟨_, f.printDecl_shows cfg p here, g.printDecl_shows cfg p there⟩
  · intro s t m here there cfg p
    exact ⟨_, f.printModule_shows cfg p here, g.printModule_shows cfg p there⟩

/-- A signature and a binding, `f :: a -> a` and `f x = f x x`, with every leaf held once. -/
def sharedLeaves : Forest where
  arena :=
    { exprs := #[.var ⟨2⟩, .var ⟨1⟩, .app ⟨1⟩ ⟨0⟩, .app ⟨2⟩ ⟨0⟩]
      types := #[.var ⟨3⟩, .arrow ⟨0⟩ ⟨0⟩]
      exprLists := #[⟨0⟩]
      nameLists := #[⟨1⟩]
      decls := #[.signature ⟨0, 1⟩ ⟨1⟩, .function ⟨1⟩ ⟨0, 1⟩ (.plain ⟨3⟩)] }
  names := .after .empty ["f", "x", "a"]

/-- The same declarations with a copy of every leaf, among nodes that do not belong to them,
and under other names. -/
def copiedLeaves : Forest where
  arena :=
    { exprs := #[.app ⟨1⟩ ⟨5⟩, .app ⟨2⟩ ⟨4⟩, .var ⟨4⟩, .wildcard, .var ⟨3⟩, .var ⟨3⟩, .var ⟨3⟩]
      types := #[.arrow ⟨1⟩ ⟨2⟩, .var ⟨1⟩, .var ⟨1⟩]
      exprLists := #[⟨3⟩, ⟨6⟩]
      nameLists := #[⟨2⟩, ⟨4⟩]
      decls := #[.pattern ⟨3⟩ (.plain ⟨3⟩), .signature ⟨1, 1⟩ ⟨0⟩,
        .function ⟨4⟩ ⟨1, 1⟩ (.plain ⟨0⟩)] }
  names := .after .empty ["a", "unused", "x", "f"]

/-- Sharing, order, unrelated nodes and the numbers of names leave no trace in the texts that both
forests give. -/
theorem rendering_representation_independent_leaves :
    let call : Expr := .app (.app (.var "f") (.var "x")) (.var "x")
    let m : Module := [.signature ["f"] (.arrow (.var "a") (.var "a")),
      .function "f" [.var "x"] (.plain call)]
    (sharedLeaves.readExpr ⟨3⟩ = .ok call ∧ copiedLeaves.readExpr ⟨0⟩ = .ok call) ∧
    (sharedLeaves.readModule ⟨0, 2⟩ = .ok m ∧ copiedLeaves.readModule ⟨1, 2⟩ = .ok m) ∧
    ((∃ flat, sharedLeaves.arena.isFlat ⟨3⟩ = .ok flat ∧
        copiedLeaves.arena.isFlat ⟨0⟩ = .ok flat) ∧
      ∀ cfg p, ∃ q, sharedLeaves.printExpr ⟨3⟩ cfg p = .ok q ∧
        copiedLeaves.printExpr ⟨0⟩ cfg p = .ok q) ∧
    (∀ cfg p, ∃ q, sharedLeaves.printModule ⟨0, 2⟩ cfg p = .ok q ∧
      copiedLeaves.printModule ⟨1, 2⟩ cfg p = .ok q) ∧
    (sharedLeaves.formatExpr ⟨3⟩ = .ok "f x x" ∧ copiedLeaves.formatExpr ⟨0⟩ = .ok "f x x") ∧
    sharedLeaves.formatModule ⟨0, 2⟩ = .ok "f :: a -> a\nf x = f x x\n" ∧
    copiedLeaves.formatModule ⟨1, 2⟩ = .ok "f :: a -> a\nf x = f x x\n" := by
  refine ⟨⟨rfl, rfl⟩, ⟨rfl, rfl⟩, ?_, ?_, ?_, ?_, ?_⟩
  · exact (rendering_representation_independent sharedLeaves copiedLeaves).1 rfl rfl
  · exact (rendering_representation_independent sharedLeaves copiedLeaves).2.2 rfl rfl
  · decide +kernel
  · decide +kernel
  · decide +kernel

end TrialLayout
