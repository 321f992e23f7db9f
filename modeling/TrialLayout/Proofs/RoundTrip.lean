import TrialLayout.Build.Tree
import TrialLayout.Proofs.Runs

/-!
# Building and reading

Building a tree and reading it back is the identity, in every state of every run, and leaves what
the other handles of the run stand for unchanged (`building_reads_back`).

Trees are built by calls, so what they make follows from what calls make, by induction on the
tree. Between two calls the forest only grows, and what was built for the first children is still
there when the last ones have been built. Nothing is assumed of the forest: a tree that is built
refers only to what was built for it.
-/

namespace TrialLayout

open Build Forest

variable {A : Prop} {f : Forest}

theorem Build.Makes.cons {k : Part} {P P' : Prop} {x : Build k.Handle}
    {xs : Build (List k.Handle)} {t : k.Tree} {ts : List k.Tree} (first : Makes A f k x P t)
    (rest : ∀ {f'}, (A → f'.Sound) →
      Does A f' xs P' fun hs f'' => List.Forall₂ (Means A f'' k) hs ts) :
    Does A f (x >>= fun h => xs >>= fun hs => pure (h :: hs)) (P ∧ P')
      fun hs f' => List.Forall₂ (Means A f' k) hs (t :: ts) :=
  Does.cons (R := fun h t f => Means A f k h t) (fun grows means => means.grow grows) first
    fun _ sound _ => rest sound

/-- The guards of branches are as many as those of the trees that the branches stand for. -/
theorem Forest.MeansBranch.guards_fit {branches : List (List ExprId × ExprId)}
    {bs : List Branch} (means : List.Forall₂ (MeansBranch A f) branches bs)
    (fits : Branch.AllFit bs) : ∀ b ∈ branches, b.1.length ≤ maxListLength := by
  induction means with
  | nil => simp
  | cons first _ ih =>
    obtain ⟨guards, -⟩ := first
    rw [Branch.AllFit, Branch.Fits] at fits
    exact List.forall_mem_cons.mpr ⟨guards.length_eq.trans_le fits.1.2.2, ih fits.2⟩

/-! ## Types -/

mutual

theorem Ty.build_makes (t : Ty) {f : Forest} (sound : A → f.Sound) :
    Makes A f .type t.build t.Fits t := by
  cases t with
  | con name | var name =>
    rw [Ty.build, Ty.Fits]
    exact typeLeaf_makes sound name (fun _ => rfl) (fun _ => rfl) fun _ _ _ => rfl
  | app func arg =>
    rw [Ty.build, Ty.Fits]
    refine (func.build_makes sound).bind fun _ _ sound' _ head => ?_
    refine (arg.build_makes sound').andThen fun _ _ sound'' grows last => ?_
    exact typeApp_makes sound'' (head.grow grows) (.cons last .nil)
  | arrow arg result =>
    rw [Ty.build, Ty.Fits]
    refine (arg.build_makes sound).bind fun _ _ sound' _ first => ?_
    refine (result.build_makes sound').andThen fun _ _ sound'' grows last => ?_
    exact arrow_makes sound'' (.cons (first.grow grows) (.cons last .nil))
  | tuple boxity items =>
    rw [Ty.build, Ty.Fits]
    refine (Ty.buildAll_does items sound).bind fun _ _ sound' _ means => ?_
    exact (typeTuple_makes sound' boxity means).fitting means.length_eq.trans_le
  | list element =>
    rw [Ty.build, Ty.Fits]
    exact (element.build_makes sound).andThen fun _ _ sound' _ means =>
      typeList_makes sound' means
  | paren inner =>
    rw [Ty.build, Ty.Fits]
    exact (inner.build_makes sound).andThen fun _ _ sound' _ means =>
      typeParen_makes sound' means
  | quantified binders context body =>
    rw [Ty.build, Ty.Fits]
    refine (Ty.buildAll_does context sound).bind fun _ _ sound' _ means => ?_
    refine (body.build_makes sound').bind fun _ _ sound'' grows last => ?_
    exact (quantified_makes sound'' binders (Means.all_grow means grows) last).fitting
      fun fits => ⟨fits.1, means.length_eq.trans_le fits.2⟩

theorem Ty.buildAll_does (ts : List Ty) {f : Forest} (sound : A → f.Sound) :
    Does A f (Ty.buildAll ts) (Ty.AllFit ts)
      fun hs f' => List.Forall₂ (Means A f' .type) hs ts := by
  cases ts with
  | nil =>
    rw [Ty.buildAll, Ty.AllFit]
    exact Does.pure sound .nil
  | cons t rest =>
    rw [Ty.buildAll, Ty.AllFit]
    exact (t.build_makes sound).cons fun sound' => Ty.buildAll_does rest sound'

end

/-! ## Expressions -/

mutual

theorem Expr.build_makes (e : Expr) {f : Forest} (sound : A → f.Sound) :
    Makes A f .expr e.build e.Fits e := by
  cases e with
  | var text | con text | frac text | string text | varQuote text | typeQuote text =>
    rw [Expr.build, Expr.Fits]
    exact leaf_makes sound text (fun _ => rfl) (fun _ => rfl) fun _ _ _ => rfl
  | int value | char value | wildcard =>
    rw [Expr.build, Expr.Fits]
    exact constant_makes sound rfl rfl fun _ _ => rfl
  | app func arg =>
    rw [Expr.build, Expr.Fits]
    refine (func.build_makes sound).bind fun _ _ sound' _ head => ?_
    refine (arg.build_makes sound').andThen fun _ _ sound'' grows last => ?_
    exact app_makes sound'' (head.grow grows) (.cons last .nil)
  | binary left op right =>
    rw [Expr.build, Expr.Fits]
    refine (left.build_makes sound).bind fun _ _ sound' _ first => ?_
    refine (right.build_makes sound').andThen fun _ _ sound'' grows last => ?_
    exact binary_makes sound'' op (first.grow grows) last
  | neg operand =>
    rw [Expr.build, Expr.Fits]
    exact (operand.build_makes sound).andThen fun _ _ sound' _ means => neg_makes sound' means
  | leftSection operand op =>
    rw [Expr.build, Expr.Fits]
    exact (operand.build_makes sound).andThen fun _ _ sound' _ means =>
      leftSection_makes sound' op means
  | rightSection op operand =>
    rw [Expr.build, Expr.Fits]
    exact (operand.build_makes sound).andThen fun _ _ sound' _ means =>
      rightSection_makes sound' op means
  | lambda params body =>
    rw [Expr.build, Expr.Fits]
    refine (Expr.buildAll_does params sound).bind fun _ _ sound' _ means => ?_
    refine (body.build_makes sound').bind fun _ _ sound'' grows last => ?_
    exact (lambda_makes sound'' (Means.all_grow means grows) last).fitting
      means.length_eq.trans_le
  | tuple boxity items =>
    rw [Expr.build, Expr.Fits]
    refine (Expr.buildAll_does items sound).bind fun _ _ sound' _ means => ?_
    exact (tuple_makes sound' boxity means).fitting means.length_eq.trans_le
  | list items =>
    rw [Expr.build, Expr.Fits]
    refine (Expr.buildAll_does items sound).bind fun _ _ sound' _ means => ?_
    exact (listOf_makes sound' means).fitting means.length_eq.trans_le
  | paren inner =>
    rw [Expr.build, Expr.Fits]
    exact (inner.build_makes sound).andThen fun _ _ sound' _ means => paren_makes sound' means
  | cond condition yes no =>
    rw [Expr.build, Expr.Fits]
    refine (condition.build_makes sound).bind fun _ _ sound₁ _ first => ?_
    refine (yes.build_makes sound₁).bind fun _ _ sound₂ grows second => ?_
    refine (no.build_makes sound₂).andThen fun _ _ sound₃ later third => ?_
    exact cond_makes sound₃ (first.grow (grows.trans later)) (second.grow later) third
  | caseOf scrutinee alts =>
    rw [Expr.build, Expr.Fits]
    refine (scrutinee.build_makes sound).bind fun _ _ sound' _ first => ?_
    refine (Alt.buildAll_does alts sound').bind fun _ _ sound'' grows means => ?_
    exact (caseOf_makes sound'' (first.grow grows) means).fitting means.length_eq.trans_le
  | block stmts =>
    rw [Expr.build, Expr.Fits]
    refine (Stmt.buildAll_does stmts sound).bind fun _ _ sound' _ means => ?_
    exact (block_makes sound' means).fitting means.length_eq.trans_le
  | letIn decls body =>
    rw [Expr.build, Expr.Fits]
    refine (Decl.buildAll_does decls sound).bind fun _ _ sound' _ means => ?_
    refine (body.build_makes sound').bind fun _ _ sound'' grows last => ?_
    exact (letIn_makes sound'' (Means.all_grow means grows) last).fitting
      means.length_eq.trans_le
  | record con fields =>
    rw [Expr.build, Expr.Fits]
    refine (Field.buildAll_does fields sound).bind fun _ _ sound' _ means => ?_
    exact (record_makes sound' con means).fitting
      means.length_eq.trans_le
  | update record fields =>
    rw [Expr.build, Expr.Fits]
    refine (record.build_makes sound).bind fun _ _ sound' _ first => ?_
    refine (Field.buildAll_does fields sound').bind fun _ _ sound'' grows means => ?_
    exact (update_makes sound'' (first.grow grows) means).fitting means.length_eq.trans_le
  | annot expr type =>
    rw [Expr.build, Expr.Fits]
    refine (expr.build_makes sound).bind fun _ _ sound' _ first => ?_
    refine (type.build_makes sound').andThen fun _ _ sound'' grows last => ?_
    exact annot_makes sound'' (first.grow grows) last

theorem Expr.buildAll_does (es : List Expr) {f : Forest} (sound : A → f.Sound) :
    Does A f (Expr.buildAll es) (Expr.AllFit es)
      fun hs f' => List.Forall₂ (Means A f' .expr) hs es := by
  cases es with
  | nil =>
    rw [Expr.buildAll, Expr.AllFit]
    exact Does.pure sound .nil
  | cons e rest =>
    rw [Expr.buildAll, Expr.AllFit]
    exact (e.build_makes sound).cons fun sound' => Expr.buildAll_does rest sound'

theorem Rhs.build_makes (r : Rhs) {f : Forest} (sound : A → f.Sound) :
    Makes A f .rhs r.build r.Fits r := by
  cases r with
  | plain body =>
    rw [Rhs.build, Rhs.Fits]
    exact (body.build_makes sound).andThen fun _ _ sound' _ means =>
      assembled_makes sound' means.plain
  | guarded branches =>
    rw [Rhs.build, Rhs.Fits]
    -- guards are put in lists only with the branches, so their lengths are needed twice
    refine ((Branch.buildAll_does branches sound).bind fun _ _ sound' _ means => ?_).fitting
      fun fits => ⟨fits.1, fits⟩
    exact (guarded_makes sound' means).fitting fun fits =>
      ⟨MeansBranch.guards_fit means fits.1, means.length_eq.trans_le fits.2⟩

theorem Branch.build_does (b : Branch) {f : Forest} (sound : A → f.Sound) :
    Does A f b.build b.Fits fun parts f' => MeansBranch A f' parts b := by
  obtain ⟨guards, body⟩ := b
  rw [Branch.build, Branch.Fits]
  refine ((Expr.buildAll_does guards sound).bind fun _ _ sound' _ means => ?_).fitting
    fun fits => ⟨fits.1, fits.2.1⟩
  exact (body.build_makes sound').map fun _ _ grows last =>
    ⟨Means.all_grow means grows, last⟩

theorem Branch.buildAll_does (bs : List Branch) {f : Forest} (sound : A → f.Sound) :
    Does A f (Branch.buildAll bs) (Branch.AllFit bs)
      fun parts f' => List.Forall₂ (MeansBranch A f') parts bs := by
  cases bs with
  | nil =>
    rw [Branch.buildAll, Branch.AllFit]
    exact Does.pure sound .nil
  | cons b rest =>
    rw [Branch.buildAll, Branch.AllFit]
    exact Does.cons (R := fun parts b f => MeansBranch A f parts b)
      (fun grows means => means.grow grows) (b.build_does sound)
      fun _ sound' _ => Branch.buildAll_does rest sound'

theorem Alt.build_makes (a : Alt) {f : Forest} (sound : A → f.Sound) :
    Makes A f .alt a.build a.Fits a := by
  obtain ⟨pattern, rhs⟩ := a
  rw [Alt.build, Alt.Fits]
  refine (pattern.build_makes sound).bind fun _ _ sound' _ first => ?_
  refine (rhs.build_makes sound').andThen fun _ _ sound'' grows last => ?_
  exact assembled_makes sound'' ((first.grow grows).alt last)

theorem Alt.buildAll_does (as : List Alt) {f : Forest} (sound : A → f.Sound) :
    Does A f (Alt.buildAll as) (Alt.AllFit as)
      fun hs f' => List.Forall₂ (Means A f' .alt) hs as := by
  cases as with
  | nil =>
    rw [Alt.buildAll, Alt.AllFit]
    exact Does.pure sound .nil
  | cons a rest =>
    rw [Alt.buildAll, Alt.AllFit]
    exact (a.build_makes sound).cons fun sound' => Alt.buildAll_does rest sound'

theorem Stmt.build_makes (s : Stmt) {f : Forest} (sound : A → f.Sound) :
    Makes A f .stmt s.build s.Fits s := by
  cases s with
  | bind pattern expr =>
    rw [Stmt.build, Stmt.Fits]
    refine (pattern.build_makes sound).bind fun _ _ sound' _ first => ?_
    refine (expr.build_makes sound').andThen fun _ _ sound'' grows last => ?_
    exact assembled_makes sound'' ((first.grow grows).bind last)
  | expr expr =>
    rw [Stmt.build, Stmt.Fits]
    exact (expr.build_makes sound).andThen fun _ _ sound' _ means =>
      assembled_makes sound' means.stmt
  | decls decls =>
    rw [Stmt.build, Stmt.Fits]
    refine (Decl.buildAll_does decls sound).bind fun _ _ sound' _ means => ?_
    exact (declStmt_makes sound' means).fitting means.length_eq.trans_le

theorem Stmt.buildAll_does (ss : List Stmt) {f : Forest} (sound : A → f.Sound) :
    Does A f (Stmt.buildAll ss) (Stmt.AllFit ss)
      fun hs f' => List.Forall₂ (Means A f' .stmt) hs ss := by
  cases ss with
  | nil =>
    rw [Stmt.buildAll, Stmt.AllFit]
    exact Does.pure sound .nil
  | cons s rest =>
    rw [Stmt.buildAll, Stmt.AllFit]
    exact (s.build_makes sound).cons fun sound' => Stmt.buildAll_does rest sound'

theorem Decl.build_makes (d : Decl) {f : Forest} (sound : A → f.Sound) :
    Makes A f .decl d.build d.Fits d := by
  cases d with
  | signature names type =>
    rw [Decl.build, Decl.Fits]
    exact (type.build_makes sound).bind fun _ _ sound' _ means =>
      signature_makes sound' names means
  | function name params rhs =>
    rw [Decl.build, Decl.Fits]
    refine (Expr.buildAll_does params sound).bind fun _ _ sound' _ means => ?_
    refine (rhs.build_makes sound').bind fun _ _ sound'' grows last => ?_
    exact (function_makes sound'' name (Means.all_grow means grows) last).fitting
      means.length_eq.trans_le
  | pattern pattern rhs =>
    rw [Decl.build, Decl.Fits]
    refine (pattern.build_makes sound).bind fun _ _ sound' _ first => ?_
    refine (rhs.build_makes sound').andThen fun _ _ sound'' grows last => ?_
    exact assembled_makes sound'' ((first.grow grows).pattern last)

theorem Decl.buildAll_does (ds : List Decl) {f : Forest} (sound : A → f.Sound) :
    Does A f (Decl.buildAll ds) (Decl.AllFit ds)
      fun hs f' => List.Forall₂ (Means A f' .decl) hs ds := by
  cases ds with
  | nil =>
    rw [Decl.buildAll, Decl.AllFit]
    exact Does.pure sound .nil
  | cons d rest =>
    rw [Decl.buildAll, Decl.AllFit]
    exact (d.build_makes sound).cons fun sound' => Decl.buildAll_does rest sound'

theorem Field.build_does (t : Field) {f : Forest} (sound : A → f.Sound) :
    Does A f t.build t.Fits fun entry f' => MeansField A f' entry t := by
  obtain ⟨name, value⟩ := t
  rw [Field.build, Field.Fits]
  exact (value.build_makes sound).map fun _ _ _ means => ⟨means⟩

theorem Field.buildAll_does (ts : List Field) {f : Forest} (sound : A → f.Sound) :
    Does A f (Field.buildAll ts) (Field.AllFit ts)
      fun entries f' => List.Forall₂ (MeansField A f') entries ts := by
  cases ts with
  | nil =>
    rw [Field.buildAll, Field.AllFit]
    exact Does.pure sound .nil
  | cons t rest =>
    rw [Field.buildAll, Field.AllFit]
    exact Does.cons (R := fun entry t f => MeansField A f entry t)
      (fun grows means => means.grow grows) (t.build_does sound)
      fun _ sound' _ => Field.buildAll_does rest sound'

end

/-! ## Parts -/

theorem Part.build_makes (k : Part) (t : k.Tree) (sound : A → f.Sound) :
    Makes A f k (k.build t) (k.Fits t) t := by
  cases k with
  | op => exact op_makes sound t
  | expr => exact Expr.build_makes t sound
  | type => exact Ty.build_makes t sound
  | rhs => exact Rhs.build_makes t sound
  | alt => exact Alt.build_makes t sound
  | stmt => exact Stmt.build_makes t sound
  | decl => exact Decl.build_makes t sound
  | module =>
    refine (Decl.buildAll_does t sound).bind fun _ _ sound' _ means => ?_
    exact (module_makes sound' means).fitting means.length_eq.trans_le

theorem Build.Makes.reads {k : Part} {b : Build k.Handle} {fits : Prop} {t : k.Tree}
    (makes : Makes A f k b fits t) (fit : fits) :
    ∃ h, (b.on f).1 = .ok h ∧ (b.on f).2.read k h = .ok t := by
  obtain ⟨h, done⟩ := makes.succeeds fit
  exact ⟨h, done, (makes.result h done).reads (.refl _)⟩

/-- The handles stand for trees, and for the same trees in both forests. -/
def Forest.Agree (f f' : Forest) (known : List Handle) : Prop :=
  ∀ h ∈ known, ∃ t, f.read h.part h.value = .ok t ∧ f'.read h.part h.value = .ok t

theorem Forest.Serves.agree {known : List Handle} {f' : Forest} (serves : f.Serves known)
    (grows : f.Grows f') : f.Agree f' known := by
  intro h mem
  obtain ⟨t, read, means⟩ := Means.exists_of_sound (A := True) serves.sound (serves.held h mem)
  exact ⟨t, read, means.reads grows⟩

/-- Building a tree and reading it back is the identity, whatever the forest is that it is built
in. In a state of a run the handles of the run go on to stand for what they stood for, whether or
not the tree is refused, and every further call returns a handle that stands for the tree that the
call describes. -/
theorem building_reads_back (f : Forest) :
    (∀ (k : Part) (t : k.Tree), k.Fits t →
      ∃ h, ((k.build t).on f).1 = .ok h ∧ ((k.build t).on f).2.read k h = .ok t) ∧
    ∀ known, Reached f known →
      (∀ (k : Part) (t : k.Tree), f.Agree ((k.build t).on f).2 known) ∧
      ∀ (k : Part) (c : Call k), c.uses ⊆ known →
        f.Agree (c.run.on f).2 known ∧
        ∃ t, c.tree f = .ok t ∧
          (c.Fits → ∃ h, (c.run.on f).1 = .ok h ∧ (c.run.on f).2.read k h = .ok t) := by
  refine ⟨fun k t fits => ?_, fun known reached => ⟨fun k t => ?_, fun k c uses => ?_⟩⟩
  · have makes : Makes False f k (k.build t) (k.Fits t) t := k.build_makes t False.elim
    exact makes.reads fits
  · have makes : Makes False f k (k.build t) (k.Fits t) t := k.build_makes t False.elim
    exact reached.serves.agree makes.grows
  · obtain ⟨t, tree, makes⟩ := reached.serves.call c uses
    exact ⟨reached.serves.agree makes.grows, t, tree, makes.reads⟩

/-- A function and its argument. -/
def applicable : Forest := ((Call.var "x").run.on ((Call.var "f").run.on {}).2).2

theorem applicable_reached : Reached applicable [⟨.expr, ⟨1⟩⟩, ⟨.expr, ⟨0⟩⟩] := by
  have first : Reached ((Call.var "f").run.on {}).2 [⟨.expr, ⟨0⟩⟩] :=
    .returned (c := .var "f") .start (List.nil_subset _) rfl
  exact .returned (c := .var "x") first (List.nil_subset _) rfl

/-- A declaration whose lists lie inside each other. -/
def nestedLists : Decl :=
  .function "f" [.var "x"]
    (.guarded
      [.mk [.var "p", .binary (.var "x") (.quoted "elem") (.list [.int 1, .int 2])]
        (.record "R" [.mk "s" (.annot (.var "x") (.quantified ["a", "b"] [.con "C"] (.var "a")))]),
      .mk [] (.letIn [.signature ["y", "z"] (.arrow (.con "A") (.tuple .boxed []))] (.var "y"))])

/-- The declaration is read back, and so is the function applied to its argument twice. -/
theorem building_reads_back_applicable :
    nestedLists.Fits ∧
    (∃ h, (nestedLists.build.on applicable).1 = .ok h ∧
      (nestedLists.build.on applicable).2.readDecl h = .ok nestedLists) ∧
    ∃ h, ((Call.app ⟨0⟩ [⟨1⟩, ⟨1⟩]).run.on applicable).1 = .ok h ∧
      ((Call.app ⟨0⟩ [⟨1⟩, ⟨1⟩]).run.on applicable).2.readExpr h =
        .ok (.app (.app (.var "f") (.var "x")) (.var "x")) := by
  have fits : nestedLists.Fits := by
    simp [nestedLists, Decl.Fits, Rhs.Fits, Branch.Fits, Branch.AllFit, Expr.Fits, Expr.AllFit,
      Field.Fits, Field.AllFit, Decl.AllFit, Ty.Fits, Ty.AllFit, maxListLength]
  obtain ⟨trees, runs⟩ := building_reads_back applicable
  obtain ⟨-, t, tree, returns⟩ := (runs _ applicable_reached).2 .expr (.app ⟨0⟩ [⟨1⟩, ⟨1⟩])
    (by simp [Call.uses])
  have same : (Call.app ⟨0⟩ [⟨1⟩, ⟨1⟩]).tree applicable =
      .ok (.app (.app (.var "f") (.var "x")) (.var "x")) := rfl
  cases tree.symm.trans same
  exact ⟨fits, trees .decl nestedLists fits, returns (by decide)⟩

end TrialLayout
