import TrialLayout.Proofs.Calls
import TrialLayout.Proofs.OnDemand

/-!
# Runs of the builder

In every state of every run the forest is sound and the handles of the run are there
(`Reached.serves`). A call refers only to what it was given and to what it has made itself, and
that is so as well for what a refused call has made before it was refused.

Hence whatever was built can be rendered, under all thresholds and from all printers
(`built_trees_render`).
-/

namespace TrialLayout

open Build Forest Relation

variable {f f' : Forest} {known : List Handle} {k : Part}

/-! ## The invariant -/

/-- The forest is sound and the handles are there. -/
structure Forest.Serves (f : Forest) (known : List Handle) : Prop where
  sound : f.Sound
  held : ∀ h ∈ known, f.Held h.part h.value

namespace Forest.Serves

/-- What a call on such handles does. -/
theorem call (serves : f.Serves known) (c : Call k) (uses : c.uses ⊆ known) :
    ∃ t, c.tree f = .ok t ∧ Makes True f k c.run c.Fits t :=
  c.makes serves.sound fun h mem => serves.held h (uses mem)

theorem grow (serves : f.Serves known) (sound : f'.Sound) (grows : f.Grows f') :
    f'.Serves known :=
  ⟨sound, fun h mem => (serves.held h mem).grow grows⟩

end Forest.Serves

theorem Reached.serves (reached : Reached f known) : f.Serves known := by
  induction reached with
  | start => exact ⟨.empty, List.forall_mem_nil _⟩
  | @returned f f' known k c h _ uses done ih =>
    obtain ⟨t, -, sound, grows, -, result⟩ := ih.call c uses
    rw [done] at sound grows result
    have before := ih.grow (sound trivial) grows
    exact ⟨before.sound, List.forall_mem_cons.mpr ⟨(result h rfl).held trivial, before.held⟩⟩
  | @refused f f' known k c e _ uses done ih =>
    obtain ⟨t, -, sound, grows, -, -⟩ := ih.call c uses
    rw [done] at sound grows
    exact ih.grow (sound trivial) grows

/-! ## Rendering -/

/-- What is asked of a handle gets an answer: whether an expression is flat, and rendering. -/
def Forest.Renders (f : Forest) (cfg : Config) (p : Printer) : (k : Part) → k.Handle → Prop
  | .op, _ => True
  | .expr, id => Succeeds (f.arena.isFlat id) ∧ Succeeds (f.renderExpr cfg id p) ∧
      Succeeds (f.printExpr id cfg p)
  | .type, id => Succeeds (f.typeText id) ∧ Succeeds (f.renderType id p)
  | .rhs, rhs => ∀ separator, Succeeds (f.renderRhs cfg (f.renderExpr cfg) separator rhs p)
  | .alt, a => Succeeds (f.renderAlt cfg (f.renderExpr cfg) a p)
  | .stmt, s => Succeeds (f.renderStmt cfg (f.renderExpr cfg) s p)
  | .decl, d => Succeeds (f.renderDecl cfg d p) ∧ Succeeds (f.printDecl d cfg p)
  | .module, s => Succeeds (f.renderModule cfg s p) ∧ Succeeds (f.printModule s cfg p)

theorem Forest.renders_of_intact (acyclic : f.arena.Acyclic) {h : k.Handle}
    (intact : ∀ r ∈ k.refs h, f.arena.Intact r) (cfg : Config) (p : Printer) :
    f.Renders cfg p k h := by
  have below : ∀ r, f.Drawn cfg (f.renderExpr cfg) f.exprLayout r := renderExpr_drawn acyclic
  cases k with
  | op => trivial
  | expr =>
    have whole := intact _ List.mem_cons_self
    exact ⟨(isFlat_within acyclic h).succeeds whole, (renderExpr_draws acyclic h).succeeds whole p⟩
  | type =>
    have whole := intact _ List.mem_cons_self
    have drawn : Draws cfg (f.renderType h) _ _ := renderType_draws acyclic h
    exact ⟨(typeText_decides acyclic h).succeeds whole, (drawn.succeeds whole p).1⟩
  | rhs =>
    exact fun separator =>
      ((renderRhs_draws acyclic separator h fun r _ => below r).succeeds intact p).1
  | alt => exact ((renderAlt_draws acyclic h fun r _ => below r).succeeds intact p).1
  | stmt => exact ((renderStmt_draws acyclic h fun r _ => below r).succeeds intact p).1
  | decl => exact (renderDecl_draws acyclic h).succeeds intact p
  | module =>
    exact (renderModule_draws acyclic h).succeeds (intact _ List.mem_cons_self) p

theorem Forest.Sound.renders (sound : f.Sound) {h : k.Handle} (held : f.Held k h) (cfg : Config)
    (p : Printer) : f.Renders cfg p k h :=
  renders_of_intact sound.acyclic (fun r mem => sound.bounds.intact (held.refs r mem)) cfg p

/-- In every state of a run references are in bounds, nodes lead only to nodes of their kind that
have smaller numbers, and all handles of the run can be rendered, under all thresholds and from
all printers. -/
theorem built_trees_render {f : Forest} {known : List Handle} (reached : Reached f known) :
    f.arena.InBounds ∧
    (∀ (kind : NodeKind) (i j : Id kind), TransGen f.arena.Leads i j → j.raw < i.raw) ∧
    ∀ h ∈ known, ∀ cfg p, f.Renders cfg p h.part h.value := by
  obtain ⟨sound, held⟩ := reached.serves
  exact ⟨sound.bounds, fun _ _ _ path => sound.descends path,
    fun h mem cfg p => sound.renders (held h mem) cfg p⟩

/-- A tuple that is too long is refused, and its items stay. -/
theorem tuple_refused {items : List ExprId} (long : maxListLength < items.length)
    (boxity : Boxity) (f : Forest) :
    (Call.tuple boxity items).run.on f =
      (.error ⟨.exprs, items.length⟩, { f with arena := f.arena.append .exprs items }) := by
  obtain ⟨item, rest, rfl⟩ := List.exists_cons_of_length_pos (Nat.zero_lt_of_lt long)
  rw [Call.run, Build.tuple, on_bind, list_on, if_neg (Nat.not_le_of_lt long)]

/-- A variable, and a tuple of `copies` of it that was refused. -/
def spoiled (copies : Nat) : Forest where
  names := ((Call.var "x").run.on {}).2.names
  arena := ((Call.var "x").run.on {}).2.arena.append .exprs (List.replicate copies ⟨0⟩)

theorem spoiled_reached {copies : Nat} (many : maxListLength < copies) :
    Reached (spoiled copies) [⟨.expr, ⟨0⟩⟩] := by
  have first : Reached ((Call.var "x").run.on {}).2 [⟨.expr, ⟨0⟩⟩] :=
    .returned (c := .var "x") .start (List.nil_subset _) rfl
  refine .refused (c := .tuple .boxed (List.replicate copies ⟨0⟩)) first ?_
    (tuple_refused ?_ .boxed _)
  · intro h mem
    obtain ⟨id, copy, rfl⟩ := List.mem_map.mp mem
    cases List.eq_of_mem_replicate copy
    exact List.mem_cons_self
  · rw [List.length_replicate]
    exact many

/-- The variable can be put in a list after the tuple was refused, and the list can be rendered. -/
theorem built_trees_render_spoiled :
    Reached ((Call.list [⟨0⟩, ⟨0⟩]).run.on (spoiled 65536)).2 [⟨.expr, ⟨1⟩⟩, ⟨.expr, ⟨0⟩⟩] ∧
    ∀ cfg p, Succeeds (((Call.list [⟨0⟩, ⟨0⟩]).run.on (spoiled 65536)).2.renderExpr cfg ⟨1⟩ p) := by
  have reached : Reached ((Call.list [⟨0⟩, ⟨0⟩]).run.on (spoiled 65536)).2
      [⟨.expr, ⟨1⟩⟩, ⟨.expr, ⟨0⟩⟩] :=
    .returned (c := .list [⟨0⟩, ⟨0⟩]) (spoiled_reached (by decide)) (by simp [Call.uses]) rfl
  exact ⟨reached, fun cfg p =>
    ((built_trees_render reached).2.2 ⟨.expr, ⟨1⟩⟩ List.mem_cons_self cfg p).2.1⟩

end TrialLayout
