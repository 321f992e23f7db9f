import TrialLayout.Proofs.Runs

/-!
# Spines and currying

A call with several arguments is built as applications that nest to the left, and an arrow with
several components as arrows that nest to the right. Rendering takes both apart again: the spine
of a call is collected from its last argument to the first, the components of an arrow from the
first to the last. Taking apart undoes building, also where the function is a call itself or the
last component an arrow.

* One application or arrow more, put behind what is there, gives one argument or component more
  (`Arena.spine_pushNode`, `Arena.arrows_pushNode`). What is there keeps its spine, since nodes are
  only added (`Arena.Grows.spineTo`, `Arena.Grows.arrowsTo`).
* A whole call and a whole arrow follow by induction over the arguments and the components, in any
  forest in which the function or the last component can be taken apart (`Build.app_spine`,
  `Build.arrow_arrows`).
* In the states of runs everything that is there can be taken apart (`Forest.Sound.spine`,
  `Forest.Sound.arrows`).

Result: `spines_undo_currying`.
-/

namespace TrialLayout

/-! ## Taking apart -/

namespace Arena

variable {a a' : Arena}

/-- The arguments that were collected before stay behind those that are collected. -/
theorem spineTo_append (depth : Nat) (id : ExprId) (args more : List ExprId) :
    a.spineTo depth id (args ++ more) =
      (a.spineTo depth id args).map fun spine => (spine.1, spine.2 ++ more) := by
  induction depth generalizing id args with
  | zero => rfl
  | succ depth ih =>
    rw [spineTo, spineTo]
    cases a.get id with
    | error e => rfl
    | ok node =>
      cases node with
      | app func arg => exact ih func (arg :: args)
      | _ => rfl

/-- What is added later does not change a spine. -/
theorem Grows.spineTo (grows : a.Grows a') {depth depth' : Nat} (deeper : depth ≤ depth')
    (id : ExprId) (args : List ExprId) :
    Extends (a.spineTo depth id args) (a'.spineTo depth' id args) := by
  induction depth generalizing depth' id args with
  | zero => exact fun _ done => nomatch done
  | succ depth ih =>
    obtain ⟨rest, rfl⟩ := Nat.exists_eq_add_of_le' deeper
    refine (grows.get id).bind fun node _ => ?_
    cases node with
    | app func arg => exact ih (Nat.le_add_left depth rest) func (arg :: args)
    | _ => exact .refl _

/-- What is added later does not change the components of an arrow. -/
theorem Grows.arrowsTo (grows : a.Grows a') {depth depth' : Nat} (deeper : depth ≤ depth')
    (id : TypeId) : Extends (a.arrowsTo depth id) (a'.arrowsTo depth' id) := by
  induction depth generalizing depth' id with
  | zero => exact fun _ done => nomatch done
  | succ depth ih =>
    obtain ⟨rest, rfl⟩ := Nat.exists_eq_add_of_le' deeper
    refine (grows.get id).bind fun node _ => ?_
    cases node with
    | arrow arg result => exact (ih (Nat.le_add_left depth rest) result).map (arg :: ·)
    | _ => exact .refl _

/-- What is no application is its own head. -/
theorem spine_of_ne_app {id : ExprId} {node : ExprNode} (found : a.get id = .ok node)
    (other : ∀ func arg, node ≠ .app func arg) : a.spine id = .ok (id, []) := by
  rw [spine, spineTo, found]
  cases node with
  | app func arg => exact absurd rfl (other func arg)
  | _ => rfl

/-- What is no arrow is its own component. -/
theorem arrows_of_ne_arrow {id : TypeId} {node : TypeNode} (found : a.get id = .ok node)
    (other : ∀ arg result, node ≠ .arrow arg result) : a.arrows id = .ok [id] := by
  rw [arrows, arrowsTo, found]
  cases node with
  | arrow arg result => exact absurd rfl (other arg result)
  | _ => rfl

/-- A new application has the spine of its function and one argument more. -/
theorem spine_pushNode {func head : ExprId} {own : List ExprId}
    (spine : a.spine func = .ok (head, own)) (arg : ExprId) :
    (a.pushNode .expr (.app func arg)).spine ⟨a.exprs.size⟩ = .ok (head, own ++ [arg]) := by
  have found := Build.get_pushNode a .expr (.app func arg)
  have size : (a.pushNode .expr (.app func arg)).exprs.size = a.exprs.size + 1 :=
    Array.size_push ..
  have kept := (Grows.pushNode a .expr (.app func arg)).spineTo (Nat.le_refl _) func []
    (head, own) spine
  calc (a.pushNode .expr (.app func arg)).spine ⟨a.exprs.size⟩
    _ = (a.pushNode .expr (.app func arg)).spineTo (a.exprs.size + 1) func ([] ++ [arg]) := by
      rw [Arena.spine, size, spineTo]
      exact congrArg (· >>= _) found
    _ = .ok (head, own ++ [arg]) := by
      rw [spineTo_append, kept]
      rfl

/-- A new arrow has the components of its result and one component in front. -/
theorem arrows_pushNode {result : TypeId} {own : List TypeId}
    (arrows : a.arrows result = .ok own) (arg : TypeId) :
    (a.pushNode .type (.arrow arg result)).arrows ⟨a.types.size⟩ = .ok (arg :: own) := by
  have found := Build.get_pushNode a .type (.arrow arg result)
  have size : (a.pushNode .type (.arrow arg result)).types.size = a.types.size + 1 :=
    Array.size_push ..
  have kept := (Grows.pushNode a .type (.arrow arg result)).arrowsTo (Nat.le_refl _) result
    own arrows
  calc (a.pushNode .type (.arrow arg result)).arrows ⟨a.types.size⟩
    _ = (a.pushNode .type (.arrow arg result)).arrowsTo (a.types.size + 1) result >>=
        fun rest => pure (arg :: rest) := by
      rw [Arena.arrows, size, arrowsTo]
      exact congrArg (· >>= _) found
    _ = .ok (arg :: own) := by
      rw [kept]
      rfl

end Arena

/-! ## Building -/

namespace Build

/-- A call has the spine of its function, followed by the arguments it was given. -/
theorem app_spine {f : Forest} {func head : ExprId} {own : List ExprId}
    (spine : f.arena.spine func = .ok (head, own)) (args : List ExprId) :
    ∃ id f', (app func args).on f = (.ok id, f') ∧
      f'.arena.spine id = .ok (head, own ++ args) := by
  -- each application is the function of the next, so its arguments are those so far
  induction args generalizing f func own with
  | nil => exact ⟨func, f, rfl, by rw [spine, List.append_nil]⟩
  | cons arg rest ih =>
    obtain ⟨id, f', built, whole⟩ := ih (f := { f with arena := _ })
      (Arena.spine_pushNode spine arg)
    refine ⟨id, f', ?_, by rw [whole, List.append_assoc, List.singleton_append]⟩
    rw [app, List.foldlM_cons, on_bind]
    exact built

/-- An arrow has the components it was given, the last one replaced by its own. -/
theorem arrow_arrows {f : Forest} {last : TypeId} {own : List TypeId}
    (arrows : f.arena.arrows last = .ok own) (before : List TypeId) :
    ∃ id f', (arrow (before ++ [last])).on f = (.ok id, f') ∧
      f'.arena.arrows id = .ok (before ++ own) := by
  induction before with
  | nil => exact ⟨last, f, rfl, arrows⟩
  | cons arg rest ih =>
    obtain ⟨result, f', built, inner⟩ := ih
    have step : arrow (arg :: (rest ++ [last])) =
        arrow (rest ++ [last]) >>= fun result => type (.arrow arg result) := by
      cases rest <;> rfl
    refine ⟨⟨f'.arena.types.size⟩, { f' with arena := f'.arena.pushNode .type (.arrow arg result) },
      ?_, Arena.arrows_pushNode inner arg⟩
    rw [List.cons_append, step, on_bind, built]
    rfl

end Build

/-! ## States of runs -/

namespace Forest.Sound

variable {f : Forest}

theorem spine (sound : f.Sound) {func : ExprId} (holds : f.arena.Holds func) :
    ∃ head own, f.arena.spine func = .ok (head, own) := by
  have enough := Nat.lt_succ_of_le (Arena.height_le sound.acyclic func)
  obtain ⟨⟨head, own⟩, found⟩ :=
    (spineTo_within sound.acyclic enough []).1.succeeds (sound.bounds.intact holds)
  exact ⟨head, own, found⟩

theorem arrows (sound : f.Sound) {last : TypeId} (holds : f.arena.Holds last) :
    ∃ own, f.arena.arrows last = .ok own := by
  have enough := Nat.lt_succ_of_le (Arena.height_le sound.acyclic last)
  exact (arrowsTo_within sound.acyclic enough).1.succeeds (sound.bounds.intact holds)

end Forest.Sound

/-- In every state of a run, taking apart undoes building. The spine of a call has the head of the
function's spine, and the arguments of the function's spine followed by those of the call; if the
function is no application, these are the function and the arguments of the call. The components
of an arrow are those it was given, with the last one replaced by its own components; if that is
no arrow, they are those it was given. Function and last component may be any node that is there,
the others are not looked at. -/
theorem spines_undo_currying {f : Forest} {known : List Handle} (reached : Reached f known) :
    (∀ func : ExprId, f.arena.Holds func → ∀ args : List ExprId, ∃ head own id f',
      f.arena.spine func = .ok (head, own) ∧
      (Build.app func args).on f = (.ok id, f') ∧
      f'.arena.spine id = .ok (head, own ++ args) ∧
      ((∀ g x, f.arena.get func ≠ .ok (ExprNode.app g x)) →
        f'.arena.spine id = .ok (func, args))) ∧
    (∀ last : TypeId, f.arena.Holds last → ∀ before : List TypeId, ∃ own id f',
      f.arena.arrows last = .ok own ∧
      (Build.arrow (before ++ [last])).on f = (.ok id, f') ∧
      f'.arena.arrows id = .ok (before ++ own) ∧
      ((∀ t r, f.arena.get last ≠ .ok (TypeNode.arrow t r)) →
        f'.arena.arrows id = .ok (before ++ [last]))) ∧
    ∀ h ∈ known, f.Held h.part h.value := by
  obtain ⟨sound, held⟩ := reached.serves
  refine ⟨fun func holds args => ?_, fun last holds before => ?_, held⟩
  · obtain ⟨head, own, spine⟩ := sound.spine holds
    obtain ⟨id, f', built, whole⟩ := Build.app_spine spine args
    refine ⟨head, own, id, f', spine, built, whole, fun other => ?_⟩
    obtain ⟨node, found⟩ := Arena.get_of_holds holds
    have alone := Arena.spine_of_ne_app found fun g x same => other g x (same ▸ found)
    cases spine.symm.trans alone
    exact whole
  · obtain ⟨own, arrows⟩ := sound.arrows holds
    obtain ⟨id, f', built, whole⟩ := Build.arrow_arrows arrows before
    refine ⟨own, id, f', arrows, built, whole, fun other => ?_⟩
    obtain ⟨node, found⟩ := Arena.get_of_holds holds
    have alone := Arena.arrows_of_ne_arrow found fun t r same => other t r (same ▸ found)
    cases arrows.symm.trans alone
    exact whole

/-- A call `f x`, and an arrow `t -> t`. -/
def curried : Forest :=
  ((Call.arrow [⟨0⟩, ⟨0⟩]).run.on ((Call.typeVar "t").run.on ((Call.app ⟨0⟩ [⟨1⟩]).run.on
    ((Call.var "x").run.on ((Call.var "f").run.on {}).2).2).2).2).2

theorem curried_reached : Reached curried
    [⟨.type, ⟨1⟩⟩, ⟨.type, ⟨0⟩⟩, ⟨.expr, ⟨2⟩⟩, ⟨.expr, ⟨1⟩⟩, ⟨.expr, ⟨0⟩⟩] := by
  refine .returned (c := .arrow [⟨0⟩, ⟨0⟩]) (.returned (c := .typeVar "t") (.returned
    (c := .app ⟨0⟩ [⟨1⟩]) (.returned (c := .var "x") (.returned (c := .var "f") .start ?_ rfl)
      ?_ rfl) ?_ rfl) ?_ rfl) ?_ rfl <;>
    simp [Call.uses]

/-- The call `f x` is applied to two more arguments, and the arrow is the result of another one. -/
theorem spines_undo_currying_nested :
    Reached curried [⟨.type, ⟨1⟩⟩, ⟨.type, ⟨0⟩⟩, ⟨.expr, ⟨2⟩⟩, ⟨.expr, ⟨1⟩⟩, ⟨.expr, ⟨0⟩⟩] ∧
    (∃ id f', (Build.app ⟨2⟩ [⟨1⟩, ⟨0⟩]).on curried = (.ok id, f') ∧
      f'.arena.spine id = .ok (⟨0⟩, [⟨1⟩, ⟨1⟩, ⟨0⟩])) ∧
    ∃ id f', (Build.arrow [⟨0⟩, ⟨1⟩]).on curried = (.ok id, f') ∧
      f'.arena.arrows id = .ok [⟨0⟩, ⟨0⟩, ⟨0⟩] := by
  obtain ⟨calls, arrows, -⟩ := spines_undo_currying curried_reached
  refine ⟨curried_reached, ?_, ?_⟩
  · obtain ⟨head, own, id, f', spine, built, whole, -⟩ := calls ⟨2⟩ (by decide) [⟨1⟩, ⟨0⟩]
    have known : curried.arena.spine ⟨2⟩ = .ok (⟨0⟩, [⟨1⟩]) := rfl
    cases known.symm.trans spine
    exact ⟨id, f', built, whole⟩
  · obtain ⟨own, id, f', components, built, whole, -⟩ := arrows ⟨1⟩ (by decide) [⟨0⟩]
    have known : curried.arena.arrows ⟨1⟩ = .ok [⟨0⟩, ⟨0⟩] := rfl
    cases known.symm.trans components
    exact ⟨id, f', built, whole⟩

end TrialLayout
