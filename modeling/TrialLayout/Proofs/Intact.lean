import TrialLayout.Proofs.Totality

/-!
# What has to be in bounds

Whether something that is read from an arena succeeds is decided by the references behind it. A
reference is intact if every reference that can be reached from it is in bounds, where the range
of the items of a list, of the binders of a quantified type and of its context does not count if
it is empty.

* `Decides x P`: `x` succeeds if `P` holds and meets a reference out of bounds if it does not.
  `Within x P` promises the first half and no other failure.
* In an acyclic arena the text of a type is decided by its number being intact
  (`typeText_decides`). The questions about shapes read less than the whole and stay within it
  (`isFlat_within`, `spine_within`).

The depth that is needed is the number of nodes below, and one more for a reference that is out
of bounds (`Arena.height`).
-/

namespace TrialLayout

open Relation

/-! ## Deciding success -/

section Success

variable {α β : Type} {P Q : Prop}

/-- Success if `P` holds, and a reference out of bounds if it does not. -/
structure Decides (x : Except ReadError α) (P : Prop) : Prop where
  succeeds : P → Succeeds x
  fails : ¬P → x = .error .outOfBounds

/-- Success if `P` holds, and no failure but a reference out of bounds. -/
structure Within (x : Except ReadError α) (P : Prop) : Prop where
  succeeds : P → Succeeds x
  fails : ∀ e, x = .error e → e = .outOfBounds

theorem Decides.within {x : Except ReadError α} (decides : Decides x P) : Within x P where
  succeeds := decides.succeeds
  fails := by
    intro e failed
    by_cases holds : P
    · obtain ⟨a, found⟩ := decides.succeeds holds
      cases found.symm.trans failed
    · cases (decides.fails holds).symm.trans failed
      rfl

theorem Decides.congr {x : Except ReadError α} (decides : Decides x P) (same : P ↔ Q) :
    Decides x Q :=
  ⟨fun q => decides.succeeds (same.mpr q), fun not => decides.fails fun p => not (same.mp p)⟩

theorem Decides.pure (a : α) : Decides (.ok a) True :=
  ⟨fun _ => ⟨a, rfl⟩, fun not => absurd trivial not⟩

theorem Within.mono {x : Except ReadError α} (first : Within x P) (need : Q → P) : Within x Q :=
  ⟨fun q => first.succeeds (need q), first.fails⟩

theorem Within.pure (a : α) : Within (.ok a) P :=
  ⟨fun _ => ⟨a, rfl⟩, by simp⟩

/-- What is asked first may need less than what follows. -/
theorem Within.bind_decides {x : Except ReadError α} {g : α → Except ReadError β}
    (first : Within x P) (next : ∀ a, x = .ok a → Decides (g a) P) : Decides (x >>= g) P where
  succeeds := fun p => .bind (first.succeeds p) fun a found => (next a found).succeeds p
  fails := by
    intro not
    cases h : x with
    | error e =>
      rw [first.fails e h]
      rfl
    | ok a => exact (next a h).fails not

/-- If nothing fails but by a reference out of bounds, the order of reading does not matter. -/
theorem Within.bind_comm {γ : Type} {x : Except ReadError α} {y : Except ReadError β}
    (first : Within x P) (second : Within y Q) (g : α → β → Except ReadError γ) :
    (x >>= fun a => y >>= fun b => g a b) = (y >>= fun b => x >>= fun a => g a b) := by
  cases x with
  | ok a => cases y <;> rfl
  | error e =>
    cases y with
    | ok b => rfl
    | error e' =>
      rw [first.fails e rfl, second.fails e' rfl]
      rfl

theorem Within.bind {x : Except ReadError α} {g : α → Except ReadError β}
    (first : Within x P) (next : ∀ a, x = .ok a → Within (g a) P) : Within (x >>= g) P where
  succeeds := fun p => .bind (first.succeeds p) fun a found => (next a found).succeeds p
  fails := by
    intro e failed
    cases h : x with
    | error e' =>
      rw [h] at failed
      cases failed
      exact first.fails e h
    | ok a =>
      rw [h] at failed
      exact (next a h).fails e failed

theorem Decides.bind {x : Except ReadError α} {g : α → Except ReadError β}
    (first : Decides x P) (next : ∀ a, x = .ok a → Decides (g a) Q) :
    Decides (x >>= g) (P ∧ Q) where
  succeeds := fun ⟨p, q⟩ => .bind (first.succeeds p) fun a found => (next a found).succeeds q
  fails := by
    intro not
    by_cases p : P
    · obtain ⟨a, found⟩ := first.succeeds p
      rw [found]
      exact (next a found).fails fun q => not ⟨p, q⟩
    · rw [first.fails p]
      rfl

/-- What follows may need less than what is asked first. -/
theorem Decides.bind_within {x : Except ReadError α} {g : α → Except ReadError β}
    (first : Decides x P) (next : ∀ a, x = .ok a → Within (g a) P) : Decides (x >>= g) P where
  succeeds := fun p => .bind (first.succeeds p) fun a found => (next a found).succeeds p
  fails := by
    intro not
    rw [first.fails not]
    rfl

theorem Decides.map {x : Except ReadError α} (decides : Decides x P) (g : α → β) :
    Decides (x >>= fun a => .ok (g a)) P :=
  (decides.bind fun a _ => .pure (g a)).congr (and_iff_left trivial)

theorem Decides.mapM {g : α → Except ReadError β} {R : α → Prop} {xs : List α}
    (each : ∀ x ∈ xs, Decides (g x) (R x)) : Decides (xs.mapM g) (∀ x ∈ xs, R x) := by
  induction xs with
  | nil => exact (Decides.pure []).congr (by simp)
  | cons x rest ih =>
    rw [List.forall_mem_cons] at each
    rw [List.mapM_cons, List.forall_mem_cons]
    exact each.1.bind fun y _ => (ih each.2).map (y :: ·)

theorem Within.mapM {g : α → Except ReadError β} {xs : List α}
    (each : ∀ x ∈ xs, Within (g x) P) : Within (xs.mapM g) P := by
  induction xs with
  | nil => exact .pure []
  | cons x rest ih =>
    rw [List.forall_mem_cons] at each
    rw [List.mapM_cons]
    exact each.1.bind fun y _ => (ih each.2).bind fun ys _ => .pure (y :: ys)

end Success

/-! ## Intact references -/

/-- The reference to a list that is passed over if it is empty. -/
def Span.needs {pool : Pool} (s : Span pool) : List Ref :=
  if s.isEmpty then [] else [Ref.list pool s]

/-- The references of a type that have to be in bounds. -/
def TypeNode.needs : TypeNode → List Ref
  | .quantified binders context body => binders.needs ++ context.needs ++ [Ref.node .type body]
  | node => node.refs

/-- The references of an expression that have to be in bounds. -/
def ExprNode.needs : ExprNode → List Ref
  | .list items => items.needs
  | node => node.refs

/-- The references of a node that have to be in bounds. -/
def NodeKind.needs : (kind : NodeKind) → kind.Node → List Ref
  | expr, node => ExprNode.needs node
  | type, node => TypeNode.needs node

theorem Span.refs_of_needs {pool : Pool} {s : Span pool} {r : Ref} (mem : r ∈ s.needs) :
    r = Ref.list pool s := by
  unfold needs at mem
  split at mem
  · cases mem
  · exact List.mem_singleton.mp mem

theorem NodeKind.refs_of_needs {kind : NodeKind} {node : kind.Node} {r : Ref}
    (mem : r ∈ kind.needs node) : r ∈ kind.refs node := by
  cases kind with
  | expr =>
    cases node with
    | list items => exact List.mem_singleton.mpr (Span.refs_of_needs mem)
    | _ => exact mem
  | type =>
    cases node with
    | quantified binders context body =>
      rw [needs, TypeNode.needs, List.mem_append, List.mem_append] at mem
      rw [refs, TypeNode.refs, List.mem_cons, List.mem_cons]
      rcases mem with (inBinders | inContext) | inBody
      · exact .inl (Span.refs_of_needs inBinders)
      · exact .inr (.inl (Span.refs_of_needs inContext))
      · exact .inr (.inr inBody)
    | _ => exact mem

namespace Arena

variable {a : Arena}

/-- Reading what the first reference addresses reads the second. -/
inductive Needs (a : Arena) : Ref → Ref → Prop
  | node {kind : NodeKind} {id : Id kind} {node : kind.Node} {r : Ref} :
      a.get id = .ok node → r ∈ kind.needs node → Needs a id r
  | item {pool : Pool} {s : Span pool} {items : List pool.Item} {item : pool.Item} {r : Ref} :
      a.slice s = .ok items → item ∈ items → r ∈ pool.refs item → Needs a s r

/-- Whatever is reached from a reference is in bounds. -/
def Intact (a : Arena) (r : Ref) : Prop := ∀ r', ReflTransGen a.Needs r r' → a.Holds r'

theorem Intact.holds {r : Ref} (intact : a.Intact r) : a.Holds r := intact r .refl

/-- In an arena without dangling references, what is in bounds is intact. -/
theorem InBounds.intact (bounds : a.InBounds) {r : Ref} (h : a.Holds r) : a.Intact r := by
  intro r' path
  refine bounds.holds_of_reaches h (ReflTransGen.mono (fun r r' needs => ?_) _ _ path)
  cases needs with
  | node found mem => exact .node found (NodeKind.refs_of_needs mem)
  | item found mem mem' => exact .item found mem mem'

theorem intact_iff {r : Ref} :
    a.Intact r ↔ a.Holds r ∧ ∀ r', a.Needs r r' → a.Intact r' := by
  constructor
  · exact fun intact => ⟨intact.holds, fun r' needs r'' path => intact r'' (path.head needs)⟩
  · rintro ⟨holds, later⟩ r' path
    rcases ReflTransGen.cases_head path with rfl | ⟨next, needs, path⟩
    · exact holds
    · exact later next needs r' path

theorem holds_of_get {kind : NodeKind} {id : Id kind} {node : kind.Node}
    (found : a.get id = .ok node) : a.Holds id :=
  (Array.getElem?_eq_some_iff.mp (getElem?_of_get found)).1

theorem holds_of_slice {pool : Pool} {s : Span pool} {items : List pool.Item}
    (found : a.slice s = .ok items) : a.Holds s := by
  unfold slice at found
  split at found
  next inside => exact inside
  next => cases found

theorem intact_node {kind : NodeKind} {id : Id kind} {node : kind.Node}
    (found : a.get id = .ok node) : a.Intact id ↔ ∀ r ∈ kind.needs node, a.Intact r := by
  rw [intact_iff]
  constructor
  · exact fun ⟨_, later⟩ r mem => later r (.node found mem)
  · refine fun each => ⟨holds_of_get found, fun r needs => ?_⟩
    cases needs with
    | node found' mem =>
      cases found.symm.trans found'
      exact each r mem

theorem intact_list {pool : Pool} {s : Span pool} {items : List pool.Item}
    (found : a.slice s = .ok items) :
    a.Intact s ↔ ∀ item ∈ items, ∀ r ∈ pool.refs item, a.Intact r := by
  rw [intact_iff]
  constructor
  · exact fun ⟨_, later⟩ item mem r mem' => later r (.item found mem mem')
  · refine fun each => ⟨holds_of_slice found, fun r needs => ?_⟩
    cases needs with
    | item found' mem mem' =>
      cases found.symm.trans found'
      exact each _ mem r mem'

theorem get_within (a : Arena) {kind : NodeKind} (id : Id kind) :
    Within (a.get id) (a.Intact id) where
  succeeds := fun intact => get_of_holds intact.holds
  fails := by
    intro e failed
    unfold get at failed
    split at failed
    · cases failed
    · cases failed
      rfl

theorem slice_within (a : Arena) {pool : Pool} (s : Span pool) :
    Within (a.slice s) (a.Intact s) where
  succeeds := fun intact => slice_of_holds intact.holds
  fails := by
    intro e failed
    unfold slice at failed
    split at failed
    · cases failed
    · cases failed
      rfl

/-- What is made of a node is decided by its number if it is decided by its references. -/
theorem get_decides {α : Type} {kind : NodeKind} {id : Id kind}
    {g : kind.Node → Except ReadError α}
    (next : ∀ node, a.get id = .ok node →
      Decides (g node) (∀ r ∈ kind.needs node, a.Intact r)) :
    Decides (a.get id >>= g) (a.Intact id) :=
  (a.get_within id).bind_decides fun node found => (next node found).congr (intact_node found).symm

/-- A list of names has no references of its own. -/
theorem names_decides (a : Arena) (s : Span .names) : Decides (a.slice s) (a.Intact s) where
  succeeds := (a.slice_within s).succeeds
  fails := by
    intro not
    cases found : a.slice s with
    | error e => rw [(a.slice_within s).fails e found]
    | ok names => exact absurd ((intact_list found).mpr fun _ _ r mem => nomatch mem) not

/-! ## Depth -/

open Classical in
/-- The number of nodes of its kind from a node down, and none for a number out of bounds. -/
noncomputable def height (a : Arena) {kind : NodeKind} (id : Id kind) : Nat :=
  if a.Holds id then (a.below id).card + 1 else 0

theorem height_lt (acyclic : a.Acyclic) {kind : NodeKind} {id id' : Id kind}
    (path : TransGen a.Leads id id') : a.height id' < a.height id := by
  have inside : a.Holds id := by
    obtain ⟨r, leads, -⟩ := TransGen.head'_iff.mp path
    cases leads with
    | node found _ => exact holds_of_get found
  unfold height
  rw [if_pos inside]
  split
  next inside' => exact Nat.succ_lt_succ (card_below_lt acyclic path inside')
  next => exact Nat.succ_pos _

theorem height_le (acyclic : a.Acyclic) {kind : NodeKind} (id : Id kind) :
    a.height id ≤ (a.nodes kind).size := by
  unfold height
  split
  next inside =>
    have inRange : id.raw ∈ Finset.range (a.nodes kind).size := Finset.mem_range.mpr inside
    have notBelow : id.raw ∉ a.below id := fun mem => acyclic _ (mem_below.mp mem).2
    have subset : a.below id ⊆ Finset.range (a.nodes kind).size :=
      fun i mem => Finset.mem_range.mpr (mem_below.mp mem).1
    have fewer := Finset.card_lt_card ((Finset.ssubset_iff_of_subset subset).mpr
      ⟨id.raw, inRange, notBelow⟩)
    rw [Finset.card_range] at fewer
    exact fewer
  next => exact Nat.zero_le _

/-! ## Everything below -/

/-- From `r` on every reference satisfies `P`. -/
def Throughout (a : Arena) (P : Ref → Prop) (r : Ref) : Prop :=
  ∀ r', ReflTransGen a.Leads r r' → P r'

namespace Throughout

variable {P : Ref → Prop} {r r' : Ref}

theorem here (h : a.Throughout P r) : P r := h r .refl

theorem next (h : a.Throughout P r) (leads : a.Leads r r') : a.Throughout P r' :=
  fun r'' path => h r'' (path.head leads)

theorem item {pool : Pool} {s : Span pool} (h : a.Throughout P s) {items : List pool.Item}
    (found : a.slice s = .ok items) {item : pool.Item} (mem : item ∈ items) :
    ∀ r ∈ pool.refs item, a.Throughout P r :=
  fun _ mem' => h.next (.item found mem mem')

end Throughout

/-- A list that is passed over if it is empty. -/
theorem unlessEmpty_decides {α : Type} {pool : Pool} {s : Span pool} {x : Except ReadError α}
    (passed : α) (read : Decides x (a.Intact s)) :
    Decides (if s.isEmpty then .ok passed else x) (∀ r ∈ s.needs, a.Intact r) := by
  unfold Span.needs
  split
  · exact (Decides.pure passed).congr (by simp)
  · exact read.congr (by simp)

end Arena

namespace Forest

variable {f : Forest}

/-! ## Types -/

section TypeLayers

variable {text : TypeId → Except ReadError String}

/-- The texts of the types among the references are decided by their numbers. -/
def TypeDecided (f : Forest) (text : TypeId → Except ReadError String) : Ref → Prop
  | .node .type id => Decides (text id) (f.arena.Intact id)
  | _ => True

theorem contextText_decides {R : TypeId → Prop} {ids : List TypeId}
    (each : ∀ id ∈ ids, Decides (text id) (R id)) :
    Decides (contextText text ids) (∀ id ∈ ids, R id) := by
  match ids with
  | [single] => exact (each single List.mem_cons_self).congr (by simp)
  | [] | first :: second :: rest => exact (Decides.mapM each).map _

theorem binderText_decides (binders : Span .names) :
    Decides (f.binderText binders) (∀ r ∈ binders.needs, f.arena.Intact r) :=
  Arena.unlessEmpty_decides _ ((f.arena.names_decides binders).map _)

theorem assertions_decide {context : Span .types}
    (below : f.arena.Throughout (f.TypeDecided text) context) :
    Decides (f.arena.slice context >>= contextText text) (f.arena.Intact context) := by
  refine (f.arena.slice_within context).bind_decides fun ids found => ?_
  have each : ∀ id ∈ ids, Decides (text id) (f.arena.Intact id) :=
    fun id mem => (below.item found mem id List.mem_cons_self).here
  refine (contextText_decides each).congr ?_
  rw [Arena.intact_list found]
  simp [Pool.refs]

theorem assertionText_decides {context : Span .types}
    (below : f.arena.Throughout (f.TypeDecided text) context) :
    Decides (f.assertionText text context) (∀ r ∈ context.needs, f.arena.Intact r) := by
  refine Arena.unlessEmpty_decides "" ?_
  have decides := (assertions_decide below).map (· ++ " => ")
  rwa [bind_assoc] at decides

theorem typeNodeText_decides {node : TypeNode}
    (below : ∀ r ∈ node.refs, f.arena.Throughout (f.TypeDecided text) r) :
    Decides (f.typeNodeText text node) (∀ r ∈ node.needs, f.arena.Intact r) := by
  cases node with
  | con name | var name => exact (Decides.pure _).congr (by simp [TypeNode.needs, TypeNode.refs])
  | app func arg | arrow func arg =>
    simp only [TypeNode.refs, List.forall_mem_cons] at below
    refine Decides.congr (below.1.here.bind fun _ _ => below.2.1.here.map _) ?_
    simp [TypeNode.needs, TypeNode.refs]
  | list element | paren element =>
    simp only [TypeNode.refs, List.forall_mem_cons] at below
    refine Decides.congr (below.1.here.map _) ?_
    simp [TypeNode.needs, TypeNode.refs]
  | tuple boxity items =>
    simp only [TypeNode.refs, List.forall_mem_cons] at below
    simp only [TypeNode.needs, TypeNode.refs, List.forall_mem_singleton]
    refine (f.arena.slice_within items).bind_decides fun ids found => ?_
    have each : ∀ id ∈ ids, Decides (text id) (f.arena.Intact id) :=
      fun id mem => (below.1.item found mem id List.mem_cons_self).here
    rw [Arena.intact_list found]
    simp only [Pool.refs, List.forall_mem_singleton]
    split
    next empty =>
      rw [List.isEmpty_iff] at empty
      exact (Decides.pure _).congr (by simp [empty])
    next => exact (Decides.mapM each).map _
  | quantified binders context body =>
    simp only [TypeNode.refs, List.forall_mem_cons] at below
    refine Decides.congr ((binderText_decides binders).bind fun _ _ =>
      (assertionText_decides below.2.1).bind fun _ _ => below.2.2.1.here.map _) ?_
    simp only [TypeNode.needs, List.forall_mem_append, List.forall_mem_singleton, and_assoc]

end TypeLayers

theorem typeTextTo_decides (acyclic : f.arena.Acyclic) {depth : Nat} {id : TypeId}
    (enough : f.arena.height id < depth) :
    Decides (f.typeTextTo depth id) (f.arena.Intact id) := by
  induction depth generalizing id with
  | zero => cases enough
  | succ depth ih =>
    refine Arena.get_decides fun node found => typeNodeText_decides fun r mem r' path => ?_
    match r' with
    | .node .type id' =>
      have lower := Arena.height_lt acyclic (TransGen.head' (.node found mem) path)
      exact ih (Nat.lt_of_lt_of_le lower (Nat.le_of_lt_succ enough))
    | .node .expr _ | .list _ _ => trivial

/-- The text of a type is decided by its number. -/
theorem typeText_decides (acyclic : f.arena.Acyclic) (id : TypeId) :
    Decides (f.typeText id) (f.arena.Intact id) :=
  typeTextTo_decides acyclic (Nat.lt_succ_of_le (Arena.height_le acyclic id))

theorem typeDecided (acyclic : f.arena.Acyclic) (r : Ref) : f.TypeDecided f.typeText r :=
  match r with
  | .node .type id => typeText_decides acyclic id
  | .node .expr _ | .list _ _ => trivial

/-- The components of an arrow are intact if the arrow is. -/
theorem arrowsTo_within (acyclic : f.arena.Acyclic) {depth : Nat} {id : TypeId}
    (enough : f.arena.height id < depth) :
    Within (f.arena.arrowsTo depth id) (f.arena.Intact id) ∧
      ∀ ids, f.arena.arrowsTo depth id = .ok ids → f.arena.Intact id →
        ∀ c ∈ ids, f.arena.Intact c := by
  induction depth generalizing id with
  | zero => cases enough
  | succ depth ih =>
    cases found : f.arena.get id with
    | error e =>
      have failed : f.arena.arrowsTo (depth + 1) id = .error e := by
        rw [Arena.arrowsTo, found]
        rfl
      rw [failed]
      refine ⟨⟨fun intact => ?_, ?_⟩, by simp⟩
      · obtain ⟨node, found'⟩ := (f.arena.get_within id).succeeds intact
        cases found.symm.trans found'
      · rintro _ ⟨⟩
        exact (f.arena.get_within id).fails e found
    | ok node =>
      cases node with
      | arrow arg result =>
        have step : f.arena.arrowsTo (depth + 1) id =
            f.arena.arrowsTo depth result >>= fun ids => .ok (arg :: ids) := by
          rw [Arena.arrowsTo, found]
          rfl
        have parts : f.arena.Intact id ↔ f.arena.Intact arg ∧ f.arena.Intact result := by
          rw [Arena.intact_node found]
          simp [NodeKind.needs, TypeNode.needs, TypeNode.refs]
        have leads : f.arena.Leads id result := .node found (by simp [NodeKind.refs, TypeNode.refs])
        have lower := Arena.height_lt acyclic (TransGen.single leads)
        obtain ⟨within, components⟩ :=
          ih (Nat.lt_of_lt_of_le lower (Nat.le_of_lt_succ enough))
        have within := within.mono fun intact => (parts.mp intact).2
        rw [step]
        refine ⟨within.bind fun ids _ => .pure (arg :: ids), fun ids done intact => ?_⟩
        obtain ⟨rest, later, done⟩ := bind_eq_ok.mp done
        cases done
        have intact := parts.mp intact
        exact List.forall_mem_cons.mpr ⟨intact.1, components rest later intact.2⟩
      | _ =>
        rw [Arena.arrowsTo, found]
        refine ⟨.pure [id], fun ids done intact => ?_⟩
        cases done
        exact List.forall_mem_singleton.mpr intact

/-- The texts of the components of an arrow can be told if the arrow is intact. -/
theorem components_within (acyclic : f.arena.Acyclic) (id : TypeId) :
    Within (f.arena.arrows id >>= fun ids => ids.mapM f.typeText) (f.arena.Intact id) := by
  obtain ⟨within, components⟩ :=
    arrowsTo_within acyclic (Nat.lt_succ_of_le (Arena.height_le acyclic id))
  refine within.bind fun ids found => Within.mapM fun c mem => ?_
  exact (typeText_decides acyclic c).within.mono fun intact => components ids found intact c mem

/-! ## Shapes -/

theorem isReference_within {id : ExprId} :
    Within (f.arena.isReference id) (f.arena.Intact id) :=
  (f.arena.get_within id).bind fun _ _ => .pure _

theorem andThen_within {P : Prop} {first second : Except ReadError Bool} (left : Within first P)
    (right : Within second P) : Within (Arena.andThen first second) P :=
  left.bind fun answer _ => by
    cases answer with
    | true => exact right
    | false => exact .pure false

theorem isFlatTo_within (acyclic : f.arena.Acyclic) {depth : Nat} {id : ExprId}
    (enough : f.arena.height id < depth) :
    Within (f.arena.isFlatTo depth id) (f.arena.Intact id) := by
  induction depth generalizing id with
  | zero => cases enough
  | succ depth ih =>
    refine (f.arena.get_within id).bind fun node found => ?_
    have child : ∀ id', Ref.node .expr id' ∈ node.refs → node.needs = node.refs →
        Within (f.arena.isFlatTo depth id') (f.arena.Intact id) := by
      intro id' mem same
      have leads : f.arena.Leads id id' := .node found mem
      have lower := Arena.height_lt acyclic (TransGen.single leads)
      refine (ih (Nat.lt_of_lt_of_le lower (Nat.le_of_lt_succ enough))).mono fun intact => ?_
      refine (Arena.intact_node found).mp intact id' ?_
      rw [NodeKind.needs, same]
      exact mem
    cases node with
    | lambda params body => exact child body (by simp [ExprNode.refs]) rfl
    | neg operand | leftSection operand op | rightSection op operand | paren operand =>
      exact child operand (by simp [ExprNode.refs]) rfl
    | binary left op right =>
      exact andThen_within (child left (by simp [ExprNode.refs]) rfl)
        (child right (by simp [ExprNode.refs]) rfl)
    | app func arg =>
      have parts := (Arena.intact_node found).mp
      exact andThen_within
        (isReference_within.mono fun intact => parts intact func
          (by simp [NodeKind.needs, ExprNode.needs, ExprNode.refs]))
        (isReference_within.mono fun intact => parts intact arg
          (by simp [NodeKind.needs, ExprNode.needs, ExprNode.refs]))
    | _ => exact .pure _

/-- Whether an expression is flat can be told if it is intact. -/
theorem isFlat_within (acyclic : f.arena.Acyclic) (id : ExprId) :
    Within (f.arena.isFlat id) (f.arena.Intact id) :=
  isFlatTo_within acyclic (Nat.lt_succ_of_le (Arena.height_le acyclic id))

/-- What a spine says about the expression it was taken from: head and arguments lie below, and
the expression is intact exactly if they are. -/
structure Spine (f : Forest) (id head : ExprId) (args : List ExprId) : Prop where
  head_below : ReflTransGen f.arena.Leads id head
  args_below : ∀ x ∈ args, TransGen f.arena.Leads id x
  intact : f.arena.Intact id ↔ f.arena.Intact head ∧ ∀ x ∈ args, f.arena.Intact x

/-- One more argument. -/
theorem Spine.app {id func arg head : ExprId} {args : List ExprId}
    (found : f.arena.get id = .ok (ExprNode.app func arg)) (spine : f.Spine func head args) :
    f.Spine id head (args ++ [arg]) where
  head_below := spine.head_below.head (.node found (by simp [NodeKind.refs, ExprNode.refs]))
  args_below := by
    intro x mem
    rcases List.mem_append.mp mem with inFunc | last
    · exact (spine.args_below x inFunc).head
        (.node found (by simp [NodeKind.refs, ExprNode.refs]))
    · rw [List.mem_singleton.mp last]
      exact .single (.node found (by simp [NodeKind.refs, ExprNode.refs]))
  intact := by
    have parts : f.arena.Intact id ↔ f.arena.Intact func ∧ f.arena.Intact arg := by
      rw [Arena.intact_node found]
      simp [NodeKind.needs, ExprNode.needs, ExprNode.refs]
    rw [parts, spine.intact, List.forall_mem_append, List.forall_mem_singleton, and_assoc]

theorem spineTo_app {depth : Nat} {id func arg : ExprId}
    (found : f.arena.get id = .ok (ExprNode.app func arg)) (rest : List ExprId) :
    f.arena.spineTo (depth + 1) id rest = f.arena.spineTo depth func (arg :: rest) := by
  rw [Arena.spineTo, found]
  rfl

theorem spineTo_within (acyclic : f.arena.Acyclic) {depth : Nat} {id : ExprId}
    (enough : f.arena.height id < depth) (rest : List ExprId) :
    Within (f.arena.spineTo depth id rest) (f.arena.Intact id) ∧
      ∀ head args, f.arena.spineTo depth id rest = .ok (head, args) →
        ∃ first, args = first ++ rest ∧ f.Spine id head first := by
  induction depth generalizing id rest with
  | zero => cases enough
  | succ depth ih =>
    cases found : f.arena.get id with
    | error e =>
      have failed : f.arena.spineTo (depth + 1) id rest = .error e := by
        rw [Arena.spineTo, found]
        rfl
      rw [failed]
      refine ⟨⟨fun intact => ?_, ?_⟩, by simp⟩
      · obtain ⟨node, found'⟩ := (f.arena.get_within id).succeeds intact
        cases found.symm.trans found'
      · rintro _ ⟨⟩
        exact (f.arena.get_within id).fails e found
    | ok node =>
      cases node with
      | app func arg =>
        have toFunc : f.arena.Leads id func := .node found (by simp [NodeKind.refs, ExprNode.refs])
        have lower := Arena.height_lt acyclic (TransGen.single toFunc)
        obtain ⟨within, spine⟩ :=
          ih (Nat.lt_of_lt_of_le lower (Nat.le_of_lt_succ enough)) (arg :: rest)
        rw [spineTo_app found]
        refine ⟨within.mono fun intact => ?_, fun head args done => ?_⟩
        · exact (Arena.intact_node found).mp intact func
            (by simp [NodeKind.needs, ExprNode.needs, ExprNode.refs])
        · obtain ⟨first, rfl, spine⟩ := spine head args done
          exact ⟨first ++ [arg], by simp, spine.app found⟩
      | _ =>
        rw [Arena.spineTo, found]
        refine ⟨.pure (id, rest), fun head args done => ?_⟩
        cases done
        exact ⟨[], rfl, .refl, by simp, by simp⟩

/-- The spine of an application. Its head lies strictly below. -/
theorem spine_within (acyclic : f.arena.Acyclic) {id func arg : ExprId}
    (found : f.arena.get id = .ok (ExprNode.app func arg)) :
    Within (f.arena.spine id) (f.arena.Intact id) ∧
      ∀ head args, f.arena.spine id = .ok (head, args) →
        f.Spine id head args ∧ TransGen f.arena.Leads id head := by
  have toFunc : f.arena.Leads id func := .node found (by simp [NodeKind.refs, ExprNode.refs])
  have lower := Arena.height_lt acyclic (TransGen.single toFunc)
  have enough : f.arena.height func < f.arena.exprs.size :=
    Nat.lt_of_lt_of_le lower (Arena.height_le acyclic id)
  obtain ⟨within, spine⟩ := spineTo_within acyclic enough [arg]
  rw [Arena.spine, spineTo_app found]
  refine ⟨within.mono fun intact => ?_, fun head args done => ?_⟩
  · exact (Arena.intact_node found).mp intact func
      (by simp [NodeKind.needs, ExprNode.needs, ExprNode.refs])
  · obtain ⟨first, rfl, spine⟩ := spine head args done
    exact ⟨spine.app found, TransGen.head' toFunc spine.head_below⟩

end Forest

end TrialLayout
