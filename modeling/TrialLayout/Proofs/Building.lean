import TrialLayout.Proofs.Soundness

/-!
# Building

What building does to a forest.

* `Build.Does`: whether or not it is refused, building only adds to the forest; it is not refused
  if the lists are short enough; and the result is as promised. A forest that is sound stays
  sound. That is followed under an assumption `A`, so that the same lemmas tell what is built in a
  forest of which nothing is known.
* `Forest.Means`: a handle stands for a tree, now and however much is added later.
* The steps are interning a name, allocating a list and allocating a node (`intern_does`,
  `list_does`, `expr_makes`, `type_makes`). Everything else is a sequence of these (`Does.bind`,
  `Does.mapM`).
-/

namespace TrialLayout

theorem forall₂_left {α β : Type} {R : α → β → Prop} {p : α → Prop} {xs : List α} {ys : List β}
    (related : List.Forall₂ R xs ys) (each : ∀ a b, R a b → p a) : ∀ a ∈ xs, p a :=
  ((List.forall₂_and_left _ _).mp (related.imp fun a b r => ⟨each a b r, r⟩)).1

theorem forall₂_trans {α β γ : Type} {R : α → β → Prop} {S : β → γ → Prop} {T : α → γ → Prop}
    (through : ∀ a b c, R a b → S b c → T a c) {xs : List α} {ys : List β} {zs : List γ}
    (first : List.Forall₂ R xs ys) (second : List.Forall₂ S ys zs) : List.Forall₂ T xs zs := by
  induction first generalizing zs with
  | nil =>
    cases second
    exact .nil
  | cons r _ ih =>
    cases second with
    | cons s others => exact .cons (through _ _ _ r s) (ih others)

/-- What holds of each result holds of the results. -/
theorem exists_mapM {ε α β : Type} {g : α → Except ε β} {R : α → β → Prop} {xs : List α}
    (each : ∀ x ∈ xs, ∃ y, g x = .ok y ∧ R x y) :
    ∃ ys, xs.mapM g = .ok ys ∧ List.Forall₂ R xs ys := by
  induction xs with
  | nil => exact ⟨[], rfl, .nil⟩
  | cons x rest ih =>
    rw [List.forall_mem_cons] at each
    obtain ⟨y, done, r⟩ := each.1
    obtain ⟨ys, done', related⟩ := ih each.2
    refine ⟨y :: ys, ?_, .cons r related⟩
    rw [List.mapM_cons, done, done']
    rfl

/-! ## Promises -/

namespace Build

variable {α β : Type} {A : Prop} {f f' : Forest}

theorem on_bind (x : Build α) (g : α → Build β) (f : Forest) :
    (x >>= g).on f =
      match x.on f with
      | (.ok a, f') => (g a).on f'
      | (.error e, f') => (.error e, f') := by
  change (ExceptT.bindCont g (x.run f).1) (x.run f).2 = _
  unfold Build.on
  generalize x.run f = outcome
  obtain ⟨outcome, f'⟩ := outcome
  cases outcome <;> rfl

/-- What building does to a forest. -/
structure Does (A : Prop) (f : Forest) (b : Build α) (fits : Prop) (Q : α → Forest → Prop) :
    Prop where
  sound : A → (b.on f).2.Sound
  grows : f.Grows (b.on f).2
  succeeds : fits → Succeeds (b.on f).1
  result : ∀ a, (b.on f).1 = .ok a → Q a (b.on f).2

namespace Does

variable {P P' : Prop} {Q : α → Forest → Prop} {R : β → Forest → Prop}

theorem pure {a : α} (sound : A → f.Sound) (result : Q a f) : Does A f (pure a) True Q where
  sound := sound
  grows := .refl f
  succeeds := fun _ => ⟨a, rfl⟩
  result := by
    rintro _ ⟨⟩
    exact result

theorem fitting {b : Build α} (does : Does A f b P Q) (fits : P' → P) : Does A f b P' Q :=
  ⟨does.sound, does.grows, fun p => does.succeeds (fits p), does.result⟩

theorem never_refused {b : Build α} (does : Does A f b True Q) : Does A f b P Q :=
  does.fitting fun _ => trivial

theorem imp {b : Build α} {Q' : α → Forest → Prop} (does : Does A f b P Q)
    (result : ∀ a f', f.Grows f' → Q a f' → Q' a f') : Does A f b P Q' :=
  ⟨does.sound, does.grows, does.succeeds,
    fun a done => result a _ does.grows (does.result a done)⟩

theorem bind {x : Build α} {g : α → Build β} (first : Does A f x P Q)
    (next : ∀ a f', (A → f'.Sound) → f.Grows f' → Q a f' → Does A f' (g a) P' R) :
    Does A f (x >>= g) (P ∧ P') R := by
  -- the first part is seen only through its outcome, so that both outcomes can be told apart
  obtain ⟨sound, grows, succeeds, result⟩ := first
  revert sound grows succeeds result
  have step := on_bind x g f
  generalize x.on f = outcome at step ⊢
  obtain ⟨outcome, f'⟩ := outcome
  intro sound grows succeeds result
  cases outcome with
  | error e =>
    constructor
    · rw [step]
      exact sound
    · rw [step]
      exact grows
    · rintro ⟨p, -⟩
      obtain ⟨a, done⟩ := succeeds p
      cases done
    · rw [step]
      exact fun _ done => nomatch done
  | ok a =>
    have later := next a f' sound grows (result a rfl)
    constructor
    · rw [step]
      exact later.sound
    · rw [step]
      exact grows.trans later.grows
    · rw [step]
      exact fun p => later.succeeds p.2
    · rw [step]
      exact later.result

/-- What follows is not refused. -/
theorem andThen {x : Build α} {g : α → Build β} (first : Does A f x P Q)
    (next : ∀ a f', (A → f'.Sound) → f.Grows f' → Q a f' → Does A f' (g a) True R) :
    Does A f (x >>= g) P R :=
  (first.bind next).fitting fun p => ⟨p, trivial⟩

theorem map {b : Build α} {g : α → β} (does : Does A f b P Q)
    (result : ∀ a f', f.Grows f' → Q a f' → R (g a) f') :
    Does A f (b >>= fun a => Pure.pure (g a)) P R :=
  does.andThen fun a f' sound grows q => Does.pure sound (result a f' grows q)

/-- What was made first is kept while the others are built. -/
theorem cons {γ : Type} {R : α → γ → Forest → Prop} {x : Build α} {xs : Build (List α)} {t : γ}
    {ts : List γ} (kept : ∀ {a c f f'}, f.Grows f' → R a c f → R a c f')
    (first : Does A f x P fun a f' => R a t f')
    (rest : ∀ f', (A → f'.Sound) → f.Grows f' →
      Does A f' xs P' fun as f'' => List.Forall₂ (R · · f'') as ts) :
    Does A f (x >>= fun a => xs >>= fun as => Pure.pure (a :: as)) (P ∧ P')
      fun as f' => List.Forall₂ (R · · f') as (t :: ts) :=
  first.bind fun _ _ sound grows one => (rest _ sound grows).map fun _ _ later others =>
    List.Forall₂.cons (kept later one) others

theorem mapM {γ : Type} {xs : List γ} {g : γ → Build α} {fits : γ → Prop}
    {R : α → γ → Forest → Prop} (sound : A → f.Sound)
    (kept : ∀ {a x f f'}, f.Grows f' → R a x f → R a x f')
    (each : ∀ x ∈ xs, ∀ f', (A → f'.Sound) → f.Grows f' →
      Does A f' (g x) (fits x) fun a f'' => R a x f'') :
    Does A f (xs.mapM g) (∀ x ∈ xs, fits x) fun as f' => List.Forall₂ (R · · f') as xs := by
  induction xs generalizing f with
  | nil => exact (Does.pure sound .nil).fitting fun _ => trivial
  | cons x rest ih =>
    rw [List.forall_mem_cons] at each
    rw [List.mapM_cons]
    refine (cons (R := R) kept (each.1 f sound (.refl f)) fun f' sound' grows => ?_).fitting
      List.forall_mem_cons.mp
    exact ih sound' fun z mem f'' sound'' later => each.2 z mem f'' sound'' (grows.trans later)

end Does

/-! ## Names -/

theorem intern_strings (names : Interner) (text : String) :
    (∃ more, (names.intern text).2.strings = names.strings ++ more) ∧
      (names.intern text).2.strings[(names.intern text).1.raw]? = some text :=
  ⟨names.table.intern_grows text,
    (names.agrees.intern text text _).mp (names.table.get?_intern_self text)⟩

/-- The name has been handed out for the text. -/
structure Names (f : Forest) (n : Name) (text : String) : Prop where
  known : f.names.Knows n
  lookup : f.names.lookup n = text

theorem Names.of_getElem? {n : Name} {text : String}
    (found : f.names.strings[n.raw]? = some text) : Names f n text where
  known := (Array.getElem?_eq_some_iff.mp found).1
  lookup := by
    rw [Interner.lookup, TextTable.lookup, Array.getD_eq_getD_getElem?]
    exact congrArg (Option.getD · "") found

theorem Names.grow {n : Name} {text : String} (names : Names f n text) (grows : f.Grows f') :
    Names f' n text :=
  ⟨grows.knows names.known, (grows.lookup names.known).trans names.lookup⟩

theorem intern_does (sound : A → f.Sound) (text : String) :
    Does A f (intern text) True fun n f' => Names f' n text := by
  obtain ⟨grown, found⟩ := intern_strings f.names text
  have grows : f.Grows { f with names := (f.names.intern text).2 } := ⟨.refl _, grown⟩
  refine ⟨fun a => (sound a).intern grows, grows, fun _ => ⟨_, rfl⟩, ?_⟩
  rintro _ ⟨⟩
  exact .of_getElem? found

theorem internAll_does (sound : A → f.Sound) (texts : List String) :
    Does A f (internAll texts) True fun ns f' => List.Forall₂ (Names f') ns texts :=
  (Does.mapM (R := fun n text f => Names f n text) sound (fun grows names => names.grow grows)
    fun text _ _ sound' _ => intern_does sound' text).fitting fun _ _ _ => trivial

theorem lookupAll_of_names {texts : List String} {ns : List Name}
    (named : List.Forall₂ (Names f) ns texts) : f.lookupAll ns = texts := by
  induction named with
  | nil => rfl
  | cons first _ ih => exact congrArg₂ List.cons first.lookup ih

theorem op_does (sound : A → f.Sound) (symbol : Op String) :
    Does A f (op symbol) True fun o f' => f'.names.Knows o.name ∧ f'.readOp o = symbol := by
  cases symbol with
  | symbol text | quoted text =>
    exact (intern_does sound text).map fun n f' _ names =>
      ⟨names.known, congrArg _ names.lookup⟩

/-! ## Lists -/

theorem slice_append (a : Arena) {k : Pool} (items : List k.Item) :
    (a.append k items).slice ⟨(a.pool k).size, items.length⟩ = .ok items := by
  have pool : ((a.append k items).pool k).toList = (a.pool k).toList ++ items := by
    rw [Arena.pool_append_self, Array.toList_appendList]
  have size : ((a.append k items).pool k).size = (a.pool k).size + items.length := by
    simpa using congrArg List.length pool
  let s : Span k := ⟨(a.pool k).size, items.length⟩
  have inside : s.stop ≤ ((a.append k items).pool k).size := Nat.le_of_eq size.symm
  rw [Arena.slice, if_pos inside, Array.toList_extract, pool]
  simp [Span.stop, List.extract_eq_take_drop]

theorem slice_empty (a : Arena) (k : Pool) : a.slice (.empty : Span k) = .ok [] := by
  simp [Arena.slice, Span.empty, Span.stop]

/-- A list that is refused has been added all the same. -/
theorem list_on {k : Pool} (item : k.Item) (rest : List k.Item) (f : Forest) :
    (list k (item :: rest)).on f =
      (if (item :: rest).length ≤ maxListLength
        then .ok ⟨(f.arena.pool k).size, (item :: rest).length⟩
        else .error ⟨k, (item :: rest).length⟩,
      { f with arena := f.arena.append k (item :: rest) }) :=
  rfl

theorem list_does (sound : A → f.Sound) {k : Pool} {items : List k.Item}
    (refs : A → ∀ item ∈ items, ∀ r ∈ k.refs item, f.arena.Holds r)
    (names : A → ∀ item ∈ items, ∀ n ∈ k.nameList item, f.names.Knows n) :
    Does A f (list k items) (items.length ≤ maxListLength)
      fun s f' => f'.arena.slice s = .ok items := by
  cases items with
  | nil =>
    refine ⟨sound, .refl f, fun _ => ⟨.empty, rfl⟩, ?_⟩
    rintro _ ⟨⟩
    exact slice_empty f.arena k
  | cons item rest =>
    constructor
    · rw [list_on]
      exact fun a => (sound a).append (refs a) (names a)
    · rw [list_on]
      exact ⟨.append f.arena k (item :: rest), (Forest.Grows.refl f).names⟩
    · rw [list_on]
      exact fun fits => ⟨_, if_pos fits⟩
    · rw [list_on]
      intro s done
      split at done
      · cases done
        exact slice_append f.arena (item :: rest)
      · cases done

end Build

/-! ## Handles that stand for trees -/

namespace Forest

variable {A : Prop} {f f' f'' : Forest} {kind : NodeKind} {depth : Nat}

/-- A forest that has grown, and a depth that suffices for all that was there before. -/
structure Later (f : Forest) (kind : NodeKind) (f' : Forest) (depth : Nat) : Prop where
  grows : f.Grows f'
  deep : (f.arena.nodes kind).size < depth

theorem Grows.later (grows : f.Grows f') (kind : NodeKind) :
    f.Later kind f' ((f'.arena.nodes kind).size + 1) :=
  ⟨grows, Nat.lt_succ_of_le (grows.arena.nodes_size_le kind)⟩

theorem Later.after (later : f'.Later kind f'' depth) (grows : f.Grows f') :
    f.Later kind f'' depth :=
  ⟨grows.trans later.grows, Nat.lt_of_le_of_lt (grows.arena.nodes_size_le kind) later.deep⟩

/-- The handle is there, and it stands for the tree now and later. -/
structure Means (A : Prop) (f : Forest) (k : Part) (h : k.Handle) (t : k.Tree) : Prop where
  held : A → f.Held k h
  read : ∀ {f' depth}, f.Later k.kind f' depth → f'.readTo depth k h = .ok t

namespace Means

theorem grow {k : Part} {h : k.Handle} {t : k.Tree} (means : Means A f k h t)
    (grows : f.Grows f') : Means A f' k h t :=
  ⟨fun a => (means.held a).grow grows, fun later => means.read (later.after grows)⟩

theorem reads {k : Part} {h : k.Handle} {t : k.Tree} (means : Means A f k h t)
    (grows : f.Grows f') : f'.read k h = .ok t := by
  rw [read_eq_readTo]
  exact means.read (grows.later k.kind)

/-- In a sound forest a handle that is there stands for a tree. -/
theorem exists_of_sound (sound : f.Sound) {k : Part} {h : k.Handle} (held : f.Held k h) :
    ∃ t, f.read k h = .ok t ∧ Means A f k h t := by
  obtain ⟨t, read⟩ := sound.read_succeeds held
  refine ⟨t, read, fun _ => held, fun later => ?_⟩
  rw [read_eq_readTo] at read
  exact readTo_extends later.grows sound.named held.names later.deep t read

theorem all_grow {k : Part} {hs : List k.Handle} {ts : List k.Tree}
    (means : List.Forall₂ (Means A f k) hs ts) (grows : f.Grows f') :
    List.Forall₂ (Means A f' k) hs ts :=
  means.imp fun _ _ one => one.grow grows

theorem all_read {k : Part} {hs : List k.Handle} {ts : List k.Tree}
    (means : List.Forall₂ (Means A f k) hs ts) (later : f.Later k.kind f' depth) :
    hs.mapM (f'.readTo depth k) = .ok ts :=
  mapM_eq_ok.mpr (means.imp fun _ _ one => one.read later)

theorem all_held {k : Part} {hs : List k.Handle} {ts : List k.Tree}
    (means : List.Forall₂ (Means A f k) hs ts) (a : A) : ∀ h ∈ hs, f.Held k h :=
  forall₂_left means fun _ _ one => one.held a

theorem all_refs {k : Part} {hs : List k.Handle} {ts : List k.Tree}
    (means : List.Forall₂ (Means A f k) hs ts) (a : A) :
    ∀ h ∈ hs, ∀ r ∈ k.refs h, f.arena.Holds r :=
  fun h mem => (all_held means a h mem).refs

theorem all_names {k : Part} {hs : List k.Handle} {ts : List k.Tree}
    (means : List.Forall₂ (Means A f k) hs ts) (a : A) :
    ∀ h ∈ hs, ∀ n ∈ k.names h, f.names.Knows n :=
  fun h mem => (all_held means a h mem).names

theorem exists_all_of_sound (sound : f.Sound) {k : Part} {hs : List k.Handle}
    (held : ∀ h ∈ hs, f.Held k h) :
    ∃ ts, hs.mapM (f.read k) = .ok ts ∧ List.Forall₂ (Means A f k) hs ts :=
  exists_mapM fun h mem => exists_of_sound sound (held h mem)

end Means

end Forest

namespace Build

open Forest

variable {A : Prop} {f : Forest}

/-- Building returns a handle that stands for the tree. -/
def Makes (A : Prop) (f : Forest) (k : Part) (b : Build k.Handle) (fits : Prop) (t : k.Tree) :
    Prop :=
  Does A f b fits fun h f' => Means A f' k h t

/-! ## Nodes -/

theorem get_pushNode (a : Arena) (kind : NodeKind) (node : kind.Node) :
    (a.pushNode kind node).get ⟨(a.nodes kind).size⟩ = .ok node := by
  rw [Arena.get, Arena.nodes_pushNode_self, Array.getElem?_push_size]

/-- What is later than a new node is later than the forest it was put in, with a layer to spare. -/
theorem later_of_pushNode {kind : NodeKind} {node : kind.Node} {f' : Forest} {depth : Nat}
    (later : Later { f with arena := f.arena.pushNode kind node } kind f' depth) :
    ∃ below, depth = below + 1 ∧ f.Later kind f' below := by
  have size : ((f.arena.pushNode kind node).nodes kind).size = (f.arena.nodes kind).size + 1 := by
    rw [Arena.nodes_pushNode_self, Array.size_push]
  obtain ⟨grows, deep⟩ := later
  rw [size] at deep
  obtain ⟨below, rfl⟩ := Nat.exists_eq_add_of_lt deep
  have pushed : f.Grows { f with arena := f.arena.pushNode kind node } :=
    ⟨.pushNode f.arena kind node, (Grows.refl f).names⟩
  refine ⟨_, rfl, pushed.trans grows, ?_⟩
  exact Nat.lt_of_lt_of_le (Nat.lt_succ_self _) (Nat.le_add_right _ _)

theorem expr_makes (sound : A → f.Sound) {node : ExprNode} {e : Expr}
    (refs : A → ∀ r ∈ node.refs, f.arena.Holds r) (names : A → ∀ n ∈ node.names, f.names.Knows n)
    (reads : ∀ {f' depth}, f.Later .expr f' depth →
      f'.readExprNode (f'.readExprTo depth) node = .ok e) :
    Makes A f .expr (expr node) True e := by
  have grows : f.Grows { f with arena := f.arena.pushNode .expr node } :=
    ⟨.pushNode f.arena .expr node, (Grows.refl f).names⟩
  have found := get_pushNode f.arena .expr node
  refine ⟨fun a => (sound a).pushNode (refs a) (names a), grows, fun _ => ⟨_, rfl⟩, ?_⟩
  rintro _ ⟨⟩
  constructor
  · exact fun _ => ⟨List.forall_mem_singleton.mpr (Arena.holds_of_get found),
      List.forall_mem_nil _⟩
  · intro f' depth later
    obtain ⟨below, rfl, earlier⟩ := later_of_pushNode later
    exact bind_eq_ok.mpr ⟨node, later.grows.arena.get _ _ found, reads earlier⟩

theorem type_makes (sound : A → f.Sound) {node : TypeNode} {t : Ty}
    (refs : A → ∀ r ∈ node.refs, f.arena.Holds r) (names : A → ∀ n ∈ node.names, f.names.Knows n)
    (reads : ∀ {f' depth}, f.Later .type f' depth →
      f'.readTypeNode (f'.readTypeTo depth) node = .ok t) :
    Makes A f .type (type node) True t := by
  have grows : f.Grows { f with arena := f.arena.pushNode .type node } :=
    ⟨.pushNode f.arena .type node, (Grows.refl f).names⟩
  have found := get_pushNode f.arena .type node
  refine ⟨fun a => (sound a).pushNode (refs a) (names a), grows, fun _ => ⟨_, rfl⟩, ?_⟩
  rintro _ ⟨⟩
  constructor
  · exact fun _ => ⟨List.forall_mem_singleton.mpr (Arena.holds_of_get found),
      List.forall_mem_nil _⟩
  · intro f' depth later
    obtain ⟨below, rfl, earlier⟩ := later_of_pushNode later
    exact bind_eq_ok.mpr ⟨node, later.grows.arena.get _ _ found, reads earlier⟩

end Build

end TrialLayout
