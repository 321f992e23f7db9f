import Mathlib.Order.Interval.Finset.Nat
import TrialLayout.Proofs.Building

/-!
# Handles of an arena

An arena is asked for one thing after another: to hold a node, or to hold a list. What is held
goes behind what its storage holds already, whether or not a handle is returned for it
(`request_storage`). So the place of every later handle lies behind the places of the earlier
ones, and nothing that could be read is ever lost (`Grows.readBack`), also when a list is refused
after its items have been stored.

Result: `handles_stable`, for every sequence of requests to an empty arena.
-/

namespace TrialLayout

/-! ## Definitions -/

/-- The storages of an arena: the nodes of a kind, or the items of a kind of list. -/
inductive Storage where
  | nodes (kind : NodeKind)
  | lists (pool : Pool)
deriving DecidableEq

/-- What a storage holds. -/
abbrev Storage.Item : Storage → Type
  | nodes kind => kind.Node
  | lists pool => pool.Item

/-- What an arena is asked to hold. -/
inductive Request where
  | node (kind : NodeKind) (node : kind.Node)
  | list (pool : Pool) (items : List pool.Item)

namespace Request

/-- The storage that a request is for. -/
def storage : Request → Storage
  | node kind _ => .nodes kind
  | list pool _ => .lists pool

/-- What a request puts in its storage. -/
def contents : (r : Request) → List r.storage.Item
  | .node _ content => [content]
  | .list _ items => items

/-- A list with more items than a range can count. -/
def isTooLong : Request → Bool
  | node _ _ => false
  | list _ items => maxListLength < items.length

end Request

namespace Ref

/-- The place of the first item that a handle addresses. -/
def start : Ref → Nat
  | node _ id => id.raw
  | list _ s => s.start

/-- The place behind the last item that a handle addresses. -/
def stop : Ref → Nat
  | node _ id => id.raw + 1
  | list _ s => s.stop

/-- The places that a handle addresses. -/
def places (h : Ref) : Finset Nat := Finset.Ico h.start h.stop

end Ref

namespace Arena

/-- What a storage holds, in order. -/
def storage (a : Arena) : (s : Storage) → Array s.Item
  | .nodes kind => a.nodes kind
  | .lists pool => a.pool pool

/-- Makes a request: the handle, unless it is refused, and the arena afterwards. -/
def request (a : Arena) : Request → Except ListTooLong Ref × Arena
  | .node kind node =>
      let (id, a) := a.alloc kind node
      (.ok id, a)
  | .list pool items =>
      let (s, a) := a.allocList pool items
      (s.map (Ref.list pool), a)

/-- The handle that a request gets. -/
def answer (a : Arena) (r : Request) : Except ListTooLong Ref := (a.request r).1

/-- The arena after a sequence of requests. -/
def after (a : Arena) (rs : List Request) : Arena := rs.foldl (fun a r => (a.request r).2) a

/-- What a handle addresses, as the request for it. -/
def readBack (a : Arena) : Ref → Except ReadError Request
  | .node kind id => do return .node kind (← a.get id)
  | .list pool s => do return .list pool (← a.slice s)

/-! ## One request -/

variable {a a' : Arena} {r r' : Request} {h h' : Ref}

/-- The handle of a list that is not empty begins behind the lists of its kind. -/
theorem answer_cons (a : Arena) (pool : Pool) (item : pool.Item) (rest : List pool.Item) :
    a.answer (.list pool (item :: rest)) =
      if (item :: rest).length ≤ maxListLength
      then .ok (Ref.list pool ⟨(a.pool pool).size, (item :: rest).length⟩)
      else .error ⟨pool, (item :: rest).length⟩ := by
  show Except.map (Ref.list pool) (if _ then _ else _) = _
  split <;> rfl

/-- A request puts its contents behind what its storage holds. -/
theorem request_storage (a : Arena) (r : Request) :
    (a.request r).2.storage r.storage = a.storage r.storage ++ r.contents := by
  cases r with
  | node kind content => exact nodes_pushNode_self a kind content
  | list pool items =>
    cases items with
    | nil => exact Array.appendList_nil.symm
    | cons item rest => exact pool_append_self a pool (item :: rest)

theorem size_request_storage (a : Arena) (r : Request) :
    ((a.request r).2.storage r.storage).size = (a.storage r.storage).size + r.contents.length := by
  rw [request_storage, ← Array.length_toList, Array.toList_appendList, List.length_append,
    Array.length_toList]

/-- A request leaves the other storages as they are. -/
theorem request_storage_of_ne (a : Arena) {s : Storage} (other : s ≠ r.storage) :
    (a.request r).2.storage s = a.storage s := by
  cases r with
  | node kind content =>
    cases s with
    | nodes kind' => exact nodes_pushNode_of_ne a content fun same => other (congrArg _ same)
    | lists pool => exact pool_pushNode a kind content pool
  | list pool items =>
    cases items with
    | nil => rfl
    | cons item rest =>
      cases s with
      | nodes kind => exact nodes_append a pool (item :: rest) kind
      | lists pool' =>
        exact pool_append_of_ne a (item :: rest) fun same => other (congrArg _ same)

theorem request_grows (a : Arena) (r : Request) : a.Grows (a.request r).2 := by
  cases r with
  | node kind content => exact .pushNode a kind content
  | list pool items =>
    cases items with
    | nil => exact .refl a
    | cons item rest => exact .append a pool (item :: rest)

/-- A request is refused exactly if it is for a list that is too long. -/
theorem refused_iff (a : Arena) (r : Request) :
    (∃ e, a.answer r = .error e) ↔ r.isTooLong = true := by
  have returned {h : Ref} : ¬∃ e : ListTooLong, (Except.ok h : Except _ Ref) = .error e := nofun
  cases r with
  | node kind content => exact iff_of_false returned nofun
  | list pool items =>
    cases items with
    | nil => exact iff_of_false returned nofun
    | cons item rest =>
      rw [answer_cons, Request.isTooLong, decide_eq_true_eq]
      split
      next fits => exact iff_of_false returned (Nat.not_lt_of_le fits)
      next long => exact iff_of_true ⟨_, rfl⟩ (Nat.lt_of_not_le long)

/-- The handles that are returned: a node and a list that is not empty stand at the end of their
storage. -/
theorem answer_cases (done : a.answer r = .ok h) :
    (∃ kind content, r = .node kind content ∧ h = Ref.node kind ⟨(a.nodes kind).size⟩) ∨
    (∃ pool, r = .list pool [] ∧ h = Ref.list pool .empty) ∨
    ∃ pool item rest, r = .list pool (item :: rest) ∧
      h = Ref.list pool ⟨(a.pool pool).size, (item :: rest).length⟩ := by
  cases r with
  | node kind content =>
    cases done
    exact .inl ⟨kind, content, rfl, rfl⟩
  | list pool items =>
    cases items with
    | nil =>
      cases done
      exact .inr (.inl ⟨pool, rfl, rfl⟩)
    | cons item rest =>
      rw [answer_cons] at done
      split at done
      · cases done
        exact .inr (.inr ⟨pool, item, rest, rfl, rfl⟩)
      · cases done

theorem start_of_answer (done : a.answer r = .ok h) (nonempty : r.contents ≠ []) :
    h.start = (a.storage r.storage).size := by
  obtain ⟨kind, content, rfl, rfl⟩ | ⟨pool, rfl, rfl⟩ | ⟨pool, item, rest, rfl, rfl⟩ :=
    answer_cases done
  · rfl
  · exact absurd rfl nonempty
  · rfl

theorem places_of_answer_nil (done : a.answer r = .ok h) (nothing : r.contents = []) :
    h.places = ∅ := by
  obtain ⟨kind, content, rfl, rfl⟩ | ⟨pool, rfl, rfl⟩ | ⟨pool, item, rest, rfl, rfl⟩ :=
    answer_cases done
  · cases nothing
  · rfl
  · cases nothing

/-- What a handle addresses is what was asked for. -/
theorem readBack_of_answer (done : a.answer r = .ok h) : (a.request r).2.readBack h = .ok r := by
  obtain ⟨kind, content, rfl, rfl⟩ | ⟨pool, rfl, rfl⟩ | ⟨pool, item, rest, rfl, rfl⟩ :=
    answer_cases done
  · exact bind_eq_ok.mpr ⟨content, Build.get_pushNode a kind content, rfl⟩
  · exact bind_eq_ok.mpr ⟨[], Build.slice_empty a pool, rfl⟩
  · exact bind_eq_ok.mpr ⟨item :: rest, Build.slice_append a (item :: rest), rfl⟩

/-! ## Sequences of requests -/

theorem after_append (a : Arena) (rs rs' : List Request) :
    a.after (rs ++ rs') = (a.after rs).after rs' :=
  List.foldl_append

theorem after_cons (a : Arena) (r : Request) (rs : List Request) :
    a.after (r :: rs) = (a.request r).2.after rs :=
  rfl

theorem after_grows (a : Arena) (rs : List Request) : a.Grows (a.after rs) := by
  induction rs generalizing a with
  | nil => exact .refl a
  | cons r rest ih => exact (request_grows a r).trans (ih _)

/-- What could be read can be read afterwards, with the same contents. -/
theorem Grows.readBack (grows : a.Grows a') (h : Ref) : Extends (a.readBack h) (a'.readBack h) := by
  cases h with
  | node kind id => exact (grows.get id).map _
  | list pool s => exact (grows.slice s).map _

theorem Grows.storage_size_le (grows : a.Grows a') (s : Storage) :
    (a.storage s).size ≤ (a'.storage s).size := by
  cases s with
  | nodes kind => exact grows.nodes_size_le kind
  | lists pool => exact grows.pool_size_le pool

/-- What can be read lies inside its storage. -/
theorem stop_le_of_readBack (done : a.readBack h = .ok r) :
    h.stop ≤ (a.storage r.storage).size := by
  cases h with
  | node kind id =>
    obtain ⟨node, found, same⟩ := bind_eq_ok.mp done
    cases same
    exact holds_of_get found
  | list pool s =>
    obtain ⟨items, found, same⟩ := bind_eq_ok.mp done
    cases same
    exact holds_of_slice found

/-- A storage stays as it is while nothing is put in it. -/
theorem after_storage_of_idle {s : Storage} {rs : List Request}
    (idle : ∀ r ∈ rs, r.storage = s → r.contents = []) (a : Arena) :
    (a.after rs).storage s = a.storage s := by
  induction rs generalizing a with
  | nil => rfl
  | cons r rest ih =>
    rw [List.forall_mem_cons] at idle
    rw [after_cons, ih idle.2]
    by_cases own : r.storage = s
    · subst own
      rw [request_storage, idle.1 rfl]
      exact Array.appendList_nil
    · exact request_storage_of_ne a (Ne.symm own)

/-- Of two handles of one storage, the later one addresses other places. -/
theorem places_disjoint (done : a.answer r = .ok h) (between : List Request)
    (done' : ((a.request r).2.after between).answer r' = .ok h') (same : r'.storage = r.storage) :
    Disjoint h.places h'.places := by
  by_cases nonempty : r'.contents = []
  · rw [places_of_answer_nil done' nonempty]
    exact Finset.disjoint_empty_right _
  · have first : h.stop ≤ ((a.request r).2.storage r.storage).size :=
      stop_le_of_readBack (readBack_of_answer done)
    have second := start_of_answer done' nonempty
    have grown := (after_grows (a.request r).2 between).storage_size_le r.storage
    rw [same] at second
    rw [Finset.disjoint_left]
    intro place mine other
    have before := (Finset.mem_Ico.mp mine).2
    have behind := (Finset.mem_Ico.mp other).1
    omega

/-- Handles are stable and disjoint, for every sequence of requests to an empty arena. Whatever
has been asked before, and whatever is asked of the arena afterwards:

* a request is refused exactly if it is for a list that is too long;
* a handle that is returned reads back what it was returned for, at every later point, and it
  shares no place with any other handle of its storage;
* no other storage is changed, and an empty list changes nothing and has the range `0..0`;
* a list that is refused leaves all handles readable, with the same contents, and what next goes
  to its storage begins right behind the refused items. -/
theorem handles_stable (before : List Request) (r : Request) :
    let a := empty.after before
    ((∃ e, a.answer r = .error e) ↔ r.isTooLong = true) ∧
    (∀ h, a.answer r = .ok h →
      (∀ later, (empty.after (before ++ r :: later)).readBack h = .ok r) ∧
      ∀ between r' h', (empty.after (before ++ r :: between)).answer r' = .ok h' →
        r'.storage = r.storage → Disjoint h.places h'.places) ∧
    (∀ s, s ≠ r.storage → (empty.after (before ++ [r])).storage s = a.storage s) ∧
    (∀ pool, r = .list pool [] → a.request r = (.ok (Ref.list pool .empty), a)) ∧
    (r.isTooLong = true →
      (∀ h x, a.readBack h = .ok x → (empty.after (before ++ [r])).readBack h = .ok x) ∧
      ∀ between next h, (∀ q ∈ between, q.storage = r.storage → q.contents = []) →
        next.storage = r.storage → next.contents ≠ [] →
        (empty.after (before ++ r :: between)).answer next = .ok h →
        h.start = (a.storage r.storage).size + r.contents.length) := by
  intro a
  have run (later : List Request) :
      empty.after (before ++ r :: later) = (a.request r).2.after later := after_append _ _ _
  simp only [run]
  refine ⟨a.refused_iff r, fun h done => ⟨fun later => ?_, fun between r' h' done' same => ?_⟩,
    fun s other => request_storage_of_ne a other, ?_, fun _ => ⟨fun h x found => ?_, ?_⟩⟩
  · exact (after_grows _ later).readBack h r (readBack_of_answer done)
  · exact places_disjoint done between done' same
  · rintro pool rfl
    rfl
  · exact (a.request_grows r).readBack h x found
  · intro between next h idle same nonempty done
    rw [start_of_answer done nonempty, same, after_storage_of_idle idle, size_request_storage]

/-- A list with `copies` items that are all the same. -/
def copiesOf (copies : Nat) : Request := .list .exprs (List.replicate copies ⟨0⟩)

theorem isTooLong_copiesOf {copies : Nat} (many : maxListLength < copies) :
    (copiesOf copies).isTooLong = true := by
  rw [copiesOf, Request.isTooLong, List.length_replicate]
  exact decide_eq_true many

/-- What follows a list and another one with `copies` items. -/
theorem answer_behind_copiesOf (copies : Nat) :
    (empty.after [copiesOf 1, copiesOf copies]).answer (copiesOf 2) =
      .ok (Ref.list .exprs ⟨1 + copies, 2⟩) := by
  have size : ((empty.after [copiesOf 1, copiesOf copies]).pool .exprs).size = 1 + copies :=
    calc ((empty.after [copiesOf 1, copiesOf copies]).pool .exprs).size
      _ = 1 + (List.replicate copies (⟨0⟩ : ExprId)).length := size_request_storage _ (copiesOf _)
      _ = 1 + copies := by rw [List.length_replicate]
  rw [show copiesOf 2 = .list .exprs [⟨0⟩, ⟨0⟩] from rfl, answer_cons, size]
  rfl

/-- The first list can be read after the second one was refused, and the third one begins behind
the refused items. -/
theorem handles_stable_refused :
    (∃ e, (empty.after [copiesOf 1]).answer (copiesOf 65536) = .error e) ∧
    (empty.after [copiesOf 1, copiesOf 65536]).readBack (Ref.list .exprs ⟨0, 1⟩) =
      .ok (copiesOf 1) ∧
    (empty.after [copiesOf 1, copiesOf 65536]).answer (copiesOf 2) =
      .ok (Ref.list .exprs ⟨1 + 65536, 2⟩) ∧
    Disjoint (Ref.list .exprs ⟨0, 1⟩).places (Ref.list .exprs ⟨1 + 65536, 2⟩).places ∧
    (Ref.list .exprs ⟨1 + 65536, 2⟩).start =
      ((empty.after [copiesOf 1]).storage (copiesOf 65536).storage).size +
        (copiesOf 65536).contents.length := by
  have long : (copiesOf 65536).isTooLong = true := isTooLong_copiesOf (by decide)
  have third := answer_behind_copiesOf 65536
  obtain ⟨-, returned, -⟩ := handles_stable [] (copiesOf 1)
  obtain ⟨stable, disjoint⟩ := returned (Ref.list .exprs ⟨0, 1⟩) rfl
  obtain ⟨refuses, -, -, -, behind⟩ := handles_stable [copiesOf 1] (copiesOf 65536)
  exact ⟨refuses.mpr long, stable [copiesOf 65536], third,
    disjoint [copiesOf 65536] _ _ third rfl,
    (behind long).2 [] (copiesOf 2) _ (List.forall_mem_nil _) rfl nofun third⟩

end Arena

end TrialLayout
