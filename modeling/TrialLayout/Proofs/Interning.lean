import Mathlib.Data.Finset.Card
import TrialLayout.Name

/-!
# Names and texts

An interner holds a map from texts to names and a sequence of texts, and changes them one after
the other. Nothing in the type of the two tables keeps them together. That each is the inverse of
the other after every sequence of texts is shown by induction over the sequence
(`agrees_after`). From this it follows that no text is held twice (`Agrees.nodup`) and that the
map answers as a search through the sequence would (`Agrees.get?_eq_idxOf?`).

Interning a text keeps all names that were handed out (`Agrees.get?_intern`) and makes no other
text known (`get?_of_intern`), so a name belongs to the first occurrence of its text, for good.

Result: `interner_stable`, for every sequence of texts given to new tables.
-/

namespace TrialLayout

namespace TextTable

/-- The tables after a sequence of texts. -/
def after (table : TextTable) (texts : List String) : TextTable :=
  texts.foldl (fun table text => (table.intern text).2) table

variable {table : TextTable} {s t : String} {n : Name}

/-! ## Tables that agree -/

namespace Agrees

theorem lookup_of_get? (agrees : table.Agrees) (known : table.get? s = some n) :
    table.lookup n = s := by
  rw [lookup, Array.getD_eq_getD_getElem?, (agrees s n).mp known, Option.getD_some]

/-- Two texts with one name are the same text. -/
theorem eq_of_get? (agrees : table.Agrees) (known : table.get? s = some n)
    (known' : table.get? t = some n) : s = t :=
  (agrees.lookup_of_get? known).symm.trans (agrees.lookup_of_get? known')

/-- Two numbers with one text are both the name that the map has for it. -/
theorem nodup (agrees : table.Agrees) : table.strings.toList.Nodup := by
  refine List.nodup_iff_getElem?_ne_getElem?.mpr fun i j earlier inside same => ?_
  have found := List.getElem?_eq_getElem (earlier.trans inside)
  have here := (agrees _ ⟨i⟩).mpr (Array.getElem?_toList.symm.trans found)
  have there := (agrees _ ⟨j⟩).mpr (Array.getElem?_toList.symm.trans (same.symm.trans found))
  cases here.symm.trans there
  exact Nat.lt_irrefl i earlier

theorem get?_eq_none (agrees : table.Agrees) :
    table.get? s = none ↔ s ∉ table.strings.toList := by
  rw [Option.eq_none_iff_forall_not_mem, List.mem_iff_getElem?, not_exists]
  constructor
  · intro unknown i found
    exact unknown ⟨i⟩ ((agrees s ⟨i⟩).mpr (Array.getElem?_toList.symm.trans found))
  · intro absent n known
    exact absent n.raw (Array.getElem?_toList.trans ((agrees s n).mp known))

/-- The map answers as a search through the sequence would. -/
theorem get?_eq_idxOf? (agrees : table.Agrees) (s : String) :
    table.get? s = (table.strings.toList.idxOf? s).map Name.mk := by
  cases found : table.strings.toList.idxOf? s with
  | none => exact agrees.get?_eq_none.mpr (List.idxOf?_eq_none_iff.mp found)
  | some i =>
    obtain ⟨inside, same, -⟩ := List.idxOf?_eq_some_iff.mp found
    refine (agrees s ⟨i⟩).mpr (Array.getElem?_toList.symm.trans ?_)
    exact (List.getElem?_eq_getElem inside).trans (congrArg some same)

/-- Interning a text keeps the names that were handed out. -/
theorem get?_intern (agrees : table.Agrees) (known : table.get? s = some n) (t : String) :
    (table.intern t).2.get? s = some n := by
  obtain ⟨more, grown⟩ := table.intern_grows t
  have found := (agrees s n).mp known
  refine ((agrees.intern t) s n).mpr ((congrArg (·[n.raw]?) grown).trans ?_)
  exact (Array.getElem?_append_left (Array.getElem?_eq_some_iff.mp found).1).trans found

/-- A text that has a name is given that name again. -/
theorem intern_of_get? (agrees : table.Agrees) (known : table.get? s = some n) :
    (table.intern s).1 = n :=
  Option.some.inj ((table.get?_intern_self s).symm.trans (agrees.get?_intern known s))

end Agrees

/-! ## One text -/

/-- Interning a text makes no other text known. -/
theorem get?_of_intern (known : (table.intern t).2.get? s = some n) (other : s ≠ t) :
    table.get? s = some n := by
  obtain ⟨m, -, same⟩ | ⟨-, added⟩ := table.intern_cases t
  · rwa [same] at known
  · rw [added] at known
    change List.lookup s ((t, _) :: table.map) = some n at known
    rwa [List.lookup_cons, beq_false_of_ne other] at known

theorem intern_of_new (new : table.get? s = none) : (table.intern s).1 = ⟨table.size⟩ := by
  obtain ⟨n, known, -⟩ | ⟨-, added⟩ := table.intern_cases s
  · cases new.symm.trans known
  · rw [added]

/-- Beyond the names that were handed out there are no texts. -/
theorem lookup_of_size_le {raw : Nat} (beyond : table.size ≤ raw) : table.lookup ⟨raw⟩ = "" := by
  rw [lookup, Array.getD_eq_getD_getElem?, Array.getElem?_eq_none beyond, Option.getD_none]

/-! ## Sequences of texts -/

theorem after_append (table : TextTable) (before later : List String) :
    table.after (before ++ later) = (table.after before).after later :=
  List.foldl_append

theorem Agrees.after (agrees : table.Agrees) (texts : List String) :
    (table.after texts).Agrees := by
  induction texts generalizing table with
  | nil => exact agrees
  | cons t rest ih => exact ih (agrees.intern t)

/-- After every sequence of texts each table is the inverse of the other. -/
theorem agrees_after (texts : List String) : (new.after texts).Agrees := Agrees.new.after texts

theorem Agrees.get?_after (agrees : table.Agrees) (known : table.get? s = some n)
    (texts : List String) : (table.after texts).get? s = some n := by
  induction texts generalizing table with
  | nil => exact known
  | cons t rest ih => exact ih (agrees.intern t) (agrees.get?_intern known t)

/-- What a text is called after it was interned, and ever after. -/
theorem Agrees.get?_after_interned (agrees : table.Agrees) (before : List String) (s : String)
    (later : List String) :
    (table.after (before ++ s :: later)).get? s = some ((table.after before).intern s).1 := by
  rw [after_append]
  exact ((agrees.after before).intern s).get?_after
    ((table.after before).get?_intern_self s) later

theorem get?_of_after {texts : List String} (known : (table.after texts).get? s = some n)
    (other : s ∉ texts) : table.get? s = some n := by
  induction texts generalizing table with
  | nil => exact known
  | cons t rest ih =>
    rw [List.mem_cons, not_or] at other
    exact get?_of_intern (ih known other.2) other.1

/-- The empty text keeps number `0`. -/
theorem get?_empty (texts : List String) : (new.after texts).get? "" = some .empty :=
  Agrees.new.get?_after rfl texts

/-- The texts that have names are the empty one and those that were interned. -/
theorem get?_eq_none_iff {texts : List String} :
    (new.after texts).get? s = none ↔ s ∉ "" :: texts := by
  rw [List.mem_cons, not_or]
  constructor
  · intro unknown
    constructor
    · rintro rfl
      cases unknown.symm.trans (get?_empty texts)
    · intro mem
      obtain ⟨before, later, rfl⟩ := List.append_of_mem mem
      cases unknown.symm.trans (Agrees.new.get?_after_interned before s later)
  · rintro ⟨nonempty, other⟩
    have unknown : new.get? s = none :=
      Agrees.new.get?_eq_none.mpr fun mem => nonempty (List.mem_singleton.mp mem)
    cases known : (new.after texts).get? s with
    | none => rfl
    | some n => cases unknown.symm.trans (get?_of_after known other)

/-- The names of two calls, at whatever points, are the same exactly if the texts are. -/
theorem intern_eq_intern_iff {before between : List String} :
    ((new.after before).intern s).1 = ((new.after (before ++ s :: between)).intern t).1 ↔
      s = t := by
  have agrees := agrees_after (before ++ s :: between)
  have named := Agrees.new.get?_after_interned before s between
  constructor
  · intro same
    have kept := agrees.get?_intern named t
    have other := (new.after (before ++ s :: between)).get?_intern_self t
    rw [← same] at other
    exact (agrees.intern t).eq_of_get? kept other
  · rintro rfl
    exact (agrees.intern_of_get? named).symm

/-- A text is found under the name that it was given, which for the empty one is number `0`. -/
theorem get?_eq_some_iff {texts : List String} :
    (new.after texts).get? s = some n ↔ s = "" ∧ n = .empty ∨
      ∃ earlier between, texts = earlier ++ s :: between ∧
        n = ((new.after earlier).intern s).1 := by
  constructor
  · intro known
    have interned : s ∈ "" :: texts := by
      by_contra unknown
      cases known.symm.trans (get?_eq_none_iff.mpr unknown)
    rcases List.mem_cons.mp interned with rfl | mem
    · exact .inl ⟨rfl, Option.some.inj (known.symm.trans (get?_empty texts))⟩
    · obtain ⟨earlier, between, rfl⟩ := List.append_of_mem mem
      have named := Agrees.new.get?_after_interned earlier s between
      exact .inr ⟨earlier, between, rfl, Option.some.inj (known.symm.trans named)⟩
  · rintro (⟨rfl, rfl⟩ | ⟨earlier, between, rfl, rfl⟩)
    · exact get?_empty texts
    · exact Agrees.new.get?_after_interned earlier s between

/-- The number of names is the number of distinct texts. -/
theorem size_after (texts : List String) :
    (new.after texts).size = ("" :: texts).toFinset.card := by
  have agrees := agrees_after texts
  have same : (new.after texts).strings.toList.toFinset = ("" :: texts).toFinset := by
    ext s
    rw [List.mem_toFinset, List.mem_toFinset, ← not_iff_not, ← agrees.get?_eq_none,
      get?_eq_none_iff]
  calc (new.after texts).strings.size
    _ = (new.after texts).strings.toList.toFinset.card := by
      rw [List.toFinset_card_of_nodup agrees.nodup, Array.length_toList]
    _ = ("" :: texts).toFinset.card := by rw [same]

end TextTable

/-- The tables of an interner go through a sequence of texts as tables alone do. -/
theorem Interner.table_after (names : Interner) (texts : List String) :
    (names.after texts).table = names.table.after texts := by
  induction texts generalizing names with
  | nil => rfl
  | cons t rest ih => exact ih (names.intern t).2

namespace TextTable

/-- Names and texts belong together for good, for every sequence of texts given to new tables.
Whatever was interned before:

* the map and the sequence are inverse to each other, no text is held twice, and the map answers
  as a search through the sequence would;
* these are the tables that the interner of a forest has after the same texts, and it gives a text
  the name that they give it;
* the name that a text is given stands for that text, now and ever after;
* of two calls, at whatever points, the names are the same exactly if the texts are;
* a text can be found exactly if it is empty or was interned, under the name it was given then;
* a text that is new is given the number of distinct texts before it, the empty one included,
  which is number `0`;
* the size is the number of distinct texts, and numbers from there on stand for the empty text. -/
theorem interner_stable (before : List String) (s : String) :
    let table : TextTable := new.after before
    let n : Name := (table.intern s).1
    ((∀ t m, table.get? t = some m ↔ table.strings[m.raw]? = some t) ∧
      table.strings.toList.Nodup ∧
      ∀ t, table.get? t = (table.strings.toList.idxOf? t).map Name.mk) ∧
    ((Interner.empty.after before).table = table ∧
      ((Interner.empty.after before).intern s).1 = n) ∧
    (∀ later, (new.after (before ++ s :: later)).lookup n = s) ∧
    (∀ between t, n = ((new.after (before ++ s :: between)).intern t).1 ↔ s = t) ∧
    (∀ m, table.get? s = some m ↔ s = "" ∧ m = .empty ∨
      ∃ earlier between, before = earlier ++ s :: between ∧
        m = ((new.after earlier).intern s).1) ∧
    (table.intern "").1 = .empty ∧
    (s ∉ "" :: before → n.raw = ("" :: before).toFinset.card) ∧
    table.size = ("" :: before).toFinset.card ∧
    ∀ raw, table.size ≤ raw → table.lookup ⟨raw⟩ = "" := by
  intro table n
  have agrees : table.Agrees := agrees_after before
  have held : (Interner.empty.after before).table = table := Interner.empty.table_after before
  have named (later : List String) : (new.after (before ++ s :: later)).get? s = some n :=
    Agrees.new.get?_after_interned before s later
  have fresh (unknown : s ∉ "" :: before) : n.raw = ("" :: before).toFinset.card := by
    rw [← size_after]
    exact congrArg Name.raw (intern_of_new (get?_eq_none_iff.mpr unknown))
  exact ⟨⟨agrees, agrees.nodup, agrees.get?_eq_idxOf?⟩,
    ⟨held, congrArg (fun table => (table.intern s).1) held⟩,
    fun later => (agrees_after _).lookup_of_get? (named later),
    fun _ _ => intern_eq_intern_iff, fun _ => get?_eq_some_iff,
    agrees.intern_of_get? (get?_empty before), fresh, size_after before,
    fun _ => lookup_of_size_le⟩

/-- Two texts, one of them twice, and a third one. -/
theorem interner_stable_repeated :
    (new.after ["a", "b", "a", "c", "b"]).map = [("c", ⟨3⟩), ("b", ⟨2⟩), ("a", ⟨1⟩), ("", ⟨0⟩)] ∧
    (new.after ["a", "b", "a", "c", "b"]).strings = #["", "a", "b", "c"] ∧
    (new.after ["a", "b", "a", "c", "b"]).lookup ⟨3⟩ = "c" ∧
    ((new.after ["a"]).intern "b").1 = ((new.after ["a", "b", "a", "c"]).intern "b").1 ∧
    (new.after ["a", "b", "a"]).get? "a" = some ((new.after []).intern "a").1 ∧
    "c" ∉ "" :: ["a", "b", "a"] ∧
    ((new.after ["a", "b", "a"]).intern "c").1.raw = ("" :: ["a", "b", "a"]).toFinset.card ∧
    (new.after ["a", "b", "a"]).size ≤ 7 ∧ (new.after ["a", "b", "a"]).lookup ⟨7⟩ = "" := by
  obtain ⟨-, -, lookup, -, -, -, fresh, -, beyond⟩ := interner_stable ["a", "b", "a"] "c"
  obtain ⟨-, -, -, same, -⟩ := interner_stable ["a"] "b"
  obtain ⟨-, -, -, -, known, -⟩ := interner_stable ["a", "b", "a"] "a"
  have other : "c" ∉ "" :: ["a", "b", "a"] := by decide
  have few : (new.after ["a", "b", "a"]).size ≤ 7 := by decide
  exact ⟨rfl, rfl, lookup ["b"], (same ["a", "c"] "b").mpr rfl,
    (known _).mpr (.inr ⟨[], ["b", "a"], rfl, rfl⟩), other, fresh other, few, beyond 7 few⟩

end TextTable

end TrialLayout
