/-!
# Names

A name is a number that stands for a text. Texts are kept in two tables, a map that takes a text
to its number and a sequence that takes a number to its text (`TextTable`). A text that is new is
given the next number, in both tables one after the other; the empty text is number `0`. Looking
up a number that was never handed out gives the empty text.

The tables agree from the start, and interning a text keeps them so (`TextTable.Agrees`). An
`Interner` is a pair of tables that agree.
-/

namespace TrialLayout

/-- The number of a text in an interner. -/
structure Name where
  raw : Nat
deriving DecidableEq, Repr

namespace Name

/-- The name of the empty text. -/
def empty : Name := ⟨0⟩

instance : Inhabited Name := ⟨empty⟩

instance : Ord Name := ⟨fun a b => compare a.raw b.raw⟩

/-- A name as it is shown. -/
def describe (n : Name) : String := "Name(" ++ n.raw.repr ++ ")"

end Name

/-! ## Two tables -/

/-- The names of texts and the texts of names. The map is held as its insertions, the latest
first: an entry hides the older ones of the same text. -/
structure TextTable where
  map : List (String × Name)
  strings : Array String
deriving DecidableEq, Repr

namespace TextTable

/-- Adds a text to the sequence. -/
def push (t : TextTable) (text : String) : TextTable :=
  { t with strings := t.strings.push text }

/-- Adds an entry to the map. -/
def insert (t : TextTable) (text : String) (n : Name) : TextTable :=
  { t with map := (text, n) :: t.map }

/-- Tables that know the empty text only. -/
def new : TextTable := ((⟨[], #[]⟩ : TextTable).push "").insert "" .empty

/-- The name of a text that was seen before, as the map has it. -/
def get? (t : TextTable) (text : String) : Option Name := t.map.lookup text

/-- The number of texts seen, the empty one included. -/
def size (t : TextTable) : Nat := t.strings.size

/-- The text of a name, as the sequence has it; the empty text if the name was never handed
out. -/
def lookup (t : TextTable) (n : Name) : String := t.strings.getD n.raw ""

/-- The name of a text, which is given the next number if the map does not know it yet. -/
def intern (t : TextTable) (text : String) : Name × TextTable :=
  match t.get? text with
  | some n => (n, t)
  | none =>
    let n : Name := ⟨t.size⟩
    (n, (t.push text).insert text n)

/-- A text has a name in the map exactly if the name has that text in the sequence. -/
def Agrees (t : TextTable) : Prop := ∀ s n, t.get? s = some n ↔ t.strings[n.raw]? = some s

/-- A known text is left alone; any other comes last in the sequence and under that number in
the map. -/
theorem intern_cases (t : TextTable) (s : String) :
    (∃ n, t.get? s = some n ∧ t.intern s = (n, t)) ∨
    t.get? s = none ∧ t.intern s = (⟨t.size⟩, (t.push s).insert s ⟨t.size⟩) := by
  cases found : t.get? s with
  | some n => exact .inl ⟨n, rfl, by rw [intern, found]⟩
  | none => exact .inr ⟨rfl, by rw [intern, found]⟩

/-- What a text is called is what the map has for it from then on. -/
theorem get?_intern_self (t : TextTable) (s : String) :
    (t.intern s).2.get? s = some (t.intern s).1 := by
  obtain ⟨n, known, same⟩ | ⟨-, added⟩ := t.intern_cases s
  · rw [same]
    exact known
  · rw [added]
    exact List.lookup_cons_self

/-- The sequence only grows. -/
theorem intern_grows (t : TextTable) (s : String) :
    ∃ more, (t.intern s).2.strings = t.strings ++ more := by
  obtain ⟨n, -, same⟩ | ⟨-, added⟩ := t.intern_cases s
  · rw [same]
    exact ⟨#[], Array.append_empty.symm⟩
  · rw [added]
    exact ⟨#[s], Array.push_eq_append⟩

theorem Agrees.new : new.Agrees := by
  intro s n
  show List.lookup s [("", Name.empty)] = some n ↔ #[""][n.raw]? = some s
  rw [List.lookup_cons, Array.getElem?_singleton]
  by_cases nonempty : s = ""
  · subst nonempty
    cases n with
    | mk raw =>
      cases raw with
      | zero => exact ⟨fun _ => rfl, fun _ => rfl⟩
      | succ _ => exact ⟨nofun, nofun⟩
  · rw [beq_false_of_ne nonempty]
    refine ⟨nofun, fun other => ?_⟩
    split at other
    · exact absurd (Option.some.inj other).symm nonempty
    · cases other

/-- The new text stands behind the others in the sequence, so the number that the map gets for
it is free, and the map had no entry that the new one hides. -/
theorem Agrees.intern {t : TextTable} (agrees : t.Agrees) (text : String) :
    (t.intern text).2.Agrees := by
  obtain ⟨n, -, same⟩ | ⟨unknown, added⟩ := t.intern_cases text
  · rw [same]
    exact agrees
  · rw [added]
    intro s n
    show List.lookup s ((text, _) :: t.map) = some n ↔ (t.strings.push text)[n.raw]? = some s
    rw [List.lookup_cons, Array.getElem?_push]
    by_cases here : s = text
    · subst here
      rw [beq_self_eq_true]
      constructor
      · rintro ⟨⟩
        exact if_pos rfl
      · intro found
        split at found
        next last => exact congrArg some (congrArg Name.mk last.symm)
        next => cases unknown.symm.trans ((agrees s n).mpr found)
    · rw [beq_false_of_ne here]
      refine (agrees s n).trans ⟨fun found => ?_, fun found => ?_⟩
      · rw [if_neg (Nat.ne_of_lt (Array.getElem?_eq_some_iff.mp found).1)]
        exact found
      · split at found
        · exact absurd (Option.some.inj found).symm here
        · exact found

end TextTable

/-! ## Interners -/

/-- Two tables that agree. -/
structure Interner where
  table : TextTable
  agrees : table.Agrees
deriving DecidableEq, Repr

namespace Interner

/-- An interner that knows the empty text only. -/
def empty : Interner := ⟨.new, .new⟩

instance : Inhabited Interner := ⟨empty⟩

/-- The texts that have names, by number. -/
def strings (names : Interner) : Array String := names.table.strings

/-- The name of a text that was seen before. -/
def get? (names : Interner) (text : String) : Option Name := names.table.get? text

/-- The number of texts seen, the empty one included. -/
def size (names : Interner) : Nat := names.table.size

/-- The text of a name; the empty text if the name was never handed out. -/
def lookup (names : Interner) (n : Name) : String := names.table.lookup n

/-- The name of a text, which is given the next number if it has none yet. -/
def intern (names : Interner) (text : String) : Name × Interner :=
  let next := names.table.intern text
  (next.1, ⟨next.2, names.agrees.intern text⟩)

/-- The interner after a sequence of texts. -/
def after (names : Interner) (texts : List String) : Interner :=
  texts.foldl (fun names text => (names.intern text).2) names

end Interner

end TrialLayout
