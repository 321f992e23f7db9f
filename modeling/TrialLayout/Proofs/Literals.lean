import TrialLayout.Text.Literal

/-!
# Literals stay on one line

Whatever a literal stands for, its text has no newline: a newline inside it is written as an
escape, and numbers are digits. So a literal is always written in one piece.
-/

namespace TrialLayout.Text

/-- A text that does not end a line. -/
def OneLine (text : String) : Prop := '\n' ∉ text.toList

instance (text : String) : Decidable (OneLine text) := inferInstanceAs (Decidable (¬ _))

theorem OneLine.append {a b : String} (ha : OneLine a) (hb : OneLine b) : OneLine (a ++ b) := by
  unfold OneLine at *
  rw [String.toList_append, List.mem_append, not_or]
  exact ⟨ha, hb⟩

theorem OneLine.intercalate {separator : String} (hs : OneLine separator) {texts : List String}
    (h : ∀ text ∈ texts, OneLine text) : OneLine (separator.intercalate texts) := by
  match texts with
  | [] => exact (by decide : OneLine "")
  | [text] =>
    rw [String.intercalate_singleton]
    exact h text (by simp)
  | text :: second :: rest =>
    rw [String.intercalate_cons_cons]
    exact ((h text (by simp)).append hs).append
      (OneLine.intercalate hs fun other mem => h other (List.mem_cons_of_mem _ mem))

theorem repr_oneLine (n : Nat) : OneLine n.repr := by
  intro mem
  rw [Nat.toList_repr] at mem
  have digit : ('\n').isDigit = true :=
    Nat.isDigit_of_mem_toDigits (by decide) (by decide) mem
  exact absurd digit (by decide)

theorem int_repr_oneLine (n : Int) : OneLine n.repr := by
  cases n with
  | ofNat n => exact repr_oneLine n
  | negSucc n => exact OneLine.append (by decide) (repr_oneLine (n + 1))

theorem newline_not_mem_escape (quote c : Char) : '\n' ∉ escape quote c := by
  unfold escape
  split
  · decide
  · split
    · decide
    · next notNewline =>
      repeat' split
      · decide
      · decide
      · simp [Ne.symm notNewline]
      · rw [List.mem_cons, not_or]
        exact ⟨by decide, repr_oneLine c.toNat⟩
      · simp [Ne.symm notNewline]

theorem newline_not_mem_escapeString (text : List Char) : '\n' ∉ escapeString text := by
  induction text with
  | nil => simp [escapeString]
  | cons c rest ih =>
    have guarded : '\n' ∉ digitGuard c rest := by
      unfold digitGuard
      split <;> decide
    simp [escapeString, newline_not_mem_escape, guarded, ih]

theorem charLiteral_oneLine (c : Char) : OneLine (charLiteral c) := by
  simp [OneLine, charLiteral, newline_not_mem_escape]

theorem stringLiteral_oneLine (text : String) : OneLine (stringLiteral text) := by
  simp [OneLine, stringLiteral, newline_not_mem_escapeString]

end TrialLayout.Text
