import TrialLayout.Text.Lines

/-!
# Cutting texts into lines

What `splitLines` does to the ways in which texts are put together, and what finishing and
finalizing a text do to its lines. Both keep every line where it is: a line that is not empty
in the final form is a trimmed line of the text, with the same number
(`getElem?_splitLines_finalize`).
-/

namespace TrialLayout.Text

/-! ## Putting together -/

theorem splitLines_cons_of_ne {c : Char} (hc : c ≠ '\n') (text : List Char) :
    splitLines (c :: text) =
      (c :: (splitLines text).headD []) :: (splitLines text).tail := by
  rw [splitLines_cons, consLine.eq_def, if_neg hc]
  cases h : splitLines text with
  | nil => exact absurd h (splitLines_ne_nil text)
  | cons line rest => rfl

theorem splitLines_newline (text : List Char) :
    splitLines ('\n' :: text) = [] :: splitLines text := by
  rw [splitLines_cons, consLine.eq_def, if_pos rfl]

/-- A newline between two texts separates their lines. -/
theorem splitLines_append_newline (a b : List Char) :
    splitLines (a ++ '\n' :: b) = splitLines a ++ splitLines b := by
  induction a with
  | nil => exact splitLines_newline b
  | cons c rest ih =>
    rw [List.cons_append]
    by_cases hc : c = '\n'
    · subst hc
      rw [splitLines_newline, splitLines_newline, ih, List.cons_append]
    · rw [splitLines_cons_of_ne hc, splitLines_cons_of_ne hc, ih]
      cases h : splitLines rest with
      | nil => exact absurd h (splitLines_ne_nil rest)
      | cons line lines => rfl

theorem length_splitLines (text : List Char) :
    (splitLines text).length = text.count '\n' + 1 := by
  induction text with
  | nil => rfl
  | cons c rest ih =>
    by_cases hc : c = '\n'
    · subst hc
      rw [splitLines_newline, List.length_cons, ih, List.count_cons_self]
    · rw [splitLines_cons_of_ne hc, List.length_cons, List.length_tail, ih,
        List.count_cons_of_ne hc]
      rfl

theorem splitLines_of_oneLine {text : List Char} (h : '\n' ∉ text) : splitLines text = [text] := by
  induction text with
  | nil => rfl
  | cons c rest ih =>
    rw [List.mem_cons, not_or] at h
    rw [splitLines_cons_of_ne (Ne.symm h.1), ih h.2]
    rfl

theorem newline_not_mem_of_mem_splitLines {text line : List Char} (h : line ∈ splitLines text) :
    '\n' ∉ line := by
  induction text generalizing line with
  | nil => simp_all
  | cons c rest ih =>
    by_cases hc : c = '\n'
    · subst hc
      rw [splitLines_newline, List.mem_cons] at h
      rcases h with rfl | inRest
      · simp
      · exact ih inRest
    · rw [splitLines_cons_of_ne hc] at h
      cases shape : splitLines rest with
      | nil => exact absurd shape (splitLines_ne_nil rest)
      | cons first more =>
        rw [shape] at h ih
        rcases List.mem_cons.mp h with rfl | inMore
        · rw [List.headD_cons, List.mem_cons, not_or]
          exact ⟨Ne.symm hc, ih List.mem_cons_self⟩
        · exact ih (List.mem_cons_of_mem _ inMore)

/-- Lines that are put together are cut apart again. -/
theorem splitLines_joinLines {lines : List (List Char)} (nonempty : lines ≠ [])
    (h : ∀ line ∈ lines, '\n' ∉ line) : splitLines (joinLines lines) = lines := by
  induction lines with
  | nil => exact absurd rfl nonempty
  | cons line rest ih =>
    have first : splitLines line = [line] := splitLines_of_oneLine (h line List.mem_cons_self)
    cases rest with
    | nil =>
      rw [joinLines, List.intercalate_singleton]
      exact first
    | cons second rest =>
      rw [joinLines_cons_cons, splitLines_append_newline, first,
        ih (by simp) fun other mem => h other (List.mem_cons_of_mem _ mem)]
      rfl

theorem splitLines_of_newlines {text : List Char} (h : ∀ c ∈ text, c = '\n') :
    splitLines text = List.replicate (text.length + 1) [] := by
  induction text with
  | nil => rfl
  | cons c rest ih =>
    rw [List.forall_mem_cons] at h
    rw [h.1, splitLines_newline, ih h.2]
    rfl

/-! ## Trimming -/

/-- What is dropped is a tail of characters that satisfy `p`. -/
theorem dropTail_append (p : Char → Bool) (text : List Char) :
    ∃ tail, text = dropTail p text ++ tail ∧ ∀ c ∈ tail, p c = true := by
  refine ⟨(text.reverse.takeWhile p).reverse, ?_, ?_⟩
  · rw [dropTail, ← List.reverse_append, List.takeWhile_append_dropWhile, List.reverse_reverse]
  · intro c mem
    exact List.all_eq_true.mp List.all_takeWhile c (List.mem_reverse.mp mem)

theorem newline_not_mem_trimEnd {line : List Char} (h : '\n' ∉ line) : '\n' ∉ trimEnd line := by
  obtain ⟨tail, shape, -⟩ := dropTail_append isBlank line
  intro mem
  exact h (shape ▸ List.mem_append_left tail mem)

/-- Finishing a text trims its lines. -/
theorem splitLines_finish (text : String) :
    splitLines (finish text).toList = (splitLines text.toList).map trimEnd := by
  rw [finish, String.toList_ofList]
  refine splitLines_joinLines (by simpa using splitLines_ne_nil _) fun line mem => ?_
  obtain ⟨whole, inText, rfl⟩ := List.mem_map.mp mem
  exact newline_not_mem_trimEnd (newline_not_mem_of_mem_splitLines inText)

theorem joinLines_append {a b : List (List Char)} (ha : a ≠ []) (hb : b ≠ []) :
    joinLines (a ++ b) = joinLines a ++ '\n' :: joinLines b := by
  induction a with
  | nil => exact absurd rfl ha
  | cons line rest ih =>
    cases rest with
    | nil =>
      cases b with
      | nil => exact absurd rfl hb
      | cons first more => simp [joinLines, List.intercalate_cons_cons]
    | cons second rest =>
      rw [List.cons_append, List.cons_append, joinLines_cons_cons, ← List.cons_append,
        ih (by simp), joinLines_cons_cons, List.append_assoc, List.cons_append]

/-- Finishing two texts with a newline between them finishes each. -/
theorem finish_append_newline (a b : String) :
    finish (a ++ "\n" ++ b) = finish a ++ "\n" ++ finish b := by
  have lines : splitLines (a ++ "\n" ++ b).toList = splitLines a.toList ++ splitLines b.toList := by
    rw [String.toList_append, String.toList_append, List.append_assoc]
    exact splitLines_append_newline a.toList b.toList
  have some (text : String) : (splitLines text.toList).map trimEnd ≠ [] := by
    simpa using splitLines_ne_nil text.toList
  apply String.toList_inj.mp
  rw [finish, lines, List.map_append, joinLines_append (some a) (some b)]
  simp [finish]

/-- Dropping trailing newlines drops trailing empty lines. -/
theorem splitLines_dropTail (text : List Char) :
    ∃ blank, splitLines text =
      splitLines (dropTail (· == '\n') text) ++ List.replicate blank [] := by
  obtain ⟨tail, shape, newlines⟩ := dropTail_append (· == '\n') text
  cases tail with
  | nil => exact ⟨0, by rw [List.append_nil] at shape; simp [← shape]⟩
  | cons c rest =>
    rw [List.forall_mem_cons] at newlines
    have hc : c = '\n' := beq_iff_eq.mp newlines.1
    rw [hc] at shape
    refine ⟨rest.length + 1, ?_⟩
    calc splitLines text
      _ = splitLines (dropTail (· == '\n') text ++ '\n' :: rest) := congrArg splitLines shape
      _ = _ := by
        rw [splitLines_append_newline, splitLines_of_newlines fun x mem =>
          beq_iff_eq.mp (newlines.2 x mem)]

/-- The lines of the final form that are not empty are the trimmed lines of the text. -/
theorem getElem?_splitLines_finalize {text : String} {i : Nat} {line : List Char}
    (h : (splitLines (finalize text).toList)[i]? = some line) (nonempty : line ≠ []) :
    ∃ whole, (splitLines text.toList)[i]? = some whole ∧ trimEnd whole = line := by
  obtain ⟨blank, shape⟩ := splitLines_dropTail (finish text).toList
  rw [finalize, endWithNewline, String.toList_ofList, splitLines_append_newline] at h
  -- the empty lines at the end are not those we look for
  have inside : i < (splitLines (dropTail (· == '\n') (finish text).toList)).length := by
    refine Nat.lt_of_not_le fun outside => nonempty ?_
    rw [List.getElem?_append_right outside] at h
    exact List.mem_singleton.mp (List.mem_of_getElem? h)
  have kept : (splitLines (finish text).toList)[i]? = some line := by
    rw [shape, List.getElem?_append_left inside, ← h, List.getElem?_append_left inside]
  rwa [splitLines_finish, List.getElem?_map, Option.map_eq_some_iff] at kept

end TrialLayout.Text
