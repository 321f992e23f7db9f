import TrialLayout.Text.Blank

/-!
# Lines of a text

A text is cut at each newline character into one line more than it has newlines, and
`joinLines` puts it together again. The finished form of a text has the trailing white
space of every line removed. Its final form in addition ends in exactly one newline.
-/

namespace TrialLayout.Text

/-- Puts one more character in front of a text that is already cut into lines. -/
def consLine (c : Char) (lines : List (List Char)) : List (List Char) :=
  if c = '\n' then [] :: lines
  else
    match lines with
    | [] => [[c]]
    | line :: rest => (c :: line) :: rest

/-- Cuts a text at its newlines. The result has at least one line. -/
def splitLines (text : List Char) : List (List Char) := text.foldr consLine [[]]

/-- Puts a newline between each two lines. -/
def joinLines (lines : List (List Char)) : List Char := ['\n'].intercalate lines

/-- Drops the longest tail of characters that satisfy `p`. -/
def dropTail (p : Char → Bool) (text : List Char) : List Char :=
  (text.reverse.dropWhile p).reverse

/-- Drops the trailing white space of one line. -/
def trimEnd (line : List Char) : List Char := dropTail isBlank line

/-- Drops the trailing white space of every line. -/
def finish (text : String) : String :=
  String.ofList (joinLines ((splitLines text.toList).map trimEnd))

/-- Drops the trailing newlines of a text and ends it with exactly one. -/
def endWithNewline (text : String) : String :=
  String.ofList (dropTail (· == '\n') text.toList ++ ['\n'])

/-- Drops the trailing white space of every line and the trailing blank lines, and ends
the text with exactly one newline. -/
def finalize (text : String) : String := endWithNewline (finish text)

/-- A text followed by `n` spaces. -/
def addSpaces (text : String) (n : Nat) : String := text.pushn ' ' n

@[simp] theorem toList_addSpaces (text : String) (n : Nat) :
    (addSpaces text n).toList = text.toList ++ List.replicate n ' ' := by
  rw [addSpaces, String.pushn_eq_repeat_push]
  induction n with
  | zero => simp [Nat.repeat]
  | succ n ih => simp [Nat.repeat, ih, List.replicate_succ']

@[simp] theorem splitLines_nil : splitLines [] = [[]] := rfl

@[simp] theorem splitLines_cons (c : Char) (text : List Char) :
    splitLines (c :: text) = consLine c (splitLines text) := rfl

theorem consLine_ne_nil (c : Char) (lines : List (List Char)) : consLine c lines ≠ [] := by
  unfold consLine
  split
  · simp
  · split <;> simp

theorem splitLines_ne_nil (text : List Char) : splitLines text ≠ [] := by
  cases text with
  | nil => simp
  | cons c rest => exact consLine_ne_nil c (splitLines rest)

theorem joinLines_cons_cons (a b : List Char) (rest : List (List Char)) :
    joinLines (a :: b :: rest) = a ++ '\n' :: joinLines (b :: rest) := by
  simp [joinLines, List.intercalate_cons_cons]

/-- Cutting a text and putting it together again gives it back. -/
theorem joinLines_splitLines (text : List Char) : joinLines (splitLines text) = text := by
  induction text with
  | nil => rfl
  | cons c rest ih =>
    rw [splitLines_cons]
    cases h : splitLines rest with
    | nil => exact absurd h (splitLines_ne_nil rest)
    | cons line lines =>
      rw [h] at ih
      unfold consLine
      split
      · rename_i hc
        rw [joinLines_cons_cons, ih, hc, List.nil_append]
      · cases lines with
        | nil => simp_all [joinLines]
        | cons next more =>
          rw [joinLines_cons_cons] at ih ⊢
          rw [List.cons_append, ih]

end TrialLayout.Text
