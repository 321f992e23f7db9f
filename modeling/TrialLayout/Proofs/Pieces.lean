import TrialLayout.Proofs.Lines
import TrialLayout.Proofs.LiteralReading

/-!
# Text written in pieces

The indentation of a line is written with the first character that comes after the newline, in
whichever write that character comes. This module shows that the writes leave no trace: only the
text counts that they make up together.

* `Printer.writeLines`: a text written by fragments, each in one piece, with the ends of lines
  between them. This is what `write` does character by character (`Printer.write_eq_writeLines`),
  so every line that is not empty gets its indentation once (`Printer.write_output_lines`).
* `Printer.write_injective`: no two texts leave the same printer behind, whatever printer they are
  written on. With `Printer.foldl_write` this says exactly which sequences of writes agree.
* `Layout.Recut`, `Script.Recut`: two layouts, or two scripts, that differ only in how the text
  between their other operations is cut into writes. They do the same to every printer
  (`Layout.Recut.run_eq`, `Script.Recut.run_eq`), and so to every trial.

Result: `writing_ignores_cuts`.
-/

namespace TrialLayout

namespace Text

/-! ## Indented lines -/

/-- A line behind its margin; a line that is empty gets none. -/
def indentLine (margin line : List Char) : List Char := if line = [] then [] else margin ++ line

theorem indentLine_injective (margin : List Char) : Function.Injective (indentLine margin) := by
  intro a b same
  unfold indentLine at same
  split at same <;> split at same
  next ha hb => rw [ha, hb]
  next hb => exact absurd (List.append_eq_nil_iff.mp same.symm).2 hb
  next ha _ => exact absurd (List.append_eq_nil_iff.mp same).2 ha
  next => exact List.append_cancel_left same

/-- The lines of a text, the first behind one margin and the others behind another one. -/
def indentLines (first others : List Char) : List (List Char) → List (List Char)
  | [] => []
  | line :: rest => indentLine first line :: rest.map (indentLine others)

theorem indentLines_injective (first others : List Char) :
    Function.Injective (indentLines first others) := by
  intro a b same
  cases a with
  | nil =>
    cases b with
    | nil => rfl
    | cons => cases same
  | cons lineA restA =>
    cases b with
    | nil => cases same
    | cons lineB restB =>
      obtain ⟨head, tail⟩ := List.cons.inj same
      rw [indentLine_injective first head,
        (List.map_inj_right fun _ _ h => indentLine_injective others h).mp tail]

theorem newline_not_mem_indentLine {margin line : List Char} (hm : '\n' ∉ margin)
    (hl : '\n' ∉ line) : '\n' ∉ indentLine margin line := by
  unfold indentLine
  split
  · exact List.not_mem_nil
  · exact fun mem => (List.mem_append.mp mem).elim hm hl

/-- Indented lines can be told apart again when they have been put together. -/
theorem splitLines_join_indentLines {first others : List Char} (hf : '\n' ∉ first)
    (ho : '\n' ∉ others) (text : List Char) :
    splitLines (joinLines (indentLines first others (splitLines text))) =
      indentLines first others (splitLines text) := by
  have within : ∀ line ∈ splitLines text, '\n' ∉ line := fun _ => newline_not_mem_of_mem_splitLines
  obtain ⟨line, rest, shape⟩ := List.exists_cons_of_ne_nil (splitLines_ne_nil text)
  rw [shape, List.forall_mem_cons] at within
  rw [shape]
  refine splitLines_joinLines (List.cons_ne_nil _ _) (List.forall_mem_cons.mpr ⟨?_, ?_⟩)
  · exact newline_not_mem_indentLine hf within.1
  · intro indented mem
    obtain ⟨whole, inRest, rfl⟩ := List.mem_map.mp mem
    exact newline_not_mem_indentLine ho (within.2 whole inRest)

theorem splitLines_inj {a b : List Char} : splitLines a = splitLines b ↔ a = b := by
  refine ⟨fun same => ?_, congrArg splitLines⟩
  rw [← joinLines_splitLines a, same, joinLines_splitLines]

end Text

namespace Printer

open Text

/-! ## Writing by lines -/

/-- Adds a text without newlines to the line. An empty one leaves the indentation pending. -/
def writeFragment (p : Printer) (fragment : List Char) : Printer :=
  if fragment = [] then p else p.writePiece (String.ofList fragment)

/-- Writes fragments, and the end of a line in front of each of them but the first. -/
def writeFragments (p : Printer) : List (List Char) → Printer
  | [] => p
  | first :: rest =>
      rest.foldl (fun q fragment => q.newline.writeFragment fragment) (p.writeFragment first)

/-- Writes a text by the fragments between its newlines. -/
def writeLines (p : Printer) (text : String) : Printer :=
  p.writeFragments (splitLines text.toList)

theorem writeFragments_cons_cons (p : Printer) (a b : List Char) (rest : List (List Char)) :
    p.writeFragments (a :: b :: rest) = (p.writeFragment a).newline.writeFragments (b :: rest) :=
  rfl

/-- A cut inside a fragment does not show: its first character takes the indentation with it. -/
theorem writeFragment_cons (p : Printer) {c : Char} (hc : c ≠ '\n') (rest : List Char) :
    p.writeFragment (c :: rest) = (p.put c).writeFragment rest := by
  have one : p.put c = p.settle.push c := if_neg hc
  -- behind the first character no indentation is pending any more
  have settled : (p.settle.push c).settle = p.settle.push c :=
    settle_of_inLine p.settle_atLineStart
  rw [writeFragment, if_neg (List.cons_ne_nil c rest), writeFragment, one]
  split
  next none =>
    rw [none]
    simp [writePiece, push]
  next =>
    rw [writePiece, writePiece, settled]
    simp only [push, mk.injEq, and_true, true_and]
    refine ⟨by simp [← String.toList_inj], ?_⟩
    simp only [String.length_ofList, List.length_cons]
    omega

/-- Writing character by character is writing by the fragments between the newlines. -/
theorem write_eq_writeLines (p : Printer) (text : String) : p.write text = p.writeLines text := by
  unfold write writeLines
  induction text.toList generalizing p with
  | nil => rfl
  | cons c rest ih =>
    rw [List.foldl_cons, ih]
    obtain ⟨line, lines, shape⟩ := List.exists_cons_of_ne_nil (splitLines_ne_nil rest)
    -- a newline begins another fragment, other characters go to the front of the first one
    by_cases hc : c = '\n'
    · subst hc
      rw [splitLines_newline, shape, writeFragments_cons_cons]
      rfl
    · rw [splitLines_cons_of_ne hc, shape]
      show lines.foldl _ _ = lines.foldl _ _
      rw [List.headD_cons, p.writeFragment_cons hc]

/-! ## What is written -/

@[simp] theorem writeFragment_indent (p : Printer) (fragment : List Char) :
    (p.writeFragment fragment).indent = p.indent := by
  unfold writeFragment
  split
  · rfl
  · exact p.settle_indent

theorem writeFragment_output (p : Printer) (fragment : List Char) :
    (p.writeFragment fragment).output.toList =
      p.output.toList ++ indentLine p.pending fragment := by
  unfold writeFragment indentLine
  split
  · exact (List.append_nil _).symm
  · simp [writePiece]

/-- A newline makes the base pending. -/
theorem newline_pending (p : Printer) : p.newline.pending = List.replicate p.indent ' ' := rfl

theorem writeFragments_output (p : Printer) {lines : List (List Char)} (nonempty : lines ≠ []) :
    (p.writeFragments lines).output.toList =
      p.output.toList ++ joinLines (indentLines p.pending p.newline.pending lines) := by
  induction lines generalizing p with
  | nil => exact absurd rfl nonempty
  | cons line rest ih =>
    cases rest with
    | nil =>
      rw [indentLines, List.map_nil, joinLines, List.intercalate_singleton]
      exact p.writeFragment_output line
    | cons next rest =>
      have ended : (p.writeFragment line).newline.output.toList =
          p.output.toList ++ indentLine p.pending line ++ ['\n'] := by
        rw [← p.writeFragment_output line]
        exact String.toList_push _
      have base : (p.writeFragment line).newline.pending = p.newline.pending := by
        rw [newline_pending, newline_pending, writeFragment_indent]
      rw [writeFragments_cons_cons, ih _ (List.cons_ne_nil next rest), ended]
      show _ ++ joinLines (indentLines (p.writeFragment line).newline.pending
        (p.writeFragment line).newline.pending (next :: rest)) = _
      rw [base, indentLines, indentLines, List.map_cons, joinLines_cons_cons]
      simp only [List.append_assoc, List.singleton_append]

/-- The output of a write by lines: the first stands behind what is pending, the others behind the
base, and an empty line gets neither. -/
theorem write_output_lines (p : Printer) (text : String) :
    (p.write text).output.toList = p.output.toList ++
      joinLines (indentLines p.pending p.newline.pending (splitLines text.toList)) := by
  rw [write_eq_writeLines]
  exact p.writeFragments_output (splitLines_ne_nil _)

/-- Two texts that leave the same printer behind are the same. -/
theorem write_injective (p : Printer) : Function.Injective p.write := by
  intro a b same
  have output := congrArg (·.output.toList) same
  simp only [write_output_lines] at output
  have joined := congrArg splitLines (List.append_cancel_left output)
  simp only [splitLines_join_indentLines p.newline_not_mem_pending
    p.newline.newline_not_mem_pending] at joined
  exact String.toList_inj.mp (splitLines_inj.mp (indentLines_injective _ _ joined))

/-- Writes one after the other write the text that they make up. -/
theorem foldl_write (p : Printer) (pieces : List String) :
    pieces.foldl write p = p.write (String.join pieces) := by
  induction pieces generalizing p with
  | nil => rfl
  | cons piece rest ih => rw [List.foldl_cons, ih, String.join_cons, write_append]

end Printer

/-! ## Layouts and scripts -/

/-- Layouts that differ only in how the text between their other parts is cut. -/
inductive Layout.Recut : Layout → Layout → Prop
  | refl (l : Layout) : Recut l l
  | symm {l l' : Layout} : Recut l l' → Recut l' l
  | trans {l l' l'' : Layout} : Recut l l' → Recut l' l'' → Recut l l''
  | cut (a b : String) : Recut (.text (a ++ b)) (.seq (.text a) (.text b))
  | ended : Recut .newline (.text "\n")
  | before (l : Layout) : Recut (.seq .empty l) l
  | behind (l : Layout) : Recut (.seq l .empty) l
  | regroup (a b c : Layout) : Recut (.seq (.seq a b) c) (.seq a (.seq b c))
  | seq {a a' b b' : Layout} : Recut a a' → Recut b b' → Recut (.seq a b) (.seq a' b')
  | shift (delta : Int) {l l' : Layout} : Recut l l' → Recut (.shift delta l) (.shift delta l')
  | step {l l' : Layout} : Recut l l' → Recut (.step l) (.step l')
  | depend {a a' b b' : Layout} : Recut a a' → Recut b b' → Recut (.depend a b) (.depend a' b')
  | attempt (fit : Fit) {a a' b b' : Layout} :
      Recut a a' → Recut b b' → Recut (.attempt fit a b) (.attempt fit a' b')
  | byHead {a a' b b' c c' : Layout} :
      Recut a a' → Recut b b' → Recut c c' → Recut (.byHead a b c) (.byHead a' b' c')
  | hang {l l' : Layout} : Recut l l' → Recut (.hang l) (.hang l')
  | resume {a a' b b' : Layout} : Recut a a' → Recut b b' → Recut (.resume a b) (.resume a' b')

theorem Layout.Recut.run_eq {l l' : Layout} (recut : l.Recut l') (cfg : Config) :
    l.run cfg = l'.run cfg := by
  induction recut with
  | refl => rfl
  | symm _ ih => exact ih.symm
  | trans _ _ first second => exact first.trans second
  | cut a b => exact funext fun p => p.write_append a b
  | ended => rfl
  | before => rfl
  | behind => rfl
  | regroup => rfl
  | seq _ _ first second => funext p; simp only [run, first, second]
  | shift _ _ body => funext p; simp only [run, body]
  | step _ body => funext p; simp only [run, body]
  | depend _ _ left right => funext p; simp only [run, left, right]
  | attempt _ _ _ trial fallback => funext p; simp only [run, trial, fallback]
  | byHead _ _ _ head short long => funext p; simp only [run, head, short, long]
  | hang _ body => funext p; simp only [run, body]
  | resume _ _ first rest => funext p; simp only [run, first, rest]

/-- Scripts that differ only in how the text between their other operations is cut. -/
inductive Script.Recut : Script → Script → Prop
  | refl (s : Script) : Recut s s
  | symm {s s' : Script} : Recut s s' → Recut s' s
  | trans {s s' s'' : Script} : Recut s s' → Recut s' s'' → Recut s s''
  | cut (a b : String) (rest : Script) : Recut (.write (a ++ b) rest) (.write a (.write b rest))
  | nothing (rest : Script) : Recut (.write "" rest) rest
  | blank (rest : Script) : Recut (.space rest) (.write " " rest)
  | ended (rest : Script) : Recut (.newline rest) (.write "\n" rest)
  | rendered (content : String) (rest : Script) :
      Recut (.render (.text content) rest) (.write content rest)
  | parts (first second : Layout) (rest : Script) :
      Recut (.render (.seq first second) rest) (.render first (.render second rest))
  | write (content : String) {s s' : Script} :
      Recut s s' → Recut (.write content s) (.write content s')
  | setIndent (indent : Nat) {s s' : Script} :
      Recut s s' → Recut (.setIndent indent s) (.setIndent indent s')
  | withIndentAt (column : Nat) {a a' s s' : Script} : Recut a a' → Recut s s' →
      Recut (.withIndentAt column a s) (.withIndentAt column a' s')
  | indented (delta : Int) {a a' s s' : Script} : Recut a a' → Recut s s' →
      Recut (.indented delta a s) (.indented delta a' s')
  | depend {a a' b b' s s' : Script} : Recut a a' → Recut b b' → Recut s s' →
      Recut (.depend a b s) (.depend a' b' s')
  | sandbox (keep : Bool) {a a' s s' : Script} : Recut a a' → Recut s s' →
      Recut (.sandbox keep a s) (.sandbox keep a' s')
  | trial (keep : Bool) {a a' s s' : Script} : Recut a a' → Recut s s' →
      Recut (.trial keep a s) (.trial keep a' s')
  | measure (question : Measure) {a a' s s' : Script} : Recut a a' → Recut s s' →
      Recut (.measure question a s) (.measure question a' s')
  | render {l l' : Layout} {s s' : Script} : l.Recut l' → Recut s s' →
      Recut (.render l s) (.render l' s')

theorem Script.Recut.run_eq {s s' : Script} (recut : s.Recut s') (cfg : Config) :
    s.run cfg = s'.run cfg := by
  induction recut with
  | refl => rfl
  | symm _ ih => exact ih.symm
  | trans _ _ first second => exact first.trans second
  | cut a b rest => exact funext fun p => congrArg (rest.run cfg) (p.write_append a b)
  | nothing => rfl
  | blank => rfl
  | ended => rfl
  | rendered => rfl
  | parts => rfl
  | write _ _ rest => funext p; simp only [run, rest]
  | setIndent _ _ rest => funext p; simp only [run, rest]
  | withIndentAt _ _ _ body rest => funext p; simp only [run, body, rest]
  | indented _ _ _ body rest => funext p; simp only [run, body, rest]
  | depend _ _ _ left right rest => funext p; simp only [run, left, right, rest]
  | sandbox _ _ _ body rest => funext p; simp only [run, body, rest]
  | trial _ _ _ body rest => funext p; simp only [run, body, rest]
  | measure _ _ _ _ rest => funext p; simp only [run, rest]
  | render layout _ rest => funext p; simp only [run, layout.run_eq cfg, rest]

/-- A write may be replaced by the writes of any pieces that make up its text. -/
theorem Script.Recut.pieces (pieces : List String) (rest : Script) :
    Script.Recut (.write (String.join pieces) rest) (pieces.foldr .write rest) := by
  induction pieces with
  | nil => exact .nothing rest
  | cons piece more ih =>
    rw [String.join_cons]
    exact (cut piece (String.join more) rest).trans (ih.write piece)

/-- Scripts agree in all but their cuts if the pieces that they begin with make up the same text. -/
theorem Script.Recut.of_join_eq {pieces pieces' : List String}
    (same : String.join pieces = String.join pieces') (rest : Script) :
    Script.Recut (pieces.foldr .write rest) (pieces'.foldr .write rest) := by
  have whole := Script.Recut.pieces pieces rest
  rw [same] at whole
  exact whole.symm.trans (.pieces pieces' rest)

/-- How text is cut into writes leaves no trace in any part of the state. A write does what writing
the fragments between its newlines does. Two writes in a row do what one write of both texts does,
writing nothing changes nothing, and writing a newline ends the line. So two sequences of writes
leave the same printer behind exactly if they make up the same text, and renderings that differ only
in their cuts agree, whatever scopes and trials the text stands in. -/
theorem writing_ignores_cuts (p : Printer) :
    (∀ text, p.write text = p.writeLines text) ∧
    (∀ a b, p.write (a ++ b) = (p.write a).write b) ∧ p.write "" = p ∧ p.write "\n" = p.newline ∧
    (∀ pieces pieces' : List String,
      pieces.foldl Printer.write p = pieces'.foldl Printer.write p ↔
        String.join pieces = String.join pieces') ∧
    (∀ (l l' : Layout), l.Recut l' → ∀ cfg, l.run cfg p = l'.run cfg p) ∧
    ∀ (s s' : Script), s.Recut s' → ∀ cfg, s.run cfg p = s'.run cfg p := by
  refine ⟨p.write_eq_writeLines, p.write_append, p.write_empty, p.write_newline,
    fun pieces pieces' => ?_, fun l l' recut cfg => congrFun (recut.run_eq cfg) p,
    fun s s' recut cfg => congrFun (recut.run_eq cfg) p⟩
  rw [p.foldl_write, p.foldl_write]
  exact p.write_injective.eq_iff

/-- A text with an empty line, written at once in a sandbox, and another one under a moved base. -/
def atOnce : Script :=
  .setIndent 2 (.sandbox true (.write "é\n\n∀ b" .done) (.render (.shift 2 (.text ";\nc")) .done))

/-- The same texts, cut at each newline, at the space, and at no character at all. -/
def piecemeal : Script :=
  .setIndent 2
    (.sandbox true
      (.write "é" (.newline (.write "" (.write "\n" (.write "∀" (.space (.write "b" .done)))))))
      (.render (.shift 2 (.seq (.text ";") (.seq .newline (.text "c")))) .done))

theorem atOnce_recut : atOnce.Recut piecemeal := by
  let behind : Script := .write "∀" (.write " " (.write "b" .done))
  let spaced : Script := .write "∀" (.space (.write "b" .done))
  have same : String.join ["é\n\n∀ b"] = String.join ["é", "\n", "", "\n", "∀", " ", "b"] := rfl
  have pieces : Script.Recut (.write "é\n\n∀ b" .done)
      (.write "é" (.write "\n" (.write "" (.write "\n" behind)))) := .of_join_eq same .done
  have blank : behind.Recut spaced := .write "∀" (.symm (.blank _))
  have ended : Script.Recut (.write "é" (.write "\n" (.write "" (.write "\n" behind))))
      (.write "é" (.newline (.write "" (.write "\n" spaced)))) :=
    .write "é" (.trans (.write "\n" (.write "" (.write "\n" blank))) (.symm (.ended _)))
  have moved : Layout.Recut (.text ";\nc") (.seq (.text ";") (.seq .newline (.text "c"))) := by
    refine .trans (.cut ";" "\nc") (.seq (.refl _) ?_)
    exact .trans (.cut "\n" "c") (.seq (.symm .ended) (.refl _))
  exact .setIndent 2 (.sandbox true (pieces.trans ended) (.render (.shift 2 moved) (.refl _)))

/-- The empty line stays empty, and the others get their indentation once. -/
theorem writing_ignores_cuts_indented :
    atOnce.Recut piecemeal ∧ atOnce.run {} .start = piecemeal.run {} .start ∧
    (piecemeal.run {} .start).output = "  é\n\n  ∀ b;\n    c" := by
  obtain ⟨-, -, -, -, -, -, scripts⟩ := writing_ignores_cuts .start
  exact ⟨atOnce_recut, scripts atOnce piecemeal atOnce_recut {}, by decide +kernel⟩

end TrialLayout
