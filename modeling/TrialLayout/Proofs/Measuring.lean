import TrialLayout.Proofs.Position

/-!
# Measuring and the text

A trial is asked by the counters of the printer it leaves behind: its line, its column, and the
column at which it started. This module answers the same questions by the text that the trial
appends. That text begins with the indentation that was pending, so that it has to be counted
from the column, while the start of a short head lies behind the indentation. Where the sums of
thresholds stop at the largest width, the questions are asked of the sums themselves.

* `Printer.endColumn`: the end of the last line, read off the text. It is the column of a printer
  to which the text has been emitted (`Printer.emit_column`), and what a script does is to emit
  (`Script.run_emits`).
* `Measure.Asks`: what is asked of the text.
* `Measure.of_trial_iff`: the two agree for every procedure that emits and does not look at the
  text so far.

Result: `measures_match_text`.
-/

namespace TrialLayout

open Printer

/-! ## Definitions -/

/-- The column at which the line ends once `text` is appended: the number of characters after its
last newline, or, if it has none, its length from the column reached before. -/
def Printer.endColumn (p : Printer) (text : List Char) : Nat :=
  if '\n' ∈ text then (Text.lastLine text).length else p.column + text.length

/-- What a question asks of the text that a trial appends to the output of `p`. -/
def Measure.Asks (cfg : Config) (p : Printer) (text : List Char) : Measure → Prop
  | singleLine => '\n' ∉ text
  | overflow => cfg.columnLimit < p.endColumn text
  | overflowMax => cfg.columnLimit + cfg.overflowMargin < p.endColumn text
  | small => '\n' ∉ text ∧ p.endColumn text < cfg.smallColumnLimit
  | short => '\n' ∉ text ∧ p.endColumn text < p.effectiveColumn + cfg.shortName

/-! ## The end of a line -/

theorem Text.lastLine_append {c : Char} (hc : c ≠ '\n') (text : List Char) :
    Text.lastLine (text ++ [c]) = Text.lastLine text ++ [c] :=
  List.rtakeWhile_concat_pos _ text c (by simpa using hc)

theorem Printer.emit_column (p : Printer) (text : List Char) :
    (p.emit text).column = p.endColumn text := by
  induction text using List.reverseRecOn with
  | nil => rfl
  | append_singleton text c ih =>
    rw [emit_append]
    show ((p.emit text).emitChar c).column = _
    unfold emitChar endColumn
    by_cases hc : c = '\n'
    · subst hc
      simp [newline, Text.lastLine]
    · rw [if_neg hc, Text.lastLine_append hc]
      simp only [push, ih, endColumn, List.mem_append, List.mem_singleton, Ne.symm hc, or_false,
        List.length_append, List.length_singleton]
      split
      · rfl
      · rw [Nat.add_assoc]

/-! ## Questions -/

/-- Where a sum stops at the largest width does not matter to what stays below. -/
theorem lt_min_maxWidth_iff {n sum : Nat} (below : n < maxWidth) :
    n < min sum maxWidth ↔ n < sum := by
  rw [Nat.lt_min]
  exact and_iff_left below

theorem min_maxWidth_lt_iff {n sum : Nat} (below : n < maxWidth) :
    min sum maxWidth < n ↔ sum < n := by
  omega

theorem Measure.of_trial_iff {body : Printer → Printer} (positional : Positional body)
    (cfg : Config) {p : Printer} {text : List Char} {indent : Nat}
    (emitted : body p = (p.emit text).setIndent indent) (below : p.endColumn text < maxWidth)
    (question : Measure) :
    question.of cfg (p.trial body) = true ↔ question.Asks cfg p text := by
  have column : (p.trial body).candidate.column = p.endColumn text := by
    rw [positional.candidate_column, emitted]
    exact p.emit_column text
  have stays : (p.trial body).isSingleLine = true ↔ '\n' ∉ text := by
    have line : (p.trial body).candidate.line = p.line + text.count '\n' := by
      rw [positional.candidate_line, emitted]
      exact p.emit_line text
    rw [Trial.isSingleLine, beq_iff_eq, line, ← List.count_eq_zero]
    exact Nat.add_eq_left
  have start : (p.trial body).start.effectiveColumn = p.effectiveColumn := rfl
  cases question with
  | singleLine => exact stays
  | overflow =>
    rw [of, Trial.overflows, column]
    exact decide_eq_true_iff
  | overflowMax =>
    rw [of, Trial.overflowsMax, column, decide_eq_true_iff, Config.tolerantLimit]
    exact min_maxWidth_lt_iff below
  | small =>
    rw [of, Trial.isSmall, Bool.and_eq_true, stays, column, decide_eq_true_iff]
    exact Iff.rfl
  | short =>
    rw [of, Trial.isShort, Bool.and_eq_true, stays, column, start, decide_eq_true_iff,
      lt_min_maxWidth_iff below]
    exact Iff.rfl

/-- In every printer that a program can come to, measuring a script agrees with the text that the
script appends there: whether that text contains a newline, and how the end of its last line
compares with the column limit, with the column limit and the margin, with the small limit, and
with the place where it starts and the length of a short name. Columns are below the largest
width. Asking leaves the printer as it was. -/
theorem measures_match_text {cfg : Config} {p : Printer} (reachable : p.Reachable cfg)
    (program : Script) :
    ∃ text, (program.run cfg p).output.toList = p.output.toList ++ text ∧
      (p.endColumn text < maxWidth → ∀ question : Measure,
        question.of cfg (p.trial (program.run cfg)) = true ↔ question.Asks cfg p text) ∧
      ∀ (question : Measure) (rest : Script),
        (Script.measure question program rest).reports cfg p =
          .measure (question.of cfg (p.trial (program.run cfg))) p :: rest.reports cfg p ∧
        (Script.measure question program rest).run cfg p = rest.run cfg p := by
  obtain ⟨text, indent, emitted⟩ := program.run_emits cfg reachable.consistent
  refine ⟨text, ?_, fun below => ?_, fun question rest => ⟨rfl, rfl⟩⟩
  · rw [emitted]
    exact p.emit_output text
  · exact Measure.of_trial_iff (program.run_positional cfg) cfg emitted below

/-- A printer that waits for an indentation of three, on the second line. -/
def waiting : Printer :=
  (Script.write "ab" (.newline (.setIndent 3 .done))).run { shortName := 2 }
    (Printer.start.withStartingColumn 4)

/-- The script drops a trial of two lines and then writes one character behind an indentation of
five. It is not short: it ends at column six, and a short name would end before column five. -/
theorem measures_match_text_waiting :
    let cfg : Config := { shortName := 2 }
    let program : Script := .sandbox false (.newline (.write "dropped" .done))
      (.setIndent 5 (.write "c" .done))
    waiting.Reachable cfg ∧
    (program.run cfg waiting).output.toList = waiting.output.toList ++ "     c".toList ∧
    waiting.endColumn "     c".toList = 6 ∧
    ∀ question : Measure, question.of cfg (waiting.trial (program.run cfg)) = true ↔
      question.Asks cfg waiting "     c".toList := by
  intro cfg program
  have reachable : waiting.Reachable cfg := .run _ (.continued 4 .start)
  obtain ⟨text, appended, agree, -⟩ := measures_match_text reachable program
  have known : (program.run cfg waiting).output.toList =
      waiting.output.toList ++ "     c".toList := by decide +kernel
  have same : text = "     c".toList := List.append_cancel_left (appended.symm.trans known)
  subst same
  exact ⟨reachable, known, by decide +kernel, agree (by decide +kernel)⟩

end TrialLayout
