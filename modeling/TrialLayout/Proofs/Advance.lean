import TrialLayout.Proofs.Emission

/-!
# Where a run leads

What running a layout does to any printer, also to one whose column does not fit its line: it
appends some text, counts the newlines of that text, and puts the indentation base back
(`Layout.run_advances`). As long as no line ends, the width of the line grows by the length of
the text. The width of a line counts what stands on it, so that pending indentation does not
enter.

`Layout.Stays` says that a run ends no line. A run stays on the line if and only if each of its
parts does (`seq_stays`, `depend_stays`, `byHead_stays`). What a trial is asked can be asked of
the run itself (`accepts_line_iff`, `accepts_within_iff`, `accepts_small_iff`).
-/

namespace TrialLayout

/-! ## Definitions -/

/-- `q` is what `p` becomes when `text` is appended, indentation included. -/
structure Printer.Advances (p : Printer) (text : List Char) (q : Printer) : Prop where
  output : q.output.toList = p.output.toList ++ text
  line : q.line = p.line + text.count '\n'
  indent : q.indent = p.indent
  width : '\n' ∉ text → q.lineWidth = p.lineWidth + text.length
  inLine : '\n' ∉ text → p.atLineStart = false → q.atLineStart = false

/-- Running the layout ends no line. -/
def Layout.Stays (l : Layout) (cfg : Config) (p : Printer) : Prop :=
  (l.run cfg p).line = p.line

instance (l : Layout) (cfg : Config) (p : Printer) : Decidable (l.Stays cfg p) :=
  inferInstanceAs (Decidable (_ = _))

/-! ## Printer operations -/

namespace Printer

namespace Advances

variable {p q r : Printer} {a b : List Char}

theorem refl (p : Printer) : p.Advances [] p :=
  ⟨by simp, by simp, rfl, fun _ => by simp, fun _ => id⟩

theorem trans (first : p.Advances a q) (second : q.Advances b r) : p.Advances (a ++ b) r := by
  refine ⟨?_, ?_, second.indent.trans first.indent, fun oneLine => ?_, fun oneLine inLine => ?_⟩
  · rw [second.output, first.output, List.append_assoc]
  · rw [second.line, first.line, List.count_append, Nat.add_assoc]
  · rw [List.mem_append, not_or] at oneLine
    rw [second.width oneLine.2, first.width oneLine.1, List.length_append, Nat.add_assoc]
  · rw [List.mem_append, not_or] at oneLine
    exact second.inLine oneLine.2 (first.inLine oneLine.1 inLine)

theorem newline (p : Printer) : p.Advances ['\n'] p.newline := by
  have ends : '\n' ∈ ['\n'] := List.mem_singleton.mpr rfl
  exact ⟨by simp [Printer.newline], rfl, rfl, fun oneLine => absurd ends oneLine,
    fun oneLine => absurd ends oneLine⟩

theorem push (p : Printer) {c : Char} (hc : c ≠ '\n') :
    p.Advances (p.pending ++ [c]) (p.settle.push c) := by
  have blank : p.pending.count '\n' = 0 := List.count_eq_zero.mpr p.newline_not_mem_pending
  refine ⟨by simp [Printer.push], ?_, p.settle_indent, fun _ => ?_, fun _ _ => by
    simp [Printer.push]⟩
  · rw [List.count_append, blank, List.count_singleton, if_neg (by simpa using hc)]
    exact p.settle_line
  · have width : (p.settle.push c).lineWidth = p.effectiveColumn + 1 := by
      rw [lineWidth, Printer.push, if_neg (by simp), settle_column]
    rw [width, List.length_append, List.length_singleton]
    unfold effectiveColumn lineWidth pending
    split <;> simp

theorem put (p : Printer) (c : Char) : ∃ text, p.Advances text (p.put c) := by
  unfold Printer.put
  split
  · exact ⟨_, newline p⟩
  · next other => exact ⟨_, push p other⟩

theorem write (p : Printer) (content : String) : ∃ text, p.Advances text (p.write content) := by
  unfold Printer.write
  induction content.toList generalizing p with
  | nil => exact ⟨[], refl p⟩
  | cons c rest ih =>
    obtain ⟨first, put⟩ := put p c
    obtain ⟨more, written⟩ := ih (p.put c)
    exact ⟨first ++ more, put.trans written⟩

/-- The base under which something is run is not part of what has been written. -/
theorem withIndentAt {column : Nat} {body : Printer → Printer}
    (h : (p.setIndent column).Advances a (body (p.setIndent column))) :
    p.Advances a (p.withIndentAt column body) :=
  ⟨h.output, h.line, rfl, h.width, h.inLine⟩

theorem line_le (h : p.Advances a q) : p.line ≤ q.line := h.line ▸ Nat.le_add_right ..

/-- A run ends no line exactly if what it appends contains no newline. -/
theorem line_eq_iff (h : p.Advances a q) : q.line = p.line ↔ '\n' ∉ a := by
  rw [h.line, ← List.count_eq_zero]
  omega

theorem lineWidth_le (h : p.Advances a q) (stays : q.line = p.line) :
    p.lineWidth ≤ q.lineWidth := by
  rw [h.width (h.line_eq_iff.mp stays)]
  exact Nat.le_add_right ..

end Advances

theorem lineWidth_le_column (p : Printer) : p.lineWidth ≤ p.column := by
  unfold lineWidth
  split
  · exact Nat.zero_le _
  · exact Nat.le_refl _

theorem lineWidth_of_inLine {p : Printer} (inLine : p.atLineStart = false) :
    p.lineWidth = p.column := by
  rw [lineWidth, inLine]
  rfl

theorem write_line (p : Printer) (content : String) :
    (p.write content).line = p.line + content.toList.count '\n' := by
  unfold write
  induction content.toList generalizing p with
  | nil => rfl
  | cons c rest ih =>
    rw [List.foldl_cons, ih]
    by_cases hc : c = '\n'
    · rw [put, if_pos hc, hc, List.count_cons_self]
      simp only [newline]
      omega
    · rw [put, if_neg hc, List.count_cons_of_ne hc]
      simp [push]

theorem write_stays (p : Printer) {content : String} (oneLine : '\n' ∉ content.toList) :
    (p.write content).line = p.line := by
  rw [write_line, List.count_eq_zero.mpr oneLine, Nat.add_zero]

/-- Writing something that contains no newline leaves the start of the line. -/
theorem write_inLine (p : Printer) {content : String} (nonempty : content ≠ "")
    (oneLine : '\n' ∉ content.toList) : (p.write content).atLineStart = false := by
  rw [write_settle p nonempty oneLine, write_of_inLine p.settle_atLineStart oneLine]
  exact p.settle_atLineStart

/-- What is written comes behind the pending indentation. -/
theorem write_output (p : Printer) {content : String} (nonempty : content ≠ "")
    (oneLine : '\n' ∉ content.toList) :
    (p.write content).output.toList = p.output.toList ++ p.pending ++ content.toList := by
  rw [write_settle p nonempty oneLine, write_of_inLine p.settle_atLineStart oneLine,
    String.toList_append, settle_output]

/-- What depends on a text is run under the column behind that text. -/
theorem dependBase_write {p : Printer} (consistent : p.Consistent) {content : String}
    (nonempty : content ≠ "") (oneLine : '\n' ∉ content.toList) :
    p.dependBase (p.write content) =
      (p.write content).setIndent (p.effectiveColumn + content.length) := by
  have column : (p.write content).column = p.effectiveColumn + content.length := by
    rw [write_settle p nonempty oneLine, write_of_inLine p.settle_atLineStart oneLine,
      settle_column]
  have width : content.length ≠ 0 := fun zero => nonempty (String.length_eq_zero_iff.mp zero)
  rw [dependBase, column, if_neg]
  rintro ⟨-, same⟩
  unfold effectiveColumn at same
  split at same
  · next start =>
    rw [consistent start] at same
    omega
  · omega

end Printer

/-! ## Layouts -/

namespace Layout

open Printer

/-- Running a layout appends some text and puts the base back, wherever it starts. -/
theorem run_advances (cfg : Config) (l : Layout) (p : Printer) :
    ∃ text, p.Advances text (l.run cfg p) := by
  induction l generalizing p with
  | text content => exact Advances.write p content
  | newline => exact ⟨_, .newline p⟩
  | seq first second ihf ihs =>
    obtain ⟨a, ha⟩ := ihf p
    obtain ⟨b, hb⟩ := ihs (first.run cfg p)
    exact ⟨a ++ b, ha.trans hb⟩
  | shift delta body ih =>
    obtain ⟨a, ha⟩ := ih (p.setIndent (shifted p.indent delta))
    exact ⟨a, .withIndentAt ha⟩
  | step body ih =>
    obtain ⟨a, ha⟩ := ih (p.setIndent (cfg.stepFrom p.indent))
    exact ⟨a, .withIndentAt ha⟩
  | depend left right ihl ihr =>
    obtain ⟨a, ha⟩ := ihl p
    simp only [run, Printer.depend]
    split
    · obtain ⟨b, hb⟩ := ihr (left.run cfg p)
      exact ⟨a ++ b, ha.trans hb⟩
    · obtain ⟨b, hb⟩ := ihr ((left.run cfg p).setIndent (left.run cfg p).column)
      exact ⟨a ++ b, ha.trans (.withIndentAt hb)⟩
  | attempt fit trial fallback iht ihf =>
    rw [run_attempt]
    split
    · exact iht p
    · exact ihf p
  | byHead head short long ihh ihs ihl =>
    obtain ⟨a, ha⟩ := ihh p
    rw [run_byHead]
    split
    · obtain ⟨b, hb⟩ := ihs (head.run cfg p)
      exact ⟨a ++ b, ha.trans hb⟩
    · obtain ⟨b, hb⟩ := ihl (head.run cfg p)
      exact ⟨a ++ b, ha.trans hb⟩
  | hang body ih =>
    obtain ⟨a, ha⟩ := Advances.write p " "
    obtain ⟨b, hb⟩ := ih (p.space.setIndent (p.column + 1))
    exact ⟨a ++ b, ha.trans (.withIndentAt hb)⟩
  | resume first rest ihf ihr =>
    obtain ⟨a, ha⟩ := ihf p
    obtain ⟨b, hb⟩ :=
      ihr ((first.run cfg p).setIndent (cfg.stepFrom p.effectiveColumn))
    exact ⟨a ++ b, ha.trans (.withIndentAt hb)⟩

theorem run_indent (cfg : Config) (l : Layout) (p : Printer) :
    (l.run cfg p).indent = p.indent := by
  obtain ⟨text, advances⟩ := l.run_advances cfg p
  exact advances.indent

theorem run_line_le (cfg : Config) (l : Layout) (p : Printer) :
    p.line ≤ (l.run cfg p).line := by
  obtain ⟨text, advances⟩ := l.run_advances cfg p
  exact advances.line_le

/-- A run stays on the line exactly if the text that it appends has no newline. -/
theorem stays_iff {l : Layout} {cfg : Config} {p : Printer} {text : List Char}
    (appended : (l.run cfg p).output.toList = p.output.toList ++ text) :
    l.Stays cfg p ↔ '\n' ∉ text := by
  obtain ⟨other, advances⟩ := l.run_advances cfg p
  have same : other = text := List.append_cancel_left (advances.output.symm.trans appended)
  rw [← same]
  exact advances.line_eq_iff

theorem Stays.lineWidth_le {l : Layout} {cfg : Config} {p : Printer} (h : l.Stays cfg p) :
    p.lineWidth ≤ (l.run cfg p).lineWidth := by
  obtain ⟨text, advances⟩ := l.run_advances cfg p
  exact advances.lineWidth_le h

theorem Stays.inLine {l : Layout} {cfg : Config} {p : Printer} (h : l.Stays cfg p)
    (inLine : p.atLineStart = false) : (l.run cfg p).atLineStart = false := by
  obtain ⟨text, advances⟩ := l.run_advances cfg p
  exact advances.inLine (advances.line_eq_iff.mp h) inLine

/-- Between two runs the line number can only grow, so it stays if it stays in each. -/
theorem line_stays_iff {p q r : Printer} (first : p.line ≤ q.line) (second : q.line ≤ r.line) :
    r.line = p.line ↔ q.line = p.line ∧ r.line = q.line := by
  omega

theorem seq_stays {left right : Layout} {cfg : Config} {p : Printer} :
    (left ++ right).Stays cfg p ↔ left.Stays cfg p ∧ right.Stays cfg (left.run cfg p) :=
  line_stays_iff (left.run_line_le cfg p) (right.run_line_le cfg (left.run cfg p))

/-- The right part is run under the base that the left part determines, and the base is put
back. -/
theorem run_depend (left right : Layout) (cfg : Config) (p : Printer) :
    (depend left right).run cfg p =
      (right.run cfg (p.dependBase (left.run cfg p))).setIndent (left.run cfg p).indent := by
  simp only [run, Printer.depend, dependBase]
  split
  · rw [← right.run_indent cfg (left.run cfg p)]
    rfl
  · rfl

theorem dependBase_eq_setIndent (p q : Printer) : ∃ base, p.dependBase q = q.setIndent base := by
  unfold dependBase
  split
  · exact ⟨q.indent, rfl⟩
  · exact ⟨q.column, rfl⟩

theorem depend_stays {left right : Layout} {cfg : Config} {p : Printer} :
    (depend left right).Stays cfg p ↔
      left.Stays cfg p ∧ right.Stays cfg (p.dependBase (left.run cfg p)) := by
  obtain ⟨base, based⟩ := dependBase_eq_setIndent p (left.run cfg p)
  have second := right.run_line_le cfg (p.dependBase (left.run cfg p))
  unfold Stays
  rw [run_depend]
  rw [based] at second ⊢
  exact line_stays_iff (left.run_line_le cfg p) second

theorem hang_stays {body : Layout} {cfg : Config} {p : Printer} :
    (hang body).Stays cfg p ↔ body.Stays cfg (p.space.setIndent (p.column + 1)) := by
  have line : p.space.line = p.line := write_line p " "
  unfold Stays
  rw [show ((p.space.setIndent (p.column + 1)).line = p.line) from line]
  rfl

theorem resume_stays {first rest : Layout} {cfg : Config} {p : Printer} :
    (resume first rest).Stays cfg p ↔ first.Stays cfg p ∧
      rest.Stays cfg ((first.run cfg p).setIndent (cfg.stepFrom p.effectiveColumn)) :=
  line_stays_iff (first.run_line_le cfg p)
    (rest.run_line_le cfg ((first.run cfg p).setIndent (cfg.stepFrom p.effectiveColumn)))

theorem byHead_stays {head short long : Layout} {cfg : Config} {p : Printer} :
    (byHead head short long).Stays cfg p ↔ head.Stays cfg p ∧
      if (p.trial (head.run cfg)).isShort cfg then short.Stays cfg (head.run cfg p)
      else long.Stays cfg (head.run cfg p) := by
  unfold Stays
  rw [run_byHead]
  split
  · exact line_stays_iff (head.run_line_le cfg p) (short.run_line_le cfg (head.run cfg p))
  · exact line_stays_iff (head.run_line_le cfg p) (long.run_line_le cfg (head.run cfg p))

/-! ## What trials measure -/

section

variable (l : Layout) (cfg : Config) (p : Printer)

theorem trial_column : (p.trial (l.run cfg)).candidate.column = (l.run cfg p).column :=
  (l.run_positional cfg).candidate_column p

theorem trial_line : (p.trial (l.run cfg)).candidate.line = (l.run cfg p).line :=
  (l.run_positional cfg).candidate_line p

theorem isSingleLine_iff : (p.trial (l.run cfg)).isSingleLine = true ↔ l.Stays cfg p := by
  rw [Trial.isSingleLine, trial_line, beq_iff_eq]
  exact Iff.rfl

theorem accepts_line_iff : Fit.line.accepts cfg (p.trial (l.run cfg)) = true ↔
    l.Stays cfg p ∧ (l.run cfg p).column ≤ cfg.columnLimit := by
  rw [Fit.accepts, Bool.and_eq_true, isSingleLine_iff, Trial.overflows, trial_column]
  simp

theorem accepts_within_iff : Fit.within.accepts cfg (p.trial (l.run cfg)) = true ↔
    (l.run cfg p).column ≤ cfg.columnLimit := by
  rw [Fit.accepts, Trial.overflows, trial_column]
  simp

theorem accepts_small_iff : Fit.small.accepts cfg (p.trial (l.run cfg)) = true ↔
    l.Stays cfg p ∧ (l.run cfg p).column < cfg.smallColumnLimit := by
  rw [Fit.accepts, Trial.isSmall, Bool.and_eq_true, isSingleLine_iff, trial_column]
  simp

end

end Layout

end TrialLayout
