import TrialLayout.Layout.Blocks
import TrialLayout.Proofs.Emission
import TrialLayout.Proofs.InRange
import TrialLayout.Proofs.Lines
import TrialLayout.Proofs.Literals

/-!
# Where lines start

How far to the right the lines of a rendering start, apart from its first one. A bound is
followed through the ways of putting layouts together.

* `Text.ContinuesFrom floor text`: every line of the text but the first starts with at least
  `floor` spaces.
* `Printer.Hangs floor p q`: what leads from `p` to `q` is such a text, and the column does
  not fall below the floor.
* `Layout.Hangs floor column base l`: running `l` inside a line does that, from every column
  from `column` on and under every indentation base from `base` on, as long as no sum of the run
  passes the largest width.
* `Layout.Starts floor base l`: so does ending the line and then running `l`.

A layout hangs from the floor when all three bounds agree: `Layout.Hangs floor floor floor`.
Started at the floor itself, a layout may still hang past it, `Layout.Hangs (c + 1) c c`:
this is what keeps a continuation line from being read as a new item of a block.
-/

namespace TrialLayout

/-! ## Lines of a text -/

namespace Text

/-- The number of spaces a line starts with. -/
def leadingSpaces (line : List Char) : Nat := (line.takeWhile (· == ' ')).length

/-- Every line but the first starts with at least `floor` spaces. -/
def ContinuesFrom (floor : Nat) (text : List Char) : Prop :=
  ∀ line ∈ (splitLines text).tail, floor ≤ leadingSpaces line

instance (floor : Nat) (text : List Char) : Decidable (ContinuesFrom floor text) :=
  inferInstanceAs (Decidable (∀ line ∈ _, _))

theorem leadingSpaces_append_le (a b : List Char) : leadingSpaces a ≤ leadingSpaces (a ++ b) := by
  unfold leadingSpaces
  induction a with
  | nil => simp
  | cons c rest ih =>
    rw [List.cons_append, List.takeWhile_cons, List.takeWhile_cons]
    split
    · simpa using ih
    · exact Nat.le_refl _

@[simp] theorem leadingSpaces_replicate (n : Nat) :
    leadingSpaces (List.replicate n ' ') = n := by
  simp [leadingSpaces]

/-- The first line of a text has the leading spaces of the text. -/
theorem leadingSpaces_head (text : List Char) :
    leadingSpaces ((splitLines text).headD []) = leadingSpaces text := by
  induction text with
  | nil => rfl
  | cons c rest ih =>
    by_cases hc : c = '\n'
    · subst hc
      rw [splitLines_newline]
      rfl
    · rw [splitLines_cons_of_ne hc]
      unfold leadingSpaces at *
      rw [List.headD_cons, List.takeWhile_cons, List.takeWhile_cons]
      split
      · simpa using ih
      · rfl

theorem continuesFrom_cons_of_ne {floor : Nat} {c : Char} (hc : c ≠ '\n') (text : List Char) :
    ContinuesFrom floor (c :: text) ↔ ContinuesFrom floor text := by
  unfold ContinuesFrom
  rw [splitLines_cons_of_ne hc, List.tail_cons]

theorem continuesFrom_newline {floor : Nat} (text : List Char) :
    ContinuesFrom floor ('\n' :: text) ↔
      floor ≤ leadingSpaces text ∧ ContinuesFrom floor text := by
  unfold ContinuesFrom
  rw [splitLines_newline, List.tail_cons, ← leadingSpaces_head]
  cases h : splitLines text with
  | nil => exact absurd h (splitLines_ne_nil text)
  | cons line rest => exact List.forall_mem_cons

theorem continuesFrom_of_oneLine {floor : Nat} {text : List Char} (h : '\n' ∉ text) :
    ContinuesFrom floor text := by
  induction text with
  | nil => exact fun _ mem => absurd mem List.not_mem_nil
  | cons c rest ih =>
    rw [List.mem_cons, not_or] at h
    exact (continuesFrom_cons_of_ne (Ne.symm h.1) rest).mpr (ih h.2)

theorem ContinuesFrom.append {floor : Nat} {a b : List Char} (ha : ContinuesFrom floor a)
    (hb : ContinuesFrom floor b) : ContinuesFrom floor (a ++ b) := by
  induction a with
  | nil => exact hb
  | cons c rest ih =>
    rw [List.cons_append]
    by_cases hc : c = '\n'
    · subst hc
      rw [continuesFrom_newline] at ha ⊢
      exact ⟨Nat.le_trans ha.1 (leadingSpaces_append_le rest b), ih ha.2⟩
    · rw [continuesFrom_cons_of_ne hc] at ha ⊢
      exact ih ha

end Text

/-! ## Printers -/

open Text (ContinuesFrom OneLine)

namespace Printer

/-- What leads from `p` to `q` is a text whose lines after the first start at the floor or to
the right of it; it ends inside a line, no further left than the floor or where it began. -/
structure Hangs (floor : Nat) (p q : Printer) : Prop where
  inLine : q.atLineStart = false
  indent : q.indent = p.indent
  column : min floor p.column ≤ q.column
  text : ∃ text, q.output.toList = p.output.toList ++ text ∧ ContinuesFrom floor text

namespace Hangs

variable {floor : Nat} {p q r : Printer}

theorem trans (hq : p.Hangs floor q) (hr : q.Hangs floor r) : p.Hangs floor r := by
  obtain ⟨x, hx, cx⟩ := hq.text
  obtain ⟨y, hy, cy⟩ := hr.text
  refine ⟨hr.inLine, hr.indent.trans hq.indent, ?_, x ++ y, ?_, cx.append cy⟩
  · have hcq := hq.column
    have hcr := hr.column
    omega
  · rw [hy, hx, List.append_assoc]

theorem write (inLine : p.atLineStart = false) {content : String} (oneLine : OneLine content) :
    p.Hangs floor (p.write content) := by
  rw [write_of_inLine inLine oneLine]
  refine ⟨inLine, rfl, ?_, content.toList, by simp, Text.continuesFrom_of_oneLine oneLine⟩
  show min floor p.column ≤ p.column + content.length
  omega

/-- Ending the line and writing its indentation. -/
theorem newline (base : floor ≤ p.indent) :
    p.Hangs floor p.newline.settle := by
  refine ⟨settle_atLineStart _, settle_indent _, ?_, '\n' :: List.replicate p.indent ' ', ?_, ?_⟩
  · rw [settle_column]
    exact Nat.le_trans (Nat.min_le_left ..) base
  · rw [settle_output]
    simp [Printer.newline, pending]
  · rw [Text.continuesFrom_newline, Text.leadingSpaces_replicate]
    exact ⟨base, Text.continuesFrom_of_oneLine (by simp [List.mem_replicate])⟩

/-- A change of the base is undone at the end of its scope. -/
theorem scope {indent : Nat} (h : (p.setIndent indent).Hangs floor q) :
    p.Hangs floor (q.setIndent p.indent) :=
  ⟨h.inLine, rfl, h.column, h.text⟩

end Hangs

theorem shifted_one_ge {base indent : Nat} (h : base ≤ indent)
    (room : (indent : Int) + 1 ≤ maxWidth) : base + 1 ≤ shifted indent 1 := by
  unfold shifted
  omega

theorem shifted_neg_ge {floor width indent : Nat} (h : floor + width ≤ indent)
    (room : (indent : Int) + -(width : Int) ≤ maxWidth) :
    floor ≤ shifted indent (-(width : Int)) := by
  unfold shifted
  omega

end Printer

/-! ## Layouts -/

open Printer

namespace Layout

/-- Run inside a line, at `column` or further right and under a base of at least `base`, the
layout hangs from the floor. -/
def Hangs (floor column base : Nat) (l : Layout) : Prop :=
  ∀ cfg : Config, cfg.Valid → ∀ p : Printer, p.atLineStart = false → column ≤ p.column →
    base ≤ p.indent → l.InRange cfg p → p.Hangs floor (l.run cfg p)

/-- Run after a newline, under a base of at least `base`, the layout hangs from the floor. -/
def Starts (floor base : Nat) (l : Layout) : Prop :=
  ∀ cfg : Config, cfg.Valid → ∀ p : Printer, p.atLineStart = false → base ≤ p.indent →
    l.InRange cfg p.newline → p.Hangs floor (l.run cfg p.newline)

namespace Hangs

variable {floor column base : Nat} {l left right : Layout}

theorem mono {column' base' : Nat} (h : l.Hangs floor column base) (hc : column ≤ column')
    (hb : base ≤ base') : l.Hangs floor column' base' :=
  fun cfg valid p inLine hcol hbase =>
    h cfg valid p inLine (Nat.le_trans hc hcol) (Nat.le_trans hb hbase)

theorem text {content : String} (oneLine : OneLine content) :
    (Layout.text content).Hangs floor column base :=
  fun _ _ _ inLine _ _ _ => .write inLine oneLine

theorem empty : Layout.empty.Hangs floor column base := text (by decide)

theorem space : Layout.space.Hangs floor column base := text (by decide)

theorem seq (hl : left.Hangs floor column base) (hr : right.Hangs floor (min floor column) base) :
    (left ++ right).Hangs floor column base := by
  rintro cfg valid p inLine hcol hbase ⟨rangel, ranger⟩
  have first := hl cfg valid p inLine hcol hbase rangel
  have reached := first.column
  exact first.trans
    (hr cfg valid _ first.inLine (by omega) (by rw [first.indent]; exact hbase) ranger)

/-- A text of known width moves what follows to the right. -/
theorem seq_text {content : String} (oneLine : OneLine content)
    (hl : left.Hangs floor column base)
    (hr : right.Hangs floor (min floor column + content.length) base) :
    (left ++ .text content ++ right).Hangs floor column base := by
  rintro cfg valid p inLine hcol hbase ⟨⟨rangel, -⟩, ranger⟩
  have first := hl cfg valid p inLine hcol hbase rangel
  have reached := first.column
  have written : (left.run cfg p).Hangs floor ((left.run cfg p).write content) :=
    .write first.inLine oneLine
  refine first.trans (written.trans (hr cfg valid _ written.inLine ?_ ?_ ranger))
  · rw [write_of_inLine first.inLine oneLine]
    show _ ≤ (left.run cfg p).column + content.length
    omega
  · rw [written.indent, first.indent]
    exact hbase

theorem text_seq {content : String} (oneLine : OneLine content)
    (hr : right.Hangs floor (column + content.length) base) :
    (Layout.text content ++ right).Hangs floor column base := by
  rintro cfg valid p inLine hcol hbase ⟨-, ranger⟩
  have written : p.Hangs floor (p.write content) := .write inLine oneLine
  refine written.trans
    (hr cfg valid _ written.inLine ?_ (by rw [written.indent]; exact hbase) ranger)
  rw [write_of_inLine inLine oneLine]
  show _ ≤ p.column + content.length
  omega

theorem newline_seq (hr : right.Starts floor base) :
    (Layout.newline ++ right).Hangs floor column base :=
  fun cfg valid p inLine _ hbase range => hr cfg valid p inLine hbase range.2

/-- One part, the end of its line, and another part. -/
theorem break_seq (hl : left.Hangs floor column base) (hr : right.Starts floor base) :
    (left ++ .newline ++ right).Hangs floor column base := by
  rintro cfg valid p inLine hcol hbase ⟨⟨rangel, -⟩, ranger⟩
  have first := hl cfg valid p inLine hcol hbase rangel
  exact first.trans (hr cfg valid _ first.inLine (by rw [first.indent]; exact hbase) ranger)

theorem shift_one_succ (h : l.Hangs floor column (base + 1)) :
    (Layout.shift 1 l).Hangs floor column base := by
  rintro cfg valid p inLine hcol hbase ⟨room, range⟩
  exact (h cfg valid (p.setIndent (shifted p.indent 1)) inLine hcol
    (shifted_one_ge hbase room) range).scope

theorem shift_one (h : l.Hangs floor column base) : (Layout.shift 1 l).Hangs floor column base :=
  shift_one_succ (h.mono (Nat.le_refl _) (Nat.le_succ _))

theorem shift_neg {width : Nat} (h : l.Hangs floor column base) :
    (Layout.shift (-(width : Int)) l).Hangs floor column (base + width) := by
  rintro cfg valid p inLine hcol hbase ⟨room, range⟩
  exact (h cfg valid (p.setIndent (shifted p.indent (-(width : Int)))) inLine hcol
    (shifted_neg_ge hbase room) range).scope

/-- A step moves the base to the right by at least one column. -/
theorem step (h : l.Hangs floor column (base + 1)) : (Layout.step l).Hangs floor column base := by
  rintro cfg valid p inLine hcol hbase ⟨room, range⟩
  exact (h cfg valid (p.setIndent (cfg.stepFrom p.indent)) inLine hcol
    (Config.succ_le_stepFrom valid hbase room) range).scope

theorem depend (hl : left.Hangs floor column base)
    (hr : right.Hangs floor (min floor column) (min base (min floor column))) :
    (Layout.depend left right).Hangs floor column base := by
  rintro cfg valid p inLine hcol hbase ⟨rangel, ranger⟩
  have first := hl cfg valid p inLine hcol hbase rangel
  have reached := first.column
  rw [dependBase] at ranger
  simp only [run, Printer.depend]
  split
  · next still =>
    rw [if_pos still] at ranger
    exact first.trans
      (hr cfg valid _ first.inLine (by omega) (by rw [first.indent]; omega) ranger)
  · next moved =>
    rw [if_neg moved] at ranger
    exact first.trans
      (hr cfg valid ((left.run cfg p).setIndent (left.run cfg p).column) first.inLine
        (show min floor column ≤ (left.run cfg p).column by omega)
        (show min base (min floor column) ≤ (left.run cfg p).column by omega) ranger).scope

/-- A part that depends on a text starts, and continues, behind that text. -/
theorem depend_text {content : String} (oneLine : OneLine content) (nonempty : content ≠ "")
    (hr : right.Hangs floor (column + content.length) (column + content.length)) :
    (Layout.depend (.text content) right).Hangs floor column base := by
  rintro cfg valid p inLine hcol hbase ⟨-, range⟩
  have written : p.Hangs floor (p.write content) := .write inLine oneLine
  have column : (p.write content).column = p.column + content.length := by
    rw [write_of_inLine inLine oneLine]
  have width : 0 < content.length := by
    rw [Nat.pos_iff_ne_zero, ne_eq, String.length_eq_zero_iff]
    exact nonempty
  have moved : ¬((p.write content).line = p.line ∧ (p.write content).column = p.column) := by
    omega
  rw [run, dependBase, if_neg moved] at range
  show p.Hangs floor (p.depend (Printer.write · content) (right.run cfg))
  rw [depend_of_moved moved]
  exact written.trans
    (hr cfg valid ((p.write content).setIndent (p.write content).column) written.inLine
      (show _ ≤ (p.write content).column by omega)
      (show _ ≤ (p.write content).column by omega) range).scope

theorem attempt (fit : Fit) (ht : left.Hangs floor column base)
    (hf : right.Hangs floor column base) :
    (Layout.attempt fit left right).Hangs floor column base := by
  rintro cfg valid p inLine hcol hbase ⟨kept, refused⟩
  rw [run_attempt]
  split
  · exact ht cfg valid p inLine hcol hbase kept
  · next fails => exact hf cfg valid p inLine hcol hbase (refused fails)

/-- A trial that is kept only on one line ends no line, however it is indented. -/
theorem attempt_line (hf : right.Hangs floor column base) :
    (Layout.attempt .line left right).Hangs floor column base := by
  rintro cfg valid p inLine hcol hbase ⟨-, refused⟩
  rw [run_attempt]
  split
  · next kept =>
    obtain ⟨text, emitted⟩ := left.run_emits cfg (.of_inLine inLine)
    have sameLine : (left.run cfg p).line = p.line := by
      rw [← (left.run_positional cfg).commit_trial p]
      simp only [Fit.accepts, Trial.isSingleLine, Bool.and_eq_true, beq_iff_eq] at kept
      exact kept.1
    have noNewline : '\n' ∉ text := by
      rw [emitted, emit_line] at sameLine
      exact List.count_eq_zero.mp (by omega)
    rw [emitted, emit_of_inLine p inLine noNewline]
    refine ⟨inLine, rfl, ?_, text, by simp, Text.continuesFrom_of_oneLine noNewline⟩
    show min floor p.column ≤ p.column + text.length
    omega
  · next fails => exact hf cfg valid p inLine hcol hbase (refused fails)

theorem byHead {head : Layout} (hh : head.Hangs floor column base)
    (hs : left.Hangs floor (min floor column) base)
    (hl : right.Hangs floor (min floor column) base) :
    (Layout.byHead head left right).Hangs floor column base := by
  rintro cfg valid p inLine hcol hbase ⟨first, short, long⟩
  rw [run_byHead]
  split
  · next brief => exact (hh.seq hs) cfg valid p inLine hcol hbase ⟨first, short brief⟩
  · next wide => exact (hh.seq hl) cfg valid p inLine hcol hbase ⟨first, long wide⟩

theorem hang (h : l.Hangs floor (column + 1) (column + 1)) :
    (Layout.hang l).Hangs floor column base := by
  rintro cfg valid p inLine hcol hbase ⟨-, range⟩
  have written : p.Hangs floor (p.write " ") := .write inLine (by decide)
  have moved : (p.write " ").column = p.column + 1 := by
    rw [write_of_inLine inLine (by decide)]
    rfl
  exact written.trans
    (h cfg valid ((p.write " ").setIndent (p.column + 1)) written.inLine
      (show column + 1 ≤ (p.write " ").column by omega)
      (show column + 1 ≤ p.column + 1 by omega) range).scope

/-- A resumed part starts its line one step past the column of the first part. -/
theorem resume_newline (hl : left.Hangs floor column base)
    (hr : right.Starts floor (column + 1)) :
    (Layout.resume (left ++ .newline) right).Hangs floor column base := by
  rintro cfg valid p inLine hcol hbase ⟨⟨rangel, -⟩, room, ranger⟩
  have first := hl cfg valid p inLine hcol hbase rangel
  have start : column ≤ p.effectiveColumn := by simpa [effectiveColumn, inLine] using hcol
  exact first.trans
    (hr cfg valid ((left.run cfg p).setIndent (cfg.stepFrom p.effectiveColumn)) first.inLine
      (Config.succ_le_stepFrom valid start room) ranger).scope

end Hangs

end Layout

end TrialLayout
