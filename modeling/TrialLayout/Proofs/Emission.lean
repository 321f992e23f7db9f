import TrialLayout.Proofs.Transparency

/-!
# What a layout emits

The position of a printer is bookkeeping about its text. This module makes that precise for
layouts: whatever trials a layout makes, running it has the same effect as emitting some
text character by character (`Layout.run_emits`), where `emit` knows neither indentation nor
trials. So the text alone decides line and column, and the indentation base is always put
back. A script emits as well, but may leave another base behind (`Script.run_emits`).

The statement needs `Consistent`, that a printer at the start of a line counts no column.
Every printer that is reached from a fresh one is consistent (`Reachable.consistent`).
-/

namespace TrialLayout

namespace Printer

/-! ## Definitions -/

/-- At the start of a line, no character stands on that line. -/
def Consistent (p : Printer) : Prop := p.atLineStart = true → p.column = 0

/-- The printers that a program can come to: a fresh printer, possibly on a line that
somebody else began, after any script. -/
inductive Reachable (cfg : Config) : Printer → Prop
  | start : Reachable cfg .start
  | continued {p : Printer} (column : Nat) :
      Reachable cfg p → Reachable cfg (p.withStartingColumn column)
  | run {p : Printer} (script : Script) : Reachable cfg p → Reachable cfg (script.run cfg p)

/-- Adds one character to the text as it is, without any indentation. -/
def emitChar (p : Printer) (c : Char) : Printer :=
  if c = '\n' then p.newline else { p.push c with atLineStart := false }

/-- Adds characters to the text as they are, without any indentation. -/
def emit (p : Printer) (text : List Char) : Printer := text.foldl emitChar p

/-- The indentation that is written in front of the next character. -/
def pending (p : Printer) : List Char :=
  if p.atLineStart then List.replicate p.indent ' ' else []

/-! ## Emitting -/

@[simp] theorem emit_nil (p : Printer) : p.emit [] = p := rfl

theorem emit_append (p : Printer) (a b : List Char) :
    p.emit (a ++ b) = (p.emit a).emit b := by
  simp [emit, List.foldl_append]

theorem emitChar_setIndent (p : Printer) (c : Char) (indent : Nat) :
    (p.setIndent indent).emitChar c = (p.emitChar c).setIndent indent := by
  unfold emitChar
  split <;> rfl

theorem emit_setIndent (p : Printer) (text : List Char) (indent : Nat) :
    (p.setIndent indent).emit text = (p.emit text).setIndent indent := by
  induction text generalizing p with
  | nil => rfl
  | cons c rest ih =>
    show ((p.setIndent indent).emitChar c).emit rest = ((p.emitChar c).emit rest).setIndent indent
    rw [emitChar_setIndent, ih]

@[simp] theorem emitChar_indent (p : Printer) (c : Char) : (p.emitChar c).indent = p.indent := by
  unfold emitChar
  split <;> rfl

@[simp] theorem emit_indent (p : Printer) (text : List Char) : (p.emit text).indent = p.indent := by
  induction text generalizing p with
  | nil => rfl
  | cons c rest ih => exact (ih (p.emitChar c)).trans (p.emitChar_indent c)

@[simp] theorem emitChar_output (p : Printer) (c : Char) :
    (p.emitChar c).output.toList = p.output.toList ++ [c] := by
  unfold emitChar
  split
  · next newline => simp [Printer.newline, newline]
  · simp [push]

@[simp] theorem emit_output (p : Printer) (text : List Char) :
    (p.emit text).output.toList = p.output.toList ++ text := by
  induction text generalizing p with
  | nil => simp
  | cons c rest ih =>
    show ((p.emitChar c).emit rest).output.toList = _
    rw [ih, emitChar_output, List.append_assoc, List.singleton_append]

theorem emit_line (p : Printer) (text : List Char) :
    (p.emit text).line = p.line + text.count '\n' := by
  induction text generalizing p with
  | nil => rfl
  | cons c rest ih =>
    show ((p.emitChar c).emit rest).line = _
    rw [ih, List.count_cons]
    unfold emitChar
    split
    · next newline =>
      simp only [Printer.newline, newline, beq_self_eq_true, if_true]
      omega
    · next other => simp [push, other]

theorem emit_of_inLine (p : Printer) {text : List Char} (inLine : p.atLineStart = false)
    (noNewline : '\n' ∉ text) :
    p.emit text = { p with
      output := p.output ++ String.ofList text, column := p.column + text.length } := by
  induction text generalizing p with
  | nil => simp
  | cons c rest ih =>
    rw [List.mem_cons, not_or] at noNewline
    show (p.emitChar c).emit rest = _
    have step : p.emitChar c = p.push c := by
      unfold emitChar
      rw [if_neg (Ne.symm noNewline.1)]
      simp [push, inLine]
    rw [step, ih (p.push c) inLine noNewline.2]
    simp only [push, List.length_cons, mk.injEq, and_true, true_and]
    refine ⟨?_, by omega⟩
    simp [← String.toList_inj]

/-! ## Writing in a line -/

@[simp] theorem settle_atLineStart (p : Printer) : p.settle.atLineStart = false := by
  unfold settle
  split
  · rfl
  · next inLine => simpa using inLine

@[simp] theorem settle_column (p : Printer) : p.settle.column = p.effectiveColumn := by
  unfold settle effectiveColumn
  split <;> rfl

@[simp] theorem settle_indent (p : Printer) : p.settle.indent = p.indent := by
  unfold settle
  split <;> rfl

@[simp] theorem settle_line (p : Printer) : p.settle.line = p.line := by
  unfold settle
  split <;> rfl

@[simp] theorem settle_output (p : Printer) :
    p.settle.output.toList = p.output.toList ++ p.pending := by
  unfold settle pending
  split <;> simp

theorem newline_not_mem_pending (p : Printer) : '\n' ∉ p.pending := by
  unfold pending
  split <;> simp [List.mem_replicate]

theorem settle_of_inLine {p : Printer} (inLine : p.atLineStart = false) : p.settle = p := by
  simp [settle, inLine]

theorem foldl_put_of_inLine {p : Printer} {text : List Char} (inLine : p.atLineStart = false)
    (noNewline : '\n' ∉ text) : text.foldl put p = p.emit text := by
  induction text generalizing p with
  | nil => rfl
  | cons c rest ih =>
    rw [List.mem_cons, not_or] at noNewline
    have step : p.put c = p.emitChar c := by
      simp [put, emitChar, Ne.symm noNewline.1, settle_of_inLine inLine, push, inLine]
    have inLine' : (p.emitChar c).atLineStart = false := by
      simp [emitChar, Ne.symm noNewline.1]
    rw [List.foldl_cons, step, ih inLine' noNewline.2]
    rfl

theorem write_of_inLine {p : Printer} {content : String} (inLine : p.atLineStart = false)
    (noNewline : '\n' ∉ content.toList) :
    p.write content =
      { p with output := p.output ++ content, column := p.column + content.length } := by
  rw [write, foldl_put_of_inLine inLine noNewline, emit_of_inLine p inLine noNewline,
    String.ofList_toList, String.length_toList]

/-- Where something is written, the pending indentation may as well be written before. -/
theorem write_settle (p : Printer) {content : String} (nonempty : content ≠ "")
    (noNewline : '\n' ∉ content.toList) : p.write content = p.settle.write content := by
  unfold write
  cases h : content.toList with
  | nil => exact absurd (String.toList_eq_nil_iff.mp h) nonempty
  | cons c rest =>
    rw [h, List.mem_cons, not_or] at noNewline
    have step : p.put c = p.settle.put c := by
      simp only [put, if_neg (Ne.symm noNewline.1)]
      rw [settle_of_inLine p.settle_atLineStart]
    rw [List.foldl_cons, List.foldl_cons, step]

/-! ## Consistent printers -/

theorem Consistent.of_inLine {p : Printer} (inLine : p.atLineStart = false) : p.Consistent := by
  intro start
  rw [inLine] at start
  exact absurd start (by simp)

theorem Consistent.setIndent {p : Printer} (h : p.Consistent) (indent : Nat) :
    (p.setIndent indent).Consistent := h

theorem Consistent.emit {p : Printer} (h : p.Consistent) (text : List Char) :
    (p.emit text).Consistent := by
  induction text generalizing p with
  | nil => exact h
  | cons c rest ih =>
    refine ih (p := p.emitChar c) ?_
    unfold emitChar
    split
    · exact fun _ => rfl
    · exact Consistent.of_inLine rfl

/-- Spaces at the start of a line are the indentation. -/
theorem emit_replicate_space (p : Printer) (n : Nat) (h : 0 < n) :
    p.emit (List.replicate n ' ') =
      { p with
        output := Text.addSpaces p.output n, column := p.column + n, atLineStart := false } := by
  cases n with
  | zero => exact absurd h (Nat.lt_irrefl 0)
  | succ n =>
    rw [List.replicate_succ]
    show (p.emitChar ' ').emit (List.replicate n ' ') = _
    rw [emit_of_inLine _ rfl (by simp [List.mem_replicate])]
    simp only [emitChar, push, mk.injEq]
    refine ⟨?_, ?_⟩
    · simp [← String.toList_inj, List.replicate_succ]
    · simp
      omega

/-- Writing a character emits the pending indentation and that character. -/
theorem put_eq_emit {p : Printer} (h : p.Consistent) {c : Char} (hc : c ≠ '\n') :
    p.put c = p.emit (p.pending ++ [c]) := by
  rw [emit_append, put, if_neg hc]
  show p.settle.push c = (p.emit p.pending).emitChar c
  unfold emitChar pending settle
  rw [if_neg hc]
  split
  · next start =>
    have column : p.column = 0 := h start
    rcases Nat.eq_zero_or_pos p.indent with zero | positive
    · simp [zero, push, Text.addSpaces, column, String.pushn_eq_repeat_push, Nat.repeat]
    · rw [emit_replicate_space p p.indent positive]
      simp [push, column]
  · next inLine => simp [push, inLine]

theorem newline_eq_emit (p : Printer) : p.newline = p.emit ['\n'] := rfl

theorem write_emits {p : Printer} (h : p.Consistent) (content : String) :
    ∃ text, p.write content = p.emit text := by
  unfold write
  induction content.toList generalizing p with
  | nil => exact ⟨[], rfl⟩
  | cons c rest ih =>
    have first : ∃ text, p.put c = p.emit text := by
      by_cases hc : c = '\n'
      · exact ⟨['\n'], by rw [put, if_pos hc, newline_eq_emit]⟩
      · exact ⟨_, put_eq_emit h hc⟩
    obtain ⟨a, ha⟩ := first
    obtain ⟨b, hb⟩ := ih (h.emit a)
    refine ⟨a ++ b, ?_⟩
    rw [List.foldl_cons, ha, hb, emit_append]

/-- Once the position has changed, the right part is run under the column reached. -/
theorem depend_of_moved {p : Printer} {left right : Printer → Printer}
    (moved : ¬((left p).line = p.line ∧ (left p).column = p.column)) :
    p.depend left right = (left p).withIndentAt (left p).column right := if_neg moved

theorem withIndentAt_emits {p : Printer} {column : Nat} {body : Printer → Printer}
    {text : List Char} (h : body (p.setIndent column) = (p.setIndent column).emit text) :
    p.withIndentAt column body = p.emit text := by
  unfold withIndentAt
  rw [h, emit_setIndent]
  show (p.emit text).setIndent p.indent = p.emit text
  have restored : (p.emit text).indent = p.indent := p.emit_indent text
  rw [← restored]
  rfl

end Printer

/-! ## Layouts -/

open Printer

namespace Layout

/-- Running a layout emits some text and does nothing else. -/
theorem run_emits (cfg : Config) (l : Layout) {p : Printer} (h : p.Consistent) :
    ∃ text, l.run cfg p = p.emit text := by
  induction l generalizing p with
  | text content => exact write_emits h content
  | newline => exact ⟨['\n'], p.newline_eq_emit⟩
  | seq first second ihf ihs =>
    obtain ⟨a, ha⟩ := ihf h
    obtain ⟨b, hb⟩ := ihs (h.emit a)
    exact ⟨a ++ b, by rw [run, ha, hb, emit_append]⟩
  | shift delta body ih =>
    obtain ⟨a, ha⟩ := ih (h.setIndent (shifted p.indent delta))
    exact ⟨a, withIndentAt_emits ha⟩
  | step body ih =>
    obtain ⟨a, ha⟩ := ih (h.setIndent (cfg.stepFrom p.indent))
    exact ⟨a, withIndentAt_emits ha⟩
  | depend left right ihl ihr =>
    obtain ⟨a, ha⟩ := ihl h
    simp only [run, Printer.depend, ha]
    split
    · obtain ⟨b, hb⟩ := ihr (h.emit a)
      exact ⟨a ++ b, by rw [hb, emit_append]⟩
    · obtain ⟨b, hb⟩ := ihr ((h.emit a).setIndent (p.emit a).column)
      exact ⟨a ++ b, by rw [withIndentAt_emits hb, emit_append]⟩
  | attempt fit trial fallback iht ihf =>
    rw [run_attempt]
    split
    · exact iht h
    · exact ihf h
  | byHead head short long ihh ihs ihl =>
    rw [run_byHead]
    obtain ⟨a, ha⟩ := ihh h
    rw [ha]
    split
    · obtain ⟨b, hb⟩ := ihs (h.emit a)
      exact ⟨a ++ b, by rw [hb, emit_append]⟩
    · obtain ⟨b, hb⟩ := ihl (h.emit a)
      exact ⟨a ++ b, by rw [hb, emit_append]⟩
  | hang body ih =>
    obtain ⟨a, ha⟩ := write_emits h " "
    obtain ⟨b, hb⟩ := ih ((h.emit a).setIndent (p.column + 1))
    refine ⟨a ++ b, ?_⟩
    rw [run, Printer.space, ha, withIndentAt_emits hb, emit_append]
  | resume first rest ihf ihr =>
    obtain ⟨a, ha⟩ := ihf h
    obtain ⟨b, hb⟩ := ihr ((h.emit a).setIndent (cfg.stepFrom p.effectiveColumn))
    refine ⟨a ++ b, ?_⟩
    rw [run, ha, withIndentAt_emits hb, emit_append]

theorem run_consistent (cfg : Config) (l : Layout) {p : Printer} (h : p.Consistent) :
    (l.run cfg p).Consistent := by
  obtain ⟨text, emitted⟩ := l.run_emits cfg h
  rw [emitted]
  exact h.emit text

end Layout

/-! ## Scripts -/

namespace Printer

/-- `q` is what `p` becomes when some text is emitted, under whatever base. -/
def EmitsTo (p q : Printer) : Prop := ∃ text indent, q = (p.emit text).setIndent indent

namespace EmitsTo

variable {p q r : Printer}

theorem of_emit {text : List Char} (h : q = p.emit text) : p.EmitsTo q :=
  ⟨text, q.indent, by rw [h]; rfl⟩

theorem refl (p : Printer) : p.EmitsTo p := .of_emit p.emit_nil.symm

theorem trans (first : p.EmitsTo q) (second : q.EmitsTo r) : p.EmitsTo r := by
  obtain ⟨a, i, rfl⟩ := first
  obtain ⟨b, j, rfl⟩ := second
  exact ⟨a ++ b, j, by rw [emit_setIndent, emit_append]; rfl⟩

theorem write (h : p.Consistent) (content : String) : p.EmitsTo (p.write content) := by
  obtain ⟨text, emitted⟩ := write_emits h content
  exact .of_emit emitted

theorem setIndent (p : Printer) (indent : Nat) : p.EmitsTo (p.setIndent indent) :=
  ⟨[], indent, rfl⟩

/-- The base under which something is run does not count. -/
theorem withIndentAt {column : Nat} {body : Printer → Printer}
    (inner : (p.setIndent column).EmitsTo (body (p.setIndent column))) :
    p.EmitsTo (p.withIndentAt column body) :=
  ((setIndent p column).trans inner).trans (setIndent _ p.indent)

theorem consistent (emits : p.EmitsTo q) (h : p.Consistent) : q.Consistent := by
  obtain ⟨text, indent, rfl⟩ := emits
  exact (h.emit text).setIndent indent

end EmitsTo

end Printer

namespace Script

/-- Running a script emits some text and leaves some base behind. -/
theorem run_emits (cfg : Config) (s : Script) {p : Printer} (h : p.Consistent) :
    p.EmitsTo (s.run cfg p) := by
  induction s generalizing p with
  | done => exact .refl p
  | write content rest ih =>
    have first := EmitsTo.write h content
    exact first.trans (ih (first.consistent h))
  | space rest ih =>
    have first : p.EmitsTo p.space := EmitsTo.write h " "
    exact first.trans (ih (first.consistent h))
  | newline rest ih =>
    have first : p.EmitsTo p.newline := .of_emit p.newline_eq_emit
    exact first.trans (ih (first.consistent h))
  | setIndent indent rest ih => exact (EmitsTo.setIndent p indent).trans (ih (h.setIndent indent))
  | withIndentAt column body rest ihb ih =>
    have first := EmitsTo.withIndentAt (ihb (h.setIndent column))
    exact first.trans (ih (first.consistent h))
  | indented delta body rest ihb ih =>
    have first := EmitsTo.withIndentAt (ihb (h.setIndent (shifted p.indent delta)))
    exact first.trans (ih (first.consistent h))
  | depend left right rest ihl ihr ih =>
    have reached : (left.run cfg p).Consistent := (ihl h).consistent h
    have first : p.EmitsTo (p.depend (left.run cfg) (right.run cfg)) := by
      refine (ihl h).trans ?_
      simp only [Printer.depend]
      split
      · exact ihr reached
      · exact .withIndentAt (ihr (reached.setIndent _))
    exact first.trans (ih (first.consistent h))
  | sandbox keep body rest ihb ih | trial keep body rest ihb ih =>
    have first : p.EmitsTo (p.settleTrial keep (p.trial (body.run cfg)).candidate) := by
      rw [(body.run_positional cfg).settleTrial]
      split
      · exact ihb h
      · exact .refl p
    exact first.trans (ih (first.consistent h))
  | measure question body rest _ ih => exact ih h
  | render layout rest ih =>
    obtain ⟨text, emitted⟩ := layout.run_emits cfg h
    have first := EmitsTo.of_emit emitted
    exact first.trans (ih (first.consistent h))

end Script

/-! ## Reachable printers -/

theorem Printer.Reachable.consistent {cfg : Config} {p : Printer} (h : Reachable cfg p) :
    p.Consistent := by
  induction h with
  | start => exact fun _ => rfl
  | continued column _ _ => exact Consistent.of_inLine rfl
  | run script _ ih => exact (script.run_emits cfg ih).consistent ih

end TrialLayout
