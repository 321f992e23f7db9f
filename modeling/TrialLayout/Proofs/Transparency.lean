import TrialLayout.Printer.Script

/-!
# Sandboxing is transparent

A trial runs on a snapshot: the same position, an empty buffer. It shows what the real run
would do only if nothing a procedure does depends on the text written so far. This module
proves that nothing does, for layouts and for scripts, and nothing depends on the number of
the line either.

* `Positional`: a procedure commutes with `prepend`, which puts text and lines in front of
  what a printer holds.
* Every operation of the printer keeps procedures positional, trials included: a trial that
  starts further down gives the same answers (`Fit.accepts_below`, `Trial.isShort_below`).

Results:
1. `Layout.run_positional`, `Script.run_positional`: layouts and scripts are positional.
2. `Positional.commit_trial`: committing the candidate of a trial is the direct run.
3. `Layout.run_attempt`, `Layout.run_byHead`: which rendering is chosen is decided by a
   trial, and what is then written is a direct run.
4. `sandbox_transparent`: dropped, committed and measured sandboxes of arbitrary scripts.
-/

namespace TrialLayout

/-! ## Definitions -/

/-- The same printer, with `text` in front of its output and `lines` lines above its own. -/
def Printer.prepend (p : Printer) (text : String) (lines : Nat) : Printer :=
  { p with output := text ++ p.output, line := lines + p.line }

/-- A procedure that looks neither at the text written so far nor at the line number. -/
def Positional (body : Printer → Printer) : Prop :=
  ∀ p text lines, body (p.prepend text lines) = (body p).prepend text lines

/-- The same trial, made `lines` lines further down. -/
def Trial.below (t : Trial) (lines : Nat) : Trial :=
  ⟨t.start.prepend "" lines, t.candidate.prepend "" lines⟩

/-! ## Printer operations -/

namespace Printer

@[simp] theorem prepend_column (p : Printer) (text : String) (lines : Nat) :
    (p.prepend text lines).column = p.column := rfl

@[simp] theorem prepend_line (p : Printer) (text : String) (lines : Nat) :
    (p.prepend text lines).line = lines + p.line := rfl

@[simp] theorem prepend_output (p : Printer) (text : String) (lines : Nat) :
    (p.prepend text lines).output = text ++ p.output := rfl

@[simp] theorem prepend_lineWidth (p : Printer) (text : String) (lines : Nat) :
    (p.prepend text lines).lineWidth = p.lineWidth := rfl

theorem prepend_snapshot (p : Printer) (text : String) (lines : Nat) :
    (p.prepend text lines).snapshot = p.snapshot.prepend "" lines := by
  simp [snapshot, prepend]

theorem prepend_commit (p candidate : Printer) (text : String) (lines : Nat) :
    (p.prepend text lines).commit (candidate.prepend "" lines) =
      (p.commit candidate).prepend text lines := by
  simp [commit, prepend, String.append_assoc]

/-- A printer is its own snapshot with its text put back in front. -/
theorem snapshot_prepend (p : Printer) : p.snapshot.prepend p.output 0 = p := by
  simp [snapshot, prepend]

end Printer

namespace Positional

open Printer

theorem newline : Positional Printer.newline := by
  intro p text lines
  simp [Printer.newline, prepend, ← String.toList_inj, Nat.add_assoc]

theorem settle : Positional Printer.settle := by
  intro p text lines
  by_cases pending : p.atLineStart
  · simp [Printer.settle, prepend, pending, ← String.toList_inj]
  · simp [Printer.settle, prepend, pending]

theorem push (c : Char) : Positional (Printer.push · c) := by
  intro p text lines
  simp [Printer.push, prepend, ← String.toList_inj]

theorem put (c : Char) : Positional (Printer.put · c) := by
  intro p text lines
  simp only [Printer.put]
  split
  · exact newline p text lines
  · rw [settle p text lines]
    exact push c p.settle text lines

theorem write (content : String) : Positional (Printer.write · content) := by
  unfold Printer.write
  induction content.toList with
  | nil => exact fun _ _ _ => rfl
  | cons c rest ih =>
    intro p text lines
    have first : (p.prepend text lines).put c = (p.put c).prepend text lines := put c p text lines
    simp only [List.foldl_cons, first]
    exact ih (p.put c) text lines

theorem setIndent (indent : Nat) : Positional (Printer.setIndent · indent) := fun _ _ _ => rfl

theorem seq {first second : Printer → Printer} (hf : Positional first)
    (hs : Positional second) : Positional fun p => second (first p) := by
  intro p text lines
  show second (first _) = _
  rw [hf, hs]

theorem withIndentAt {body : Printer → Printer} (h : Positional body) (p : Printer)
    (column : Nat) (text : String) (lines : Nat) :
    (p.prepend text lines).withIndentAt column body =
      (p.withIndentAt column body).prepend text lines := by
  have inner := h (p.setIndent column) text lines
  exact congrArg (Printer.setIndent · p.indent) inner

theorem indented {body : Printer → Printer} (h : Positional body) (delta : Int) :
    Positional (Printer.indented · delta body) := by
  intro p text lines
  exact h.withIndentAt p (shifted p.indent delta) text lines

theorem depend {left right : Printer → Printer} (hl : Positional left)
    (hr : Positional right) : Positional (Printer.depend · left right) := by
  intro p text lines
  show Printer.depend (p.prepend text lines) left right = _
  unfold Printer.depend
  simp only [hl p text lines, prepend_line, prepend_column, Nat.add_left_cancel_iff]
  split
  · exact hr (left p) text lines
  · exact hr.withIndentAt (left p) (left p).column text lines

/-! ## Trials -/

/-- A trial from further down is the trial further down. -/
theorem trial {body : Printer → Printer} (h : Positional body) (p : Printer)
    (text : String) (lines : Nat) :
    (p.prepend text lines).trial body = (p.trial body).below lines := by
  simp only [Printer.trial, prepend_snapshot, h p.snapshot "" lines]
  rfl

/-- Committing the candidate of a trial gives what the procedure gives directly. -/
theorem commit_trial {body : Printer → Printer} (h : Positional body) (p : Printer) :
    p.commit (p.trial body).candidate = body p := by
  have direct : body (p.snapshot.prepend p.output 0) = (body p.snapshot).prepend p.output 0 :=
    h p.snapshot p.output 0
  rw [snapshot_prepend] at direct
  rw [direct]
  simp [Printer.trial, commit, prepend]

/-- Settling a trial either way is a direct run or nothing. -/
theorem settleTrial {body : Printer → Printer} (h : Positional body) (p : Printer)
    (keep : Bool) :
    p.settleTrial keep (p.trial body).candidate = if keep then body p else p := by
  unfold Printer.settleTrial
  rw [h.commit_trial]

/-- The candidate of a trial holds exactly the text that the direct run appends. -/
theorem output_eq {body : Printer → Printer} (h : Positional body) (p : Printer) :
    (body p).output = p.output ++ (p.trial body).candidate.output := by
  rw [← h.commit_trial p]
  rfl

/-- A trial ends on the line on which the direct run ends. -/
theorem candidate_line {body : Printer → Printer} (h : Positional body) (p : Printer) :
    (p.trial body).candidate.line = (body p).line := by
  rw [← h.commit_trial p]
  rfl

/-- A trial ends at the column at which the direct run ends. -/
theorem candidate_column {body : Printer → Printer} (h : Positional body) (p : Printer) :
    (p.trial body).candidate.column = (body p).column := by
  rw [← h.commit_trial p]
  rfl

end Positional

namespace Trial

theorem isSingleLine_below (t : Trial) (lines : Nat) :
    (t.below lines).isSingleLine = t.isSingleLine := by
  simp only [isSingleLine, below, Printer.prepend_line]
  rw [Bool.eq_iff_iff]
  simp

theorem isShort_below (cfg : Config) (t : Trial) (lines : Nat) :
    (t.below lines).isShort cfg = t.isShort cfg := by
  simp only [isShort, isSingleLine_below]
  rfl

theorem lineEnds_below (t : Trial) (lines : Nat) : (t.below lines).lineEnds = t.lineEnds := by
  simp [lineEnds, below]

end Trial

/-- Whether a trial is kept does not depend on the line on which it is made. -/
theorem Fit.accepts_below (cfg : Config) (fit : Fit) (t : Trial) (lines : Nat) :
    fit.accepts cfg (t.below lines) = fit.accepts cfg t := by
  cases fit with
  | line => simp only [accepts, Trial.isSingleLine_below]; rfl
  | within => rfl
  | small => simp only [accepts, Trial.isSmall, Trial.isSingleLine_below]; rfl
  | stack count =>
    simp only [accepts, Trial.lineEnds_below]
    congr 1
    simp only [Trial.below, Printer.prepend_line]
    rw [Bool.eq_iff_iff]
    simp only [beq_iff_eq]
    omega

/-! ## Layouts -/

namespace Layout

/-- A layout is positional. In an attempt and behind a head the trial further down gives the
same answer, so the same rendering is chosen. -/
theorem run_positional (cfg : Config) (l : Layout) : Positional (l.run cfg) := by
  induction l with
  | text content => exact Positional.write content
  | newline => exact Positional.newline
  | seq first second ihf ihs => exact ihf.seq ihs
  | shift delta body ih => exact ih.indented delta
  | step body ih =>
    intro p text lines
    exact ih.withIndentAt p (cfg.stepFrom p.indent) text lines
  | depend left right ihl ihr => exact ihl.depend ihr
  | attempt fit trial fallback iht ihf =>
    intro p text lines
    simp only [run]
    rw [iht.trial p text lines, Fit.accepts_below, apply_ite (Printer.prepend · text lines)]
    split
    · exact p.prepend_commit _ text lines
    · exact ihf p text lines
  | byHead head short long ihh ihs ihl =>
    intro p text lines
    simp only [run]
    rw [ihh.trial p text lines, Trial.isShort_below]
    simp only [Trial.below, Printer.prepend_commit]
    split
    · exact ihs _ text lines
    · exact ihl _ text lines
  | hang body ih =>
    intro p text lines
    simp only [run, Printer.space, Positional.write " " p text lines]
    exact ih.withIndentAt (p.write " ") (p.column + 1) text lines
  | resume first rest ihf ihr =>
    intro p text lines
    simp only [run, ihf p text lines]
    exact ihr.withIndentAt (run cfg first p) _ text lines

theorem run_attempt (cfg : Config) (fit : Fit) (trial fallback : Layout) (p : Printer) :
    (attempt fit trial fallback).run cfg p =
      if fit.accepts cfg (p.trial (trial.run cfg)) then trial.run cfg p
      else fallback.run cfg p := by
  simp only [run, (trial.run_positional cfg).commit_trial]

theorem run_byHead (cfg : Config) (head short long : Layout) (p : Printer) :
    (byHead head short long).run cfg p =
      if (p.trial (head.run cfg)).isShort cfg then short.run cfg (head.run cfg p)
      else long.run cfg (head.run cfg p) := by
  simp only [run, (head.run_positional cfg).commit_trial]
  split <;> rfl

end Layout

/-! ## Scripts -/

namespace Script

/-- A script is positional, at any nesting of sandboxes. -/
theorem run_positional (cfg : Config) (s : Script) : Positional (s.run cfg) := by
  induction s with
  | done => exact fun _ _ _ => rfl
  | write content rest ih => exact (Positional.write content).seq ih
  | space rest ih => exact (Positional.write " ").seq ih
  | newline rest ih => exact Positional.newline.seq ih
  | setIndent indent rest ih => exact (Positional.setIndent indent).seq ih
  | withIndentAt column body rest ihb ih =>
    intro p text lines
    simp only [run, ihb.withIndentAt p column text lines]
    exact ih _ text lines
  | indented delta body rest ihb ih => exact (ihb.indented delta).seq ih
  | depend left right rest ihl ihr ih => exact (ihl.depend ihr).seq ih
  | sandbox keep body rest ihb ih | trial keep body rest ihb ih =>
    intro p text lines
    simp only [run, ihb.settleTrial]
    cases keep with
    | true => exact (ihb.seq ih) p text lines
    | false => exact ih p text lines
  | measure question body rest _ ih => exact ih
  | render layout rest ih => exact (layout.run_positional cfg).seq ih

end Script

/-- Sandboxing is transparent. Whatever script is run in a sandbox or trial, and whatever
follows: dropping the candidate, or only measuring it, goes on from the printer as it was;
committing the candidate goes on from the printer that the script itself leads to; and the
text of the candidate is the text that the script appends when it is run directly. -/
theorem sandbox_transparent (cfg : Config) (body rest : Script) (p : Printer) :
    ((Script.sandbox false body rest).run cfg p = rest.run cfg p ∧
      (Script.trial false body rest).run cfg p = rest.run cfg p ∧
      ∀ question, (Script.measure question body rest).run cfg p = rest.run cfg p) ∧
    ((Script.sandbox true body rest).run cfg p = rest.run cfg (body.run cfg p) ∧
      (Script.trial true body rest).run cfg p = rest.run cfg (body.run cfg p)) ∧
    (body.run cfg p).output = p.output ++ (p.trial (body.run cfg)).candidate.output := by
  have positional : Positional (body.run cfg) := body.run_positional cfg
  refine ⟨⟨rfl, rfl, fun _ => rfl⟩, ⟨?_, ?_⟩, positional.output_eq p⟩
  · simp only [Script.run, positional.settleTrial, if_true]
  · simp only [Script.run, positional.settleTrial, if_true]

end TrialLayout
