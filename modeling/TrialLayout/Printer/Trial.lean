import TrialLayout.Printer

/-!
# Trials

A trial runs a procedure on a snapshot of the printer: the same position, an empty
buffer. The printer it leaves behind is the candidate. A candidate can be measured, and
then either dropped, in which case nothing has happened, or committed, in which case its
text is appended and its position adopted.
-/

namespace TrialLayout

namespace Printer

/-- The position of a printer with an empty buffer. -/
def snapshot (p : Printer) : Printer := { p with output := "" }

/-- Appends a candidate's text and adopts its position. -/
def commit (p candidate : Printer) : Printer :=
  { candidate with output := p.output ++ candidate.output }

/-- Committing what a trial of nothing leaves behind changes nothing. -/
theorem commit_snapshot (p : Printer) : p.commit p.snapshot = p := by
  simp [commit, snapshot]

end Printer

/-- Where a trial started and the candidate it produced. -/
structure Trial where
  start : Printer
  candidate : Printer
deriving DecidableEq, Repr

/-- Runs a procedure on a snapshot and keeps the result for measuring. -/
def Printer.trial (p : Printer) (body : Printer → Printer) : Trial :=
  let snapshot := p.snapshot
  ⟨snapshot, body snapshot⟩

namespace Trial

/-- No line was ended. -/
def isSingleLine (t : Trial) : Bool := t.candidate.line == t.start.line

/-- The trial ended past the column limit. -/
def overflows (cfg : Config) (t : Trial) : Bool := cfg.columnLimit < t.candidate.column

/-- The trial ended past the column limit and the overflow margin. -/
def overflowsMax (cfg : Config) (t : Trial) : Bool := cfg.tolerantLimit < t.candidate.column

/-- No line was ended, and the trial ended before the small column limit. -/
def isSmall (cfg : Config) (t : Trial) : Bool :=
  t.isSingleLine && t.candidate.column < cfg.smallColumnLimit

/-- No line was ended, and the trial ended fewer than `shortName` columns after its start. -/
def isShort (cfg : Config) (t : Trial) : Bool :=
  t.isSingleLine &&
    t.candidate.column < min (t.start.effectiveColumn + cfg.shortName) maxWidth

/-- The column at which each line of the trial ends; the first line goes on from what
already stood on it. -/
def lineEnds (t : Trial) : List Nat :=
  match Text.splitLines t.candidate.output.toList with
  | [] => []
  | first :: rest => (t.start.lineWidth + first.length) :: rest.map List.length

end Trial

/-- The questions that can be asked of a trial. -/
inductive Measure where
  | singleLine
  | overflow
  | overflowMax
  | small
  | short
deriving DecidableEq, Repr

namespace Measure

/-- The answer of a trial to a question. -/
def of (cfg : Config) (t : Trial) : Measure → Bool
  | singleLine => t.isSingleLine
  | overflow => t.overflows cfg
  | overflowMax => t.overflowsMax cfg
  | small => t.isSmall cfg
  | short => t.isShort cfg

end Measure

end TrialLayout
