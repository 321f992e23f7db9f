import TrialLayout.Printer.Trial

/-!
# Layouts

A layout says how something is to be written, without fixing where its lines end: it
may contain trials, and which of two renderings comes out depends on the position at
which it is run and on the thresholds. `Layout.run` is its meaning, a function on
printers.

* `text`, `newline` and `seq` write.
* `shift`, `step` and `depend` choose the indentation base of a part.
* `attempt` measures a rendering and falls back to another one.
* `byHead` writes a head and goes on according to its length.
* `hang` and `resume` fix the base of a part to a column reached earlier.
-/

namespace TrialLayout

/-- When a trial rendering is kept. -/
inductive Fit where
  /-- One line, ending within the column limit. -/
  | line
  /-- Ending within the column limit, on whatever line. -/
  | within
  /-- One line, ending before the small column limit. -/
  | small
  /-- Exactly so many lines, each ending within the tolerant limit. -/
  | stack (lines : Nat)
deriving DecidableEq, Repr

namespace Fit

/-- Whether a trial is kept. -/
def accepts (cfg : Config) (t : Trial) : Fit → Bool
  | line => t.isSingleLine && !t.overflows cfg
  | within => !t.overflows cfg
  | small => t.isSmall cfg
  | stack lines =>
      t.candidate.line + 1 == t.start.line + lines &&
        t.lineEnds.all fun column => column ≤ cfg.tolerantLimit

end Fit

/-- A way of writing something, with its alternatives. -/
inductive Layout where
  /-- A text, whose newline characters end lines. -/
  | text (content : String)
  /-- The end of a line. -/
  | newline
  /-- One part after another. -/
  | seq (first second : Layout)
  /-- A part under a base moved by `delta`. -/
  | shift (delta : Int) (body : Layout)
  /-- A part under a base moved by one indentation step. -/
  | step (body : Layout)
  /-- A part, and `right` under the column that it ends at. -/
  | depend (left right : Layout)
  /-- The rendering `trial` if it fits, else `fallback`. -/
  | attempt (fit : Fit) (trial fallback : Layout)
  /-- A head, followed by `short` if it is short, else by `long`. -/
  | byHead (head short long : Layout)
  /-- A space, and a part under the column after that space. -/
  | hang (body : Layout)
  /-- A part, and `rest` under a base one step past the column at which that part starts. -/
  | resume (first rest : Layout)
deriving DecidableEq, Repr

namespace Layout

instance : Append Layout := ⟨seq⟩

/-- The layout that writes nothing. -/
def empty : Layout := text ""

/-- A single space. -/
def space : Layout := text " "

/-- Runs a layout under the given thresholds. -/
def run (cfg : Config) : Layout → Printer → Printer
  | text content, p => p.write content
  | newline, p => p.newline
  | seq first second, p => run cfg second (run cfg first p)
  | shift delta body, p => p.indented delta (run cfg body)
  | step body, p => p.withIndentAt (cfg.stepFrom p.indent) (run cfg body)
  | depend left right, p => p.depend (run cfg left) (run cfg right)
  | attempt fit trial fallback, p =>
      let t := p.trial (run cfg trial)
      if fit.accepts cfg t then p.commit t.candidate else run cfg fallback p
  | byHead head short long, p =>
      let t := p.trial (run cfg head)
      let rest := if t.isShort cfg then run cfg short else run cfg long
      rest (p.commit t.candidate)
  | hang body, p =>
      let column := p.column + 1
      p.space.withIndentAt column (run cfg body)
  | resume first rest, p =>
      let column := cfg.stepFrom p.effectiveColumn
      (run cfg first p).withIndentAt column (run cfg rest)

/-- The finished text of a layout that is run on a fresh printer. -/
def render (cfg : Config) (layout : Layout) : String := (layout.run cfg .start).finish

end Layout

end TrialLayout
