import TrialLayout.Layout

/-!
# Scripts

A script is a sequence of printer operations, in which scopes, sandboxes and trials hold
scripts of their own. `Script.run` says what it does to a printer, and `Script.reports`
what can be observed of each of its operations on the way.
-/

namespace TrialLayout

/-- A sequence of printer operations; `rest` is what follows an operation. -/
inductive Script where
  | done
  | write (content : String) (rest : Script)
  | space (rest : Script)
  | newline (rest : Script)
  | setIndent (indent : Nat) (rest : Script)
  | withIndentAt (column : Nat) (body rest : Script)
  | indented (delta : Int) (body rest : Script)
  | depend (left right rest : Script)
  /-- Runs `body` on a snapshot and commits the candidate if `keep` is set. -/
  | sandbox (keep : Bool) (body rest : Script)
  /-- A sandbox whose candidate is measured as well. -/
  | trial (keep : Bool) (body rest : Script)
  /-- Asks one question of a trial, which is then dropped. -/
  | measure (question : Measure) (body rest : Script)
  /-- Runs a layout. -/
  | render (layout : Layout) (rest : Script)
deriving DecidableEq, Repr

/-- What is observed of one operation: the printer after it, and what it returned. -/
inductive Report where
  | plain (after : Printer)
  | setIndent (previous : Nat) (after : Printer)
  | scope (body : List Report) (after : Printer)
  | depend (left right : List Report) (after : Printer)
  | sandbox (body : List Report) (candidate after : Printer)
  | trial (body : List Report) (trial : Trial) (after : Printer)
  | measure (answer : Bool) (after : Printer)
deriving Repr

/-- Makes a candidate live or drops it. -/
def Printer.settleTrial (p : Printer) (keep : Bool) (candidate : Printer) : Printer :=
  if keep then p.commit candidate else p

namespace Script

/-- What a script does to a printer. -/
def run (cfg : Config) : Script → Printer → Printer
  | done, p => p
  | write content rest, p => run cfg rest (p.write content)
  | space rest, p => run cfg rest p.space
  | newline rest, p => run cfg rest p.newline
  | setIndent indent rest, p => run cfg rest (p.setIndent indent)
  | withIndentAt column body rest, p => run cfg rest (p.withIndentAt column (run cfg body))
  | indented delta body rest, p => run cfg rest (p.indented delta (run cfg body))
  | depend left right rest, p => run cfg rest (p.depend (run cfg left) (run cfg right))
  | sandbox keep body rest, p =>
      run cfg rest (p.settleTrial keep (p.trial (run cfg body)).candidate)
  | trial keep body rest, p =>
      run cfg rest (p.settleTrial keep (p.trial (run cfg body)).candidate)
  | measure _ _ rest, p => run cfg rest p
  | render layout rest, p => run cfg rest (layout.run cfg p)

/-- What is observed of each operation of a script. -/
def reports (cfg : Config) : Script → Printer → List Report
  | done, _ => []
  | write content rest, p =>
      let after := p.write content
      .plain after :: reports cfg rest after
  | space rest, p =>
      let after := p.space
      .plain after :: reports cfg rest after
  | newline rest, p =>
      let after := p.newline
      .plain after :: reports cfg rest after
  | setIndent indent rest, p =>
      let after := p.setIndent indent
      .setIndent p.indent after :: reports cfg rest after
  | withIndentAt column body rest, p =>
      let after := p.withIndentAt column (run cfg body)
      .scope (reports cfg body (p.setIndent column)) after :: reports cfg rest after
  | indented delta body rest, p =>
      let after := p.indented delta (run cfg body)
      .scope (reports cfg body (p.setIndent (Printer.shifted p.indent delta))) after ::
        reports cfg rest after
  | depend left right rest, p =>
      let after := p.depend (run cfg left) (run cfg right)
      .depend (reports cfg left p) (reports cfg right (p.dependBase (run cfg left p))) after ::
        reports cfg rest after
  | sandbox keep body rest, p =>
      let t := p.trial (run cfg body)
      let after := p.settleTrial keep t.candidate
      .sandbox (reports cfg body p.snapshot) t.candidate after :: reports cfg rest after
  | trial keep body rest, p =>
      let t := p.trial (run cfg body)
      let after := p.settleTrial keep t.candidate
      .trial (reports cfg body p.snapshot) t after :: reports cfg rest after
  | measure question body rest, p =>
      .measure (question.of cfg (p.trial (run cfg body))) p :: reports cfg rest p
  | render layout rest, p =>
      let after := layout.run cfg p
      .plain after :: reports cfg rest after

end Script

end TrialLayout
