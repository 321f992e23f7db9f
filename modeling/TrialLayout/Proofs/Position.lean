import TrialLayout.Proofs.Advance
import Mathlib.Data.List.DropRight

/-!
# The position and the text

Line, column and line start are counted apart from the text, by each operation in its own way,
and every layout decision is measured by them. This module shows that they always say what the
text says, in every state that a script passes through: after each operation, inside the scopes,
inside sandboxes at any depth, and in the middle of a layout.

A sandbox starts with an empty buffer. What its printer counts belongs to the text of the
printers around it followed by its own, so a state is a printer together with the text in front
of it (`Nested`).

* `Script.trace`, `Layout.trace`: the states that are passed through.
* `Nested.Tracks`: line, column and line start are those of the text. Emitting one character
  keeps this (`Tracks.emitChar`), and so does every operation, because each of them emits
  (`Tracks.write`), moves the base, or moves text between a printer and its sandbox
  (`Tracks.enter`, `Tracks.commit`).

Result: `position_matches_text`.
-/

namespace TrialLayout

/-! ## Definitions -/

/-- The characters after the last newline. -/
def Text.lastLine (text : List Char) : List Char := text.rtakeWhile (· != '\n')

/-- A printer inside any number of sandboxes, with the outputs of the printers around it. -/
structure Nested where
  above : String
  printer : Printer
deriving DecidableEq, Repr

namespace Nested

/-- All text up to the position, that of the printers around included. -/
def text (s : Nested) : List Char := s.above.toList ++ s.printer.output.toList

/-- The same surroundings after an operation of the printer. -/
def after (s : Nested) (body : Printer → Printer) : Nested := ⟨s.above, body s.printer⟩

/-- The state in which a sandbox starts. -/
def enter (s : Nested) : Nested := ⟨s.above ++ s.printer.output, s.printer.snapshot⟩

/-- A fresh printer, on a line on which `began` characters already stand if that is given. -/
def opening (began : Option Nat) : Nested :=
  ⟨"", match began with
    | none => .start
    | some column => Printer.start.withStartingColumn column⟩

/-- Line, column and line start are those of the text, which goes on from a line on which `began`
characters already stood if that is given. -/
structure Tracks (began : Option Nat) (s : Nested) : Prop where
  line : s.printer.line = s.text.count '\n'
  column : s.printer.column =
    (Text.lastLine s.text).length + if '\n' ∈ s.text then 0 else began.getD 0
  atLineStart : s.printer.atLineStart = true ↔
    s.text.getLast? = some '\n' ∨ s.text = [] ∧ began = none

end Nested

open Nested

/-- The states through which a layout passes, the first and the last included. -/
def Layout.trace (cfg : Config) : Layout → Nested → List Nested
  | text content, s => [s, s.after (·.write content)]
  | newline, s => [s, s.after (·.newline)]
  | seq first second, s => trace cfg first s ++ trace cfg second (s.after (first.run cfg))
  | shift delta body, s =>
      s :: trace cfg body (s.after fun p => p.setIndent (Printer.shifted p.indent delta)) ++
        [s.after ((shift delta body).run cfg)]
  | step body, s =>
      s :: trace cfg body (s.after fun p => p.setIndent (cfg.stepFrom p.indent)) ++
        [s.after ((step body).run cfg)]
  | depend left right, s =>
      trace cfg left s ++
        trace cfg right (s.after fun p => p.dependBase (left.run cfg p)) ++
        [s.after ((depend left right).run cfg)]
  | attempt fit trial fallback, s =>
      s :: trace cfg trial s.enter ++
        if fit.accepts cfg (s.printer.trial (trial.run cfg)) then
          [s.after fun p => p.commit (p.trial (trial.run cfg)).candidate]
        else trace cfg fallback s
  | byHead head short long, s =>
      let settled := s.after fun p => p.commit (p.trial (head.run cfg)).candidate
      s :: trace cfg head s.enter ++
        if (s.printer.trial (head.run cfg)).isShort cfg then trace cfg short settled
        else trace cfg long settled
  | hang body, s =>
      s :: s.after (·.space) ::
        trace cfg body (s.after fun p => p.space.setIndent (p.column + 1)) ++
        [s.after ((hang body).run cfg)]
  | resume first rest, s =>
      trace cfg first s ++
        trace cfg rest (s.after fun p =>
          (first.run cfg p).setIndent (cfg.stepFrom p.effectiveColumn)) ++
        [s.after ((resume first rest).run cfg)]

/-- The states through which a script passes, the first and the last included. A trial that is
only measured is passed through like any other. -/
def Script.trace (cfg : Config) : Script → Nested → List Nested
  | done, s => [s]
  | write content rest, s => s :: trace cfg rest (s.after (·.write content))
  | space rest, s => s :: trace cfg rest (s.after (·.space))
  | newline rest, s => s :: trace cfg rest (s.after (·.newline))
  | setIndent indent rest, s => s :: trace cfg rest (s.after (·.setIndent indent))
  | withIndentAt column body rest, s =>
      s :: trace cfg body (s.after (·.setIndent column)) ++
        trace cfg rest (s.after (·.withIndentAt column (body.run cfg)))
  | indented delta body rest, s =>
      s :: trace cfg body (s.after fun p => p.setIndent (Printer.shifted p.indent delta)) ++
        trace cfg rest (s.after (·.indented delta (body.run cfg)))
  | depend left right rest, s =>
      trace cfg left s ++ trace cfg right (s.after fun p => p.dependBase (left.run cfg p)) ++
        trace cfg rest (s.after (·.depend (left.run cfg) (right.run cfg)))
  | sandbox keep body rest, s | trial keep body rest, s =>
      s :: trace cfg body s.enter ++
        trace cfg rest (s.after fun p => p.settleTrial keep (p.trial (body.run cfg)).candidate)
  | measure _ body rest, s => trace cfg body s.enter ++ trace cfg rest s
  | render layout rest, s => layout.trace cfg s ++ trace cfg rest (s.after (layout.run cfg))

/-! ## One operation -/

namespace Nested.Tracks

variable {began : Option Nat} {s : Nested} (tracks : s.Tracks began)
include tracks

theorem consistent : s.printer.Consistent := by
  intro start
  rw [tracks.column]
  rcases tracks.atLineStart.mp start with ends | ⟨empty, rfl⟩
  · obtain ⟨rest, shape⟩ := List.getLast?_eq_some_iff.mp ends
    simp [shape, Text.lastLine]
  · simp [empty, Text.lastLine]

/-- Only the output and the position are tracked. -/
theorem setIndent (indent : Nat) : (s.after (·.setIndent indent)).Tracks began :=
  ⟨tracks.line, tracks.column, tracks.atLineStart⟩

/-- The step of the whole argument: one character more in the text. -/
theorem emitChar (c : Char) : (s.after (·.emitChar c)).Tracks began := by
  have text : (s.after (·.emitChar c)).text = s.text ++ [c] := by
    simp [Nested.text, after]
  by_cases hc : c = '\n'
  · subst hc
    refine ⟨?_, ?_, ?_⟩
    · rw [text, List.count_append, ← tracks.line]
      rfl
    · rw [text]
      simp [after, Printer.emitChar, Printer.newline, Text.lastLine]
    · rw [text]
      simp [after, Printer.emitChar, Printer.newline]
  · refine ⟨?_, ?_, ?_⟩
    · rw [text, List.count_append, ← tracks.line]
      simp [after, Printer.emitChar, Printer.push, hc]
    · rw [text]
      simp [after, Printer.emitChar, Printer.push, hc, Text.lastLine, tracks.column, Ne.symm hc,
        Nat.add_right_comm]
    · rw [text]
      simp [after, Printer.emitChar, hc]

theorem emit (text : List Char) : (s.after (·.emit text)).Tracks began := by
  induction text generalizing s with
  | nil => exact tracks
  | cons c rest ih => exact ih (tracks.emitChar c)

theorem write (content : String) : (s.after (·.write content)).Tracks began := by
  obtain ⟨text, emitted⟩ := Printer.write_emits tracks.consistent content
  have same : s.after (·.write content) = s.after (·.emit text) := by
    simp only [after, emitted]
  rw [same]
  exact tracks.emit text

theorem newline : (s.after (·.newline)).Tracks began := tracks.emitChar '\n'

/-- The text of a printer stands in front of its sandbox. -/
theorem enter : s.enter.Tracks began := by
  have text : s.enter.text = s.text := by
    simp [Nested.text, Nested.enter, Printer.snapshot]
  exact ⟨text ▸ tracks.line, text ▸ tracks.column, text ▸ tracks.atLineStart⟩

omit tracks

/-- A scope changes the base alone. -/
theorem withIndentAt {column : Nat} {body : Printer → Printer}
    (inner : ((s.after (·.setIndent column)).after body).Tracks began) :
    (s.after (·.withIndentAt column body)).Tracks began :=
  inner.setIndent s.printer.indent

theorem dependBase {left : Printer → Printer} (reached : (s.after left).Tracks began) :
    (s.after fun p => p.dependBase (left p)).Tracks began := by
  obtain ⟨base, based⟩ := Layout.dependBase_eq_setIndent s.printer (left s.printer)
  have same : (s.after fun p => p.dependBase (left p)) =
      (s.after left).after (·.setIndent base) := by
    simp only [after, based]
  rw [same]
  exact reached.setIndent base

theorem depend {left right : Printer → Printer}
    (inner : ((s.after fun p => p.dependBase (left p)).after right).Tracks began) :
    (s.after (·.depend left right)).Tracks began := by
  simp only [after, Printer.dependBase, Printer.depend] at inner ⊢
  split at inner
  next still =>
    rw [if_pos still]
    exact inner
  next moved =>
    rw [if_neg moved]
    exact inner.setIndent _

/-- The text of a candidate that is committed goes behind that of the printer. -/
theorem commit {body : Printer → Printer} (inner : (s.enter.after body).Tracks began) :
    (s.after fun p => p.commit (p.trial body).candidate).Tracks began := by
  have text : (s.after fun p => p.commit (p.trial body).candidate).text =
      (s.enter.after body).text := by
    simp [Nested.text, Nested.enter, after, Printer.commit, Printer.trial]
  exact ⟨text ▸ inner.line, text ▸ inner.column, text ▸ inner.atLineStart⟩

theorem settleTrial {body : Printer → Printer} (tracks : s.Tracks began)
    (inner : (s.enter.after body).Tracks began) (keep : Bool) :
    (s.after fun p => p.settleTrial keep (p.trial body).candidate).Tracks began := by
  cases keep with
  | false => exact tracks
  | true => exact commit inner

end Nested.Tracks

theorem Nested.opening_tracks (began : Option Nat) : (opening began).Tracks began := by
  cases began with
  | none => exact ⟨rfl, rfl, by simp [opening, text, Printer.start]⟩
  | some column =>
    refine ⟨rfl, ?_, ?_⟩ <;>
      simp [opening, text, Printer.start, Printer.withStartingColumn, Text.lastLine]

/-! ## Whole runs -/

namespace Layout

/-- The last state is what the layout leads to. -/
theorem run_mem_trace (cfg : Config) (l : Layout) (s : Nested) :
    s.after (l.run cfg) ∈ l.trace cfg s := by
  induction l generalizing s with
  | text content | newline => exact List.mem_cons_of_mem _ List.mem_cons_self
  | seq first second _ ihs =>
    exact List.mem_append_right _ (ihs (s.after (first.run cfg)))
  | shift delta body | step body | hang body | depend left right | resume first rest =>
    exact List.mem_append_right _ List.mem_cons_self
  | attempt fit trial fallback _ ihf =>
    refine List.mem_append_right _ ?_
    simp only [run, after]
    split
    · exact List.mem_cons_self
    · exact ihf s
  | byHead head short long _ ihs ihl =>
    refine List.mem_append_right _ ?_
    simp only [run, after]
    split
    · exact ihs _
    · exact ihl _

theorem trace_tracks {began : Option Nat} (cfg : Config) (l : Layout) {s : Nested}
    (tracks : s.Tracks began) : ∀ t ∈ l.trace cfg s, t.Tracks began := by
  induction l generalizing s with
  | text content =>
    simp only [trace, List.forall_mem_cons]
    exact ⟨tracks, tracks.write content, by simp⟩
  | newline =>
    simp only [trace, List.forall_mem_cons]
    exact ⟨tracks, tracks.newline, by simp⟩
  | seq first second ihf ihs =>
    have reached := ihf tracks _ (first.run_mem_trace cfg s)
    exact List.forall_mem_append.mpr ⟨ihf tracks, ihs reached⟩
  | shift delta body ih =>
    have inner := ih (tracks.setIndent (Printer.shifted s.printer.indent delta))
    simp only [trace, List.cons_append, List.forall_mem_cons, List.forall_mem_append]
    exact ⟨tracks, inner, .withIndentAt (inner _ (body.run_mem_trace cfg _)), by simp⟩
  | step body ih =>
    have inner := ih (tracks.setIndent (cfg.stepFrom s.printer.indent))
    simp only [trace, List.cons_append, List.forall_mem_cons, List.forall_mem_append]
    exact ⟨tracks, inner, .withIndentAt (inner _ (body.run_mem_trace cfg _)), by simp⟩
  | depend left right ihl ihr =>
    have reached := ihl tracks _ (left.run_mem_trace cfg s)
    have inner := ihr reached.dependBase
    simp only [trace, List.forall_mem_cons, List.forall_mem_append]
    exact ⟨⟨ihl tracks, inner⟩, .depend (inner _ (right.run_mem_trace cfg _)), by simp⟩
  | attempt fit trial fallback iht ihf =>
    have inner := iht tracks.enter
    simp only [trace, List.cons_append, List.forall_mem_cons, List.forall_mem_append]
    refine ⟨tracks, inner, ?_⟩
    split
    · exact List.forall_mem_singleton.mpr (.commit (inner _ (trial.run_mem_trace cfg _)))
    · exact ihf tracks
  | byHead head short long ihh ihs ihl =>
    have inner := ihh tracks.enter
    have settled := Tracks.commit (inner _ (head.run_mem_trace cfg _))
    simp only [trace, List.cons_append, List.forall_mem_cons, List.forall_mem_append]
    refine ⟨tracks, inner, ?_⟩
    split
    · exact ihs settled
    · exact ihl settled
  | hang body ih =>
    have spaced : (s.after (·.space)).Tracks began := tracks.write " "
    have inner := ih (spaced.setIndent (s.printer.column + 1))
    simp only [trace, List.cons_append, List.forall_mem_cons, List.forall_mem_append]
    exact ⟨tracks, spaced, inner, .withIndentAt (inner _ (body.run_mem_trace cfg _)), by simp⟩
  | resume first rest ihf ihr =>
    have reached := ihf tracks _ (first.run_mem_trace cfg s)
    have inner := ihr (reached.setIndent (cfg.stepFrom s.printer.effectiveColumn))
    simp only [trace, List.forall_mem_cons, List.forall_mem_append]
    exact ⟨⟨ihf tracks, inner⟩, .withIndentAt (inner _ (rest.run_mem_trace cfg _)), by simp⟩

end Layout

namespace Script

/-- The last state is what the script leads to. -/
theorem run_mem_trace (cfg : Config) (script : Script) (s : Nested) :
    s.after (script.run cfg) ∈ script.trace cfg s := by
  induction script generalizing s with
  | done => exact List.mem_cons_self
  | write content rest ih | space rest ih | newline rest ih | setIndent indent rest ih =>
    exact List.mem_cons_of_mem _ (ih _)
  | withIndentAt column body rest _ ih | indented delta body rest _ ih
  | sandbox keep body rest _ ih | trial keep body rest _ ih | measure question body rest _ ih
  | render layout rest ih => exact List.mem_append_right _ (ih _)
  | depend left right rest _ _ ih => exact List.mem_append_right _ (ih _)

theorem trace_tracks {began : Option Nat} (cfg : Config) (script : Script) {s : Nested}
    (tracks : s.Tracks began) : ∀ t ∈ script.trace cfg s, t.Tracks began := by
  induction script generalizing s with
  | done => exact List.forall_mem_singleton.mpr tracks
  | write content rest ih =>
    exact List.forall_mem_cons.mpr ⟨tracks, ih (tracks.write content)⟩
  | space rest ih => exact List.forall_mem_cons.mpr ⟨tracks, ih (tracks.write " ")⟩
  | newline rest ih => exact List.forall_mem_cons.mpr ⟨tracks, ih tracks.newline⟩
  | setIndent indent rest ih =>
    exact List.forall_mem_cons.mpr ⟨tracks, ih (tracks.setIndent indent)⟩
  | withIndentAt column body rest ihb ih =>
    have inner := ihb (tracks.setIndent column)
    have left := Tracks.withIndentAt (inner _ (body.run_mem_trace cfg _))
    simp only [trace, List.cons_append, List.forall_mem_cons, List.forall_mem_append]
    exact ⟨tracks, inner, ih left⟩
  | indented delta body rest ihb ih =>
    have inner := ihb (tracks.setIndent (Printer.shifted s.printer.indent delta))
    have left := Tracks.withIndentAt (inner _ (body.run_mem_trace cfg _))
    simp only [trace, List.cons_append, List.forall_mem_cons, List.forall_mem_append]
    exact ⟨tracks, inner, ih left⟩
  | depend left right rest ihl ihr ih =>
    have reached := ihl tracks _ (left.run_mem_trace cfg s)
    have inner := ihr reached.dependBase
    simp only [trace, List.forall_mem_append]
    exact ⟨⟨ihl tracks, inner⟩, ih (.depend (inner _ (right.run_mem_trace cfg _)))⟩
  | sandbox keep body rest ihb ih | trial keep body rest ihb ih =>
    have inner := ihb tracks.enter
    have settled := tracks.settleTrial (inner _ (body.run_mem_trace cfg _)) keep
    simp only [trace, List.cons_append, List.forall_mem_cons, List.forall_mem_append]
    exact ⟨tracks, inner, ih settled⟩
  | measure question body rest ihb ih =>
    exact List.forall_mem_append.mpr ⟨ihb tracks.enter, ih tracks⟩
  | render layout rest ih =>
    have inner := layout.trace_tracks cfg tracks
    exact List.forall_mem_append.mpr ⟨inner, ih (inner _ (layout.run_mem_trace cfg s))⟩

end Script

/-- In every state that a script passes through, from a fresh printer or from one that continues
a line, the line is the number of newlines in the text; the column is the number of characters
after the last newline, or after the characters that stood there before; and the printer is at
the start of a line exactly if the text ends in a newline, or is empty and continues no line, and
then its column is `0`. The last of these states is the one that the script leads to. -/
theorem position_matches_text (cfg : Config) (began : Option Nat) (script : Script) :
    (opening began).after (script.run cfg) ∈ script.trace cfg (opening began) ∧
    ∀ s ∈ script.trace cfg (opening began),
      s.printer.line = s.text.count '\n' ∧
      s.printer.column =
        (Text.lastLine s.text).length + (if '\n' ∈ s.text then 0 else began.getD 0) ∧
      (s.printer.atLineStart = true ↔
        s.text.getLast? = some '\n' ∨ s.text = [] ∧ began = none) ∧
      (s.printer.atLineStart = true → s.printer.column = 0) := by
  refine ⟨script.run_mem_trace cfg (opening began), fun s mem => ?_⟩
  have tracks := script.trace_tracks cfg (opening_tracks began) s mem
  exact ⟨tracks.line, tracks.column, tracks.atLineStart, tracks.consistent⟩

/-- Inside a sandbox, on a line that goes on from four characters: the printer has written
`d` alone and counts the three characters of `bcd`. -/
theorem position_matches_text_sandbox :
    let body : Script := .write "d" .done
    let script : Script := .write "a" (.newline (.write "bc" (.sandbox false body .done)))
    let s : Nested := ⟨"a\nbc", ⟨"d", 1, 3, 0, false⟩⟩
    s ∈ script.trace {} (opening (some 4)) ∧
    s.printer.line = s.text.count '\n' ∧
    s.printer.column =
      (Text.lastLine s.text).length + (if '\n' ∈ s.text then 0 else (some 4).getD 0) ∧
    (s.printer.atLineStart = true ↔
      s.text.getLast? = some '\n' ∨ s.text = [] ∧ some 4 = none) ∧
    (s.printer.atLineStart = true → s.printer.column = 0) := by
  intro body script s
  have mem : s ∈ script.trace {} (opening (some 4)) := by decide +kernel
  exact ⟨mem, (position_matches_text {} (some 4) script).2 s mem⟩

end TrialLayout
