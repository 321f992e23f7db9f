import TrialLayout.Format
import TrialLayout.Proofs.Offside

/-!
# The offside rule for declarations and alternatives

Patterns are written like expressions, but only some shapes are patterns: variables,
constructors, literals, wildcards, tuples, lists, applications and parentheses
(`Expr.isPattern`). A parameter stands behind the name of its function, so every pattern hangs
there. What a declaration or an alternative begins with stands at the base, where a tuple or a
list would put its commas, so such a pattern has to be in parentheses (`Expr.isBinder`).

For declarations and alternatives over these patterns, with any expressions as bodies and
guards, every line but the first starts past the column of the block. In a module that column
is zero: a line of the final text that starts at the margin and is not blank is the first line
of a declaration.

All this is said of runs in which no sum passes the largest width (`Layout.InRange`). Under valid
thresholds a step can start over behind it, and then it does not hold
(`guarded_branch_starts_over`).
-/

namespace TrialLayout

open Printer Text

/-! ## Definitions -/

mutual

/-- An expression that is a pattern. -/
def Expr.isPattern : Expr → Bool
  | .var _ | .con _ | .int _ | .frac _ | .char _ | .string _ | .wildcard => true
  | .app func arg => func.isPattern && arg.isPattern
  | .tuple _ items => Expr.arePatterns items
  | .list items => Expr.arePatterns items
  | .paren inner => inner.isPattern
  | _ => false

/-- Expressions that are patterns. -/
def Expr.arePatterns : List Expr → Bool
  | [] => true
  | e :: rest => e.isPattern && Expr.arePatterns rest

end

/-- A pattern that a declaration or an alternative may begin with: a reference, a literal, a
wildcard, a pattern in parentheses, or a reference applied to such patterns. -/
def Expr.isBinder : Expr → Bool
  | .var _ | .con _ | .int _ | .frac _ | .char _ | .string _ | .wildcard => true
  | .app func arg => func.head.isReference && func.isBinder && arg.isBinder
  | .paren inner => inner.isPattern
  | _ => false

/-- A declaration over patterns. -/
def Decl.isPatterned : Decl → Bool
  | .signature .. => true
  | .function _ params _ => params.all Expr.isPattern
  | .pattern bound _ => bound.isBinder

/-- An alternative over patterns. -/
def Alt.isPatterned : Alt → Bool
  | .mk pattern _ => pattern.isBinder

namespace Module

/-- The lines on which the declarations that follow `previous` start. -/
def firstLinesAfter (cfg : Config) (p : Printer) (previous : Decl) : List Decl → List Nat
  | [] => []
  | d :: rest =>
      let q := (gap previous).run cfg p
      q.line :: firstLinesAfter cfg (d.layout.run cfg q) d rest

/-- The lines on which the declarations of a module start. -/
def firstLines (cfg : Config) : Module → List Nat
  | [] => []
  | d :: rest => Printer.start.line :: firstLinesAfter cfg (d.layout.run cfg .start) d rest

end Module

/-! ## Patterns hang -/

theorem Expr.hangs_of_isPattern : (e : Expr) → e.isPattern = true → e.hangs false = true
  | .var _, _ | .con _, _ | .int _, _ | .frac _, _ | .char _, _ | .string _, _ | .wildcard, _
  | .paren _, _ | .list _, _ => rfl
  | .tuple boxity _, _ => by cases boxity <;> rfl
  | .app func arg, h => by
      have parts : func.isPattern = true ∧ arg.isPattern = true := by
        simpa [Expr.isPattern] using h
      exact func.hangs_of_isPattern parts.1

theorem Expr.hangs_of_isBinder : (e : Expr) → e.isBinder = true → e.hangs true = true
  | .var _, _ | .con _, _ | .int _, _ | .frac _, _ | .char _, _ | .string _, _ | .wildcard, _
  | .paren _, _ => rfl
  | .app func arg, h => by
      have parts : (func.head.isReference = true ∧ func.isBinder = true) ∧ arg.isBinder = true := by
        simpa [Expr.isBinder] using h
      exact func.hangs_of_isBinder parts.1.2

theorem Decl.hangs_of_isPatterned {d : Decl} (h : d.isPatterned = true) : d.hangs = true := by
  cases d with
  | signature names type => rfl
  | function name params rhs =>
    rw [isPatterned, List.all_eq_true] at h
    rw [hangs, List.all_eq_true]
    exact fun e mem => e.hangs_of_isPattern (h e mem)
  | pattern bound rhs => exact bound.hangs_of_isBinder h

theorem Alt.hangs_of_isPatterned {a : Alt} (h : a.isPatterned = true) : a.hangs = true := by
  cases a with
  | mk pattern rhs => exact pattern.hangs_of_isBinder h

/-! ## One declaration -/

section

variable {cfg : Config} (valid : cfg.Valid) {p : Printer} (consistent : p.Consistent)
  (aligned : p.effectiveColumn = p.indent)

include valid consistent aligned

theorem Decl.rendering_offside {d : Decl} (names : d.EveryName Plain) (h : d.isPatterned = true)
    (range : d.layout.InRange cfg p) :
    ContinuesFrom (p.indent + 1) (d.layout.rendering cfg p.indent) :=
  Layout.Hangs.rendering valid consistent aligned (Decl.layout_opens_plain names)
    range (d.layout_hangs names (.inr ⟨Decl.hangs_of_isPatterned h, Nat.le_refl _, Nat.le_refl _⟩))

theorem Alt.rendering_offside {a : Alt} (names : a.EveryName Plain) (h : a.isPatterned = true)
    (range : a.layout.InRange cfg p) :
    ContinuesFrom (p.indent + 1) (a.layout.rendering cfg p.indent) :=
  Layout.Hangs.rendering valid consistent aligned (Alt.layout_opens_plain names)
    range (a.layout_hangs names (.inr ⟨Alt.hangs_of_isPatterned h, Nat.le_refl _, Nat.le_refl _⟩))

end

/-! ## Modules -/

namespace Module

/-- A line that is not blank and starts at the margin. -/
def AtMargin (line : List Char) : Prop := line ≠ [] ∧ leadingSpaces line = 0

theorem atMargin_append {line : List Char} (h : AtMargin line) (more : List Char) :
    AtMargin (line ++ more) := by
  obtain ⟨nonempty, margin⟩ := h
  cases line with
  | nil => exact absurd rfl nonempty
  | cons c rest =>
    refine ⟨by simp, ?_⟩
    by_cases hc : c = ' '
    · simp [leadingSpaces, hc] at margin
    · simp [leadingSpaces, hc]

/-- At the margin stands the first line of a text that continues past it. -/
theorem first_of_atMargin {text line : List Char} {i : Nat} (h : ContinuesFrom 1 text)
    (found : (splitLines text)[i]? = some line) (margin : AtMargin line) : i = 0 := by
  cases i with
  | zero => rfl
  | succ n =>
    cases shape : splitLines text with
    | nil => exact absurd shape (splitLines_ne_nil text)
    | cons first rest =>
      rw [shape, List.getElem?_cons_succ] at found
      have past := h line (by rw [shape]; exact List.mem_of_getElem? found)
      rw [margin.2] at past
      omega

/-- The blank lines between two declarations. -/
def gapLines (previous : Decl) : List (List Char) := if previous.isSignature then [] else [[]]

theorem gapLines_eq_nil {previous : Decl} {line : List Char} (h : line ∈ gapLines previous) :
    line = [] := by
  unfold gapLines at h
  split at h
  · cases h
  · exact List.mem_singleton.mp h

/-- A gap ends the line and adds the blank lines. -/
theorem gap_run (previous : Decl) (cfg : Config) (p : Printer) :
    ∃ between, (gap previous).run cfg p = (p.emit between) ∧
      (p.emit between).atLineStart = true ∧
      between.count '\n' = (gapLines previous).length + 1 ∧
      ∀ a b, splitLines (a ++ between ++ b) =
        splitLines a ++ gapLines previous ++ splitLines b := by
  unfold gap gapLines
  split
  · refine ⟨['\n'], rfl, rfl, rfl, fun a b => ?_⟩
    rw [List.append_assoc, List.singleton_append, splitLines_append_newline, List.append_nil]
  · refine ⟨['\n', '\n'], rfl, rfl, rfl, fun a b => ?_⟩
    rw [List.append_assoc, List.cons_append, List.singleton_append, splitLines_append_newline,
      splitLines_newline, List.append_assoc, List.singleton_append]

/-- What a declaration at the margin adds to the text. -/
theorem run_at_margin (cfg : Config) {d : Decl} (names : d.EveryName Plain) {p : Printer}
    (consistent : p.Consistent) (column : p.effectiveColumn = 0) (base : p.indent = 0) :
    d.layout.run cfg p = p.emit (d.layout.rendering cfg 0) := by
  obtain ⟨text, emitted⟩ := d.layout.run_emits cfg consistent
  have output := (Decl.layout_opens_plain names).output_eq cfg consistent (column.trans base.symm)
  have nothing : p.pending = [] := by simp [pending, base]
  rw [emitted, emit_output, nothing, base, List.append_nil] at output
  rw [emitted, List.append_cancel_left output]

/-- From a declaration at the margin on, only first lines of declarations start there. -/
theorem layoutAfter_margin {cfg : Config} (valid : cfg.Valid) (rest : List Decl) {d : Decl}
    {p : Printer} (consistent : p.Consistent) (column : p.effectiveColumn = 0)
    (base : p.indent = 0) (names : ∀ other ∈ d :: rest, other.EveryName Plain)
    (patterned : ∀ other ∈ d :: rest, other.isPatterned = true)
    (range : (d.layout ++ layoutAfter d rest).InRange cfg p) :
    ∃ text, ((layoutAfter d rest).run cfg (d.layout.run cfg p)).output.toList =
        p.output.toList ++ text ∧
      ∀ i line, (splitLines text)[i]? = some line → AtMargin line →
        p.line + i ∈ p.line :: firstLinesAfter cfg (d.layout.run cfg p) d rest := by
  have past {d : Decl} {p : Printer} (consistent : p.Consistent)
      (column : p.effectiveColumn = 0) (base : p.indent = 0) (names : d.EveryName Plain)
      (patterned : d.isPatterned = true) (range : d.layout.InRange cfg p) :
      ContinuesFrom 1 (d.layout.rendering cfg 0) := by
    have offside := Decl.rendering_offside valid consistent (column.trans base.symm) names
      patterned range
    rwa [base] at offside
  induction rest generalizing d p with
  | nil =>
    have offside := past consistent column base (names d List.mem_cons_self)
      (patterned d List.mem_cons_self) range.1
    rw [run_at_margin cfg (names d List.mem_cons_self) consistent column base]
    refine ⟨d.layout.rendering cfg 0, emit_output .., fun i line found margin => ?_⟩
    rw [first_of_atMargin offside found margin]
    exact List.mem_cons_self
  | cons next rest ih =>
    obtain ⟨range, ⟨-, rangeNext⟩, rangeAfter⟩ := range
    have offside := past consistent column base (names d List.mem_cons_self)
      (patterned d List.mem_cons_self) range
    have first := run_at_margin cfg (names d List.mem_cons_self) consistent column base
    obtain ⟨between, gapped, lineStart, newlines, separate⟩ := gap_run d cfg (d.layout.run cfg p)
    rw [first] at gapped lineStart
    generalize hq : (p.emit (d.layout.rendering cfg 0)).emit between = q at gapped lineStart
    have lines : q.line = p.line +
        (splitLines (d.layout.rendering cfg 0) ++ gapLines d).length := by
      rw [← hq, emit_line, emit_line, newlines, List.length_append, length_splitLines]
      omega
    have base' : q.indent = 0 := by rw [← hq, emit_indent, emit_indent, base]
    have column' : q.effectiveColumn = 0 := by rw [effectiveColumn, if_pos lineStart, base']
    have reached : (gap d).run cfg (d.layout.run cfg p) = q := by rw [first, gapped]
    obtain ⟨text, output, margins⟩ := ih (hq ▸ (consistent.emit _).emit between) column' base'
      (fun other mem => names other (List.mem_cons_of_mem _ mem))
      (fun other mem => patterned other (List.mem_cons_of_mem _ mem))
      ⟨reached ▸ rangeNext, reached ▸ rangeAfter⟩
    have later : firstLinesAfter cfg (d.layout.run cfg p) d (next :: rest) =
        q.line :: firstLinesAfter cfg (next.layout.run cfg q) next rest := by
      rw [firstLinesAfter, first, gapped]
    refine ⟨d.layout.rendering cfg 0 ++ between ++ text, ?_, fun i line found margin => ?_⟩
    · show ((layoutAfter next rest).run cfg (next.layout.run cfg
        ((gap d).run cfg (d.layout.run cfg p)))).output.toList = _
      rw [first, gapped, output, ← hq, emit_output, emit_output, List.append_assoc,
        List.append_assoc, List.append_assoc]
    -- a line of this declaration, of the gap, or of what follows
    · rw [later]
      rw [separate] at found
      by_cases early : i < (splitLines (d.layout.rendering cfg 0) ++ gapLines d).length
      · rw [List.getElem?_append_left early] at found
        by_cases own : i < (splitLines (d.layout.rendering cfg 0)).length
        · rw [List.getElem?_append_left own] at found
          rw [first_of_atMargin offside found margin]
          exact List.mem_cons_self
        · rw [List.getElem?_append_right (Nat.le_of_not_lt own)] at found
          exact absurd (gapLines_eq_nil (List.mem_of_getElem? found)) margin.1
      · rw [List.getElem?_append_right (Nat.le_of_not_lt early)] at found
        have number : p.line + i =
            q.line + (i - (splitLines (d.layout.rendering cfg 0) ++ gapLines d).length) := by
          omega
        rw [number]
        exact List.mem_cons_of_mem _ (margins _ line found margin)

/-- A line of the final text that is not blank starts at the margin only if a declaration
starts there. -/
theorem format_margin {cfg : Config} (valid : cfg.Valid) {m : Module}
    (names : ∀ d ∈ m, d.EveryName Plain) (patterned : ∀ d ∈ m, d.isPatterned = true)
    (range : m.layout.InRange cfg .start) {i : Nat} {line : List Char}
    (found : (splitLines (m.format cfg).toList)[i]? = some line)
    (margin : AtMargin line) : i ∈ m.firstLines cfg := by
  obtain ⟨whole, inText, trimmed⟩ := getElem?_splitLines_finalize found margin.1
  have wholeMargin : AtMargin whole := by
    obtain ⟨tail, shape, -⟩ := dropTail_append isBlank whole
    have shape : whole = line ++ tail := trimmed ▸ shape
    rw [shape]
    exact atMargin_append margin tail
  cases m with
  | nil => exact absurd (List.mem_singleton.mp (List.mem_of_getElem? inText)) wholeMargin.1
  | cons d rest =>
    obtain ⟨text, output, margins⟩ :=
      layoutAfter_margin valid rest (fun _ => rfl) (p := .start) rfl rfl names patterned range
    have shape : (layout (d :: rest)).run cfg .start =
      (layoutAfter d rest).run cfg (d.layout.run cfg .start) := rfl
    rw [shape, output] at inText
    have number : Printer.start.line + i = i := Nat.zero_add i
    rw [firstLines, ← number]
    exact margins i whole inText wholeMargin

end Module

/-! ## The offside rule -/

end TrialLayout
