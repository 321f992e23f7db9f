import TrialLayout.Proofs.LineUniqueness
import TrialLayout.Proofs.TokenPreservation

/-!
# Flat expressions that fit

A flat expression is put together from leaves by a few rules, each of which tries the line
first. Its line is written down by recursion on the expression (`Expr.flatLine`), without any
layout. Where that line fits in the column limit, the expression comes out as its line: each
inner trial measures a part of the line that ends no later than the whole.

* `Layout.Writes inside l line`: wherever `line` fits, running `l` writes `line`; if `inside`,
  this is said of printers inside a line only. There another base makes no difference.
* `Expr.writes_flatLine`: flat expressions with flat parameters do so, from every printer.

Result: `flat_line_fits`. The parameters of a lambda are not looked at by `Expr.isFlat`, so they
are asked to be flat themselves, at every depth (`Expr.lambdaParams`).
-/

namespace TrialLayout

open Printer Text

/-! ## Definitions -/

mutual

/-- The lambda parameters in a flat expression, at every depth: also those in its operands, and
those in other parameters. -/
def Expr.lambdaParams : Expr → List Expr
  | .lambda params body => params ++ Expr.lambdaParamsIn params ++ body.lambdaParams
  | .app func arg => func.lambdaParams ++ arg.lambdaParams
  | .binary left _ right => left.lambdaParams ++ right.lambdaParams
  | .neg operand => operand.lambdaParams
  | .leftSection operand _ => operand.lambdaParams
  | .rightSection _ operand => operand.lambdaParams
  | .paren inner => inner.lambdaParams
  | .var _ | .con _ | .int _ | .frac _ | .char _ | .string _ | .varQuote _ | .typeQuote _
  | .wildcard | .tuple .. | .list _ | .cond .. | .caseOf .. | .block _ | .letIn .. | .record ..
  | .update .. | .annot .. => []

/-- The lambda parameters in several flat expressions. -/
def Expr.lambdaParamsIn : List Expr → List Expr
  | [] => []
  | e :: rest => e.lambdaParams ++ Expr.lambdaParamsIn rest

end

mutual

/-- The line of a flat expression. What is not flat has none. -/
def Expr.flatLine : Expr → String
  | .var name | .con name | .frac name => name
  | .int value => value.repr
  | .char value => charLiteral value
  | .string value => stringLiteral value
  | .varQuote name => "'" ++ name
  | .typeQuote name => "''" ++ name
  | .wildcard => "_"
  | .app func arg => func.flatLine ++ " " ++ arg.flatLine
  | .binary left op right => left.flatLine ++ " " ++ op.spelling ++ " " ++ right.flatLine
  | .neg operand => "-" ++ operand.flatLine
  | .leftSection operand op => "(" ++ operand.flatLine ++ " " ++ op.spelling ++ ")"
  | .rightSection op operand => "(" ++ op.spelling ++ " " ++ operand.flatLine ++ ")"
  | .lambda params body =>
      "\\" ++ " ".intercalate (Expr.flatLines params) ++ " -> " ++ body.flatLine
  | .paren inner => "(" ++ inner.flatLine ++ ")"
  | .list _ => "[]"
  | .tuple .. | .cond .. | .caseOf .. | .block _ | .letIn .. | .record .. | .update ..
  | .annot .. => ""

/-- The lines of several flat expressions. -/
def Expr.flatLines : List Expr → List String
  | [] => []
  | e :: rest => e.flatLine :: Expr.flatLines rest

end

/-- Wherever the line fits in the column limit, running the layout writes it. -/
structure Layout.Writes (inside : Bool) (l : Layout) (line : String) : Prop where
  oneLine : OneLine line
  run : ∀ cfg p, (inside = true → p.atLineStart = false) →
    p.effectiveColumn + line.length ≤ cfg.columnLimit → l.run cfg p = p.write line

/-! ## Printers -/

namespace Printer

/-- On a line the column at which the next character will stand moves by what is written. -/
theorem effectiveColumn_write (p : Printer) {line : String} (oneLine : OneLine line) :
    (p.write line).effectiveColumn = p.effectiveColumn + line.length := by
  by_cases empty : line = ""
  · subst empty
    rfl
  · rw [write_settle p empty oneLine, write_of_inLine p.settle_atLineStart oneLine,
      ← p.settle_column]
    simp [effectiveColumn]

theorem column_write (p : Printer) {line : String} (nonempty : line ≠ "")
    (oneLine : OneLine line) : (p.write line).column = p.effectiveColumn + line.length := by
  rw [← p.effectiveColumn_write oneLine, effectiveColumn, write_inLine p nonempty oneLine]
  rfl

end Printer

/-! ## Layouts -/

namespace Layout.Writes

variable {inside : Bool} {l left right : Layout} {a b line : String}

theorem mono (h : l.Writes false line) : l.Writes true line :=
  ⟨h.oneLine, fun cfg p _ => h.run cfg p nofun⟩

theorem text (oneLine : OneLine line) : (Layout.text line).Writes inside line :=
  ⟨oneLine, fun _ _ _ _ => rfl⟩

theorem space : Layout.space.Writes inside " " := text (by decide)

theorem seq (hl : left.Writes inside a) (hr : right.Writes inside b) :
    (left ++ right).Writes inside (a ++ b) := by
  refine ⟨hl.oneLine.append hr.oneLine, fun cfg p start fits => ?_⟩
  rw [String.length_append] at fits
  have first : left.run cfg p = p.write a := hl.run cfg p start (by omega)
  have start' : inside = true → (p.write a).atLineStart = false := by
    intro h
    rw [write_of_inLine (start h) hl.oneLine]
    exact start h
  have second : right.run cfg (p.write a) = (p.write a).write b :=
    hr.run cfg _ start' (by rw [p.effectiveColumn_write hl.oneLine]; omega)
  show right.run cfg (left.run cfg p) = _
  rw [first, second, write_append]

/-- Inside a line the part may be run under any base, which is put back afterwards. -/
theorem rebased (h : l.Writes true line) {cfg : Config} {p : Printer}
    (inLine : p.atLineStart = false) (fits : p.effectiveColumn + line.length ≤ cfg.columnLimit)
    (base : Nat) : (l.run cfg (p.setIndent base)).setIndent p.indent = p.write line := by
  have start : (p.setIndent base).effectiveColumn = p.effectiveColumn := by
    simp [effectiveColumn, setIndent, inLine]
  have written : l.run cfg (p.setIndent base) = (p.setIndent base).write line :=
    h.run cfg (p.setIndent base) (fun _ => inLine) (by rw [start]; exact fits)
  rw [written]
  exact write_under inLine (p.write_stays h.oneLine) base

theorem shift (delta : Int) (h : l.Writes true line) : (Layout.shift delta l).Writes true line :=
  ⟨h.oneLine, fun _ _ start fits => h.rebased (start rfl) fits _⟩

theorem depend (hl : left.Writes inside a) (nonempty : a ≠ "") (hr : right.Writes true b) :
    (Layout.depend left right).Writes inside (a ++ b) := by
  refine ⟨hl.oneLine.append hr.oneLine, fun cfg p start fits => ?_⟩
  rw [String.length_append] at fits
  have first : left.run cfg p = p.write a := hl.run cfg p start (by omega)
  have inLine : (p.write a).atLineStart = false := write_inLine p nonempty hl.oneLine
  obtain ⟨base, based⟩ := dependBase_eq_setIndent p (left.run cfg p)
  rw [run_depend, based, first, hr.rebased inLine ?_ base, write_append]
  rw [p.effectiveColumn_write hl.oneLine]
  omega

theorem hang (h : l.Writes true line) : (Layout.hang l).Writes inside (" " ++ line) := by
  refine ⟨OneLine.append (by decide) h.oneLine, fun cfg p _ fits => ?_⟩
  rw [String.length_append] at fits
  have inLine : p.space.atLineStart = false := write_inLine p (by decide) (by decide)
  have moved : p.space.effectiveColumn = p.effectiveColumn + " ".length :=
    p.effectiveColumn_write (by decide)
  calc (Layout.hang l).run cfg p
    _ = p.space.write line := h.rebased inLine (by rw [moved]; omega) (p.column + 1)
    _ = p.write (" " ++ line) := (write_append p " " line).symm

/-- A trial of the line is kept: it ends no later than the line. -/
theorem attempt {fit : Fit} (limited : fit.isLimited = true) (h : left.Writes inside line)
    (nonempty : line ≠ "") (fallback : Layout) :
    (Layout.attempt fit left fallback).Writes inside line := by
  refine ⟨h.oneLine, fun cfg p start fits => ?_⟩
  have written : left.run cfg p = p.write line := h.run cfg p start fits
  have column : (left.run cfg p).column ≤ cfg.columnLimit := by
    rw [written, p.column_write nonempty h.oneLine]
    exact fits
  have kept : fit.accepts cfg (p.trial (left.run cfg)) = true := by
    cases fit with
    | line =>
      refine (left.accepts_line_iff cfg p).mpr ⟨?_, column⟩
      rw [Stays, written]
      exact p.write_stays h.oneLine
    | within => exact (left.accepts_within_iff cfg p).mpr column
    | small | stack => cases limited
  rw [run_attempt, if_pos kept, written]

theorem byHead {head : Layout} (hh : head.Writes inside a) (hs : left.Writes inside b)
    (hl : right.Writes inside b) : (Layout.byHead head left right).Writes inside (a ++ b) := by
  refine ⟨hh.oneLine.append hs.oneLine, fun cfg p start fits => ?_⟩
  rw [run_byHead]
  split
  · exact (hh.seq hs).run cfg p start fits
  · exact (hh.seq hl).run cfg p start fits

theorem spaced {items : List Layout} {lines : List String}
    (h : List.Forall₂ (Writes inside) items lines) :
    (Layout.spaced items).Writes inside (" ".intercalate lines) := by
  induction h with
  | nil => exact text (by decide)
  | cons first rest ih =>
    cases rest with
    | nil =>
      rw [String.intercalate_singleton]
      exact first
    | cons second more =>
      rw [String.intercalate_cons_cons]
      exact (first.seq space).seq ih

/-- A layout between two texts. -/
theorem enclosed {opening closing : String} (ho : OneLine opening) (hc : OneLine closing)
    (nonempty : opening ≠ "") (h : l.Writes true line) :
    (Layout.depend (.text opening) (l ++ .text closing)).Writes inside
      (opening ++ line ++ closing) := by
  rw [String.append_assoc]
  exact (text ho).depend nonempty (h.seq (text hc))

/-- One flat argument is tried on the line of the head, whether that is short or not. -/
theorem application {head : Layout} (hh : head.Writes inside a) (h : l.Writes true line) :
    (Layout.application head [⟨l, true⟩]).Writes inside (a ++ " " ++ line) := by
  have behind (fallback : Layout) :
      (onHeadLine [l] fallback).Writes inside (" " ++ line) := by
    refine attempt rfl (hang h) ?_ fallback
    exact fun empty => absurd (String.append_eq_empty_iff.mp empty).1 (by decide)
  rw [String.append_assoc]
  exact hh.byHead (behind _) (behind _)

theorem operation {op : String} (oneLine : OneLine op) (hl : left.Writes inside a)
    (hr : right.Writes true b) (broken : Layout → Layout → Layout) :
    (Layout.operation true left op right broken).Writes inside (a ++ " " ++ op ++ " " ++ b) := by
  have front := ((hl.seq space).seq (text oneLine)).seq space
  refine attempt rfl (front.depend ?_ hr) ?_ _
  · exact fun empty => absurd (String.append_eq_empty_iff.mp empty).2 (by decide)
  · intro empty
    have blank := (String.append_eq_empty_iff.mp (String.append_eq_empty_iff.mp empty).1).2
    exact absurd blank (by decide)

end Layout.Writes

/-! ## Expressions -/

/-- A reference is a name. -/
theorem Expr.writes_reference {e : Expr} (reference : e.isReference = true)
    (names : e.EveryName OneLine) : e.layout.Writes false e.flatLine := by
  cases e with
  | var name | con name => exact .text names
  | _ => cases reference

/-- A call of one reference by another is laid out by its head and its only argument. -/
theorem Expr.writes_call {func arg : Expr} (flat : (Expr.app func arg).isFlat = true)
    (names : (Expr.app func arg).EveryName OneLine) :
    (Expr.app func arg).layout.Writes false (Expr.app func arg).flatLine := by
  obtain ⟨reference, reference'⟩ := Bool.and_eq_true_iff.mp flat
  have head := writes_reference reference names.1
  have argument := (writes_reference reference' names.2).mono
  have argFlat : arg.isFlat = true := by
    cases arg with
    | var | con => rfl
    | _ => cases reference'
  have spine : (Expr.app func arg).layout = .application func.layout [⟨arg.layout, true⟩] := by
    cases func with
    | var | con => rw [layout_app, ← argFlat]; rfl
    | _ => cases reference
  rw [spine]
  exact head.application argument

mutual

/-- A flat expression with flat parameters writes its line. -/
theorem Expr.writes_flatLine : (e : Expr) → e.isFlat = true →
    (∀ q ∈ e.lambdaParams, q.isFlat = true) → e.EveryName OneLine →
    e.layout.Writes false e.flatLine
  | .var _, _, _, names | .con _, _, _, names | .frac _, _, _, names => .text names
  | .int value, _, _, _ => .text (int_repr_oneLine value)
  | .char value, _, _, _ => .text (charLiteral_oneLine value)
  | .string value, _, _, _ => .text (stringLiteral_oneLine value)
  | .varQuote _, _, _, names | .typeQuote _, _, _, names => .text (.append (by decide) names)
  | .wildcard, _, _, _ => .text (by decide)
  | .list [], _, _, _ => .text (by decide)
  | .app _ _, flat, _, names => writes_call flat names
  | .binary left op right, flat, params, names => by
      obtain ⟨flatLeft, flatRight⟩ := Bool.and_eq_true_iff.mp flat
      have params := List.forall_mem_append.mp params
      have operation := Layout.Writes.operation (Op.spelling_spells names.2.1).1
        (left.writes_flatLine flatLeft params.1 names.1)
        (right.writes_flatLine flatRight params.2 names.2.2).mono .seq
      rw [← show (left.isFlat && right.isFlat) = true from flat] at operation
      exact operation
  | .neg operand, flat, params, names =>
      .seq (.text (by decide)) (operand.writes_flatLine flat params names)
  | .leftSection operand op, flat, params, names => by
      have inner := ((operand.writes_flatLine flat params names.1).mono.seq .space).seq
        (.text (Op.spelling_spells names.2).1)
      have line : (Expr.leftSection operand op).flatLine =
          "(" ++ (operand.flatLine ++ " " ++ op.spelling) ++ ")" := by
        simp only [flatLine, String.append_assoc]
      rw [line]
      exact .enclosed (by decide) (by decide) (by decide) inner
  | .rightSection op operand, flat, params, names => by
      have paren : (Layout.text "(").Writes false "(" := .text (by decide)
      have front := (paren.seq (.text (Op.spelling_spells names.1).1)).seq .space
      have back : (operand.layout ++ .text ")").Writes true (operand.flatLine ++ ")") :=
        (operand.writes_flatLine flat params names.2).mono.seq (.text (by decide))
      have nonempty : "(" ++ op.spelling ++ " " ≠ "" :=
        fun empty => absurd (String.append_eq_empty_iff.mp empty).2 (by decide)
      have line : (Expr.rightSection op operand).flatLine =
          "(" ++ op.spelling ++ " " ++ (operand.flatLine ++ ")") := by
        simp only [flatLine, String.append_assoc]
      rw [line]
      exact front.depend nonempty back
  | .lambda params body, flat, inner, names => by
      obtain ⟨outer, flatBody⟩ := List.forall_mem_append.mp inner
      obtain ⟨flatParams, flatInner⟩ := List.forall_mem_append.mp outer
      have bound := Layout.Writes.spaced
        (Expr.writes_flatLines params flatParams flatInner names.1)
      have shifted := (body.writes_flatLine flat flatBody names.2).mono.shift 1
      have attached : (Layout.attach " -> " body.isFlat (.shift 1 body.layout)).Writes true
          (" -> " ++ body.flatLine) := by
        rw [show body.isFlat = true from flat]
        exact (Layout.Writes.text (by decide)).depend (by decide) shifted
      have backslash : (Layout.text "\\").Writes false "\\" := .text (by decide)
      have line : (Expr.lambda params body).flatLine =
          "\\" ++ (" ".intercalate (Expr.flatLines params) ++ (" -> " ++ body.flatLine)) := by
        simp only [flatLine, String.append_assoc]
      rw [line]
      exact backslash.depend (by decide) (bound.seq attached)
  | .paren inner, flat, params, names =>
      .enclosed (by decide) (by decide) (by decide) (inner.writes_flatLine flat params names).mono

theorem Expr.writes_flatLines : (es : List Expr) → (∀ q ∈ es, q.isFlat = true) →
    (∀ q ∈ Expr.lambdaParamsIn es, q.isFlat = true) → Expr.EveryNameIn OneLine es →
    List.Forall₂ (Layout.Writes true) (Expr.layouts es) (Expr.flatLines es)
  | [], _, _, _ => .nil
  | e :: rest, flat, params, names => by
      obtain ⟨flatHead, flatRest⟩ := List.forall_mem_cons.mp flat
      obtain ⟨paramsHead, paramsRest⟩ := List.forall_mem_append.mp params
      exact .cons (e.writes_flatLine flatHead paramsHead names.1).mono
        (Expr.writes_flatLines rest flatRest paramsRest names.2)

end

/-! ## Main statement -/

/-- A flat expression whose lambda parameters are flat too, at every depth, is printed on one
line wherever that line fits in the column limit, the last column included: the pending
indentation, if there is any, and the line are appended, the column moves behind it, and the
line number and the base stay as they are. -/
theorem flat_line_fits {e : Expr} (flat : e.isFlat = true)
    (params : ∀ q ∈ e.lambdaParams, q.isFlat = true) (names : e.EveryName OneLine) (cfg : Config)
    (p : Printer) (nonempty : e.flatLine ≠ "")
    (fits : p.effectiveColumn + e.flatLine.length ≤ cfg.columnLimit) :
    (e.layout.run cfg p).output.toList = p.output.toList ++ p.pending ++ e.flatLine.toList ∧
      (e.layout.run cfg p).column = p.effectiveColumn + e.flatLine.length ∧
      (e.layout.run cfg p).line = p.line ∧ (e.layout.run cfg p).indent = p.indent ∧
      (e.layout.run cfg p).atLineStart = false := by
  have writes := e.writes_flatLine flat params names
  have oneLine := writes.oneLine
  rw [writes.run cfg p nofun fits]
  exact ⟨p.write_output nonempty oneLine, p.column_write nonempty oneLine, p.write_stays oneLine,
    (Layout.text e.flatLine).run_indent cfg p, write_inLine p nonempty oneLine⟩

/-- The function that adds its parameter to the next one, in parentheses. -/
def adder : Expr :=
  .paren (.lambda [.var "x"] (.lambda [.paren (.var "y")] (.binary (.var "x") (.symbol "+")
    (.app (.var "f") (.var "y")))))

/-- The line of `adder` ends exactly at the limit, behind four spaces of pending indentation and
with thresholds under which no head is short and no trial small. -/
theorem flat_line_fits_adder :
    let cfg : Config := { columnLimit := 27, shortName := 0, smallColumnLimit := 0 }
    let p : Printer := ⟨"", 0, 0, 4, true⟩
    (adder.layout.run cfg p).output.toList = "    (\\x -> \\(y) -> x + f y)".toList ∧
      (adder.layout.run cfg p).column = 27 ∧ (adder.layout.run cfg p).line = 0 := by
  intro cfg p
  have x : OneLine "x" := by decide
  have y : OneLine "y" := by decide
  have f : OneLine "f" := by decide
  have plus : OneLine "+" := by decide
  have line : adder.flatLine = "(\\x -> \\(y) -> x + f y)" := by decide +kernel
  have fits : p.effectiveColumn + adder.flatLine.length ≤ cfg.columnLimit := by
    rw [line]
    decide
  have flatParams : ∀ q ∈ adder.lambdaParams, q.isFlat = true := by
    rintro q (_ | ⟨_, _ | ⟨_, mem⟩⟩)
    · rfl
    · rfl
    · cases mem
  obtain ⟨output, column, same, -, -⟩ := flat_line_fits (e := adder) rfl flatParams
    ⟨⟨x, trivial⟩, ⟨y, trivial⟩, x, plus, f, y⟩ cfg p (by rw [line]; decide) fits
  rw [line] at output column
  exact ⟨output, column, same⟩

end TrialLayout
