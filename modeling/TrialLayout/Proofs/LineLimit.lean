import TrialLayout.Proofs.LimitStability

/-!
# Where a compound expression on one line ends

Operations, conditionals, calls with several arguments and collections with several items are
written on one line only if that fits. What fits is measured by a trial, and the trials cover
different parts of the text: that of a list includes the closing bracket, those of tuples and
records do not. So a tuple or a record on one line may end past the column limit, but by no more
than its closing delimiter.

* `Expr.Overhang`: by how much each of these shapes may end past the limit.
* `Layout.Overhangs`: no line ends further past the limit than that, and wherever a line comes
  out the limit can be lowered until it ends exactly so far past it.

Every fallback that stands in for a rejected trial ends a line (`Layout.EndsLine`); so on one line
only the trials are left. That the bound is attained follows from the stability of what the trial
has measured.
-/

namespace TrialLayout

open Printer

/-! ## Definitions -/

/-- The shapes that are measured against the column limit, each with the number of columns by
which it may end past the limit on one line. -/
inductive Expr.Overhang : Expr → Nat → Prop
  | binary {left right : Expr} {op : Op String} : Overhang (.binary left op right) 0
  | cond {condition yes no : Expr} : Overhang (.cond condition yes no) 0
  | app {func arg : Expr} : 2 ≤ (Expr.app func arg).args.length → Overhang (.app func arg) 0
  | list {items : List Expr} : 2 ≤ items.length → Overhang (.list items) 0
  | tuple {items : List Expr} : 2 ≤ items.length → Overhang (.tuple .boxed items) 1
  | unboxedTuple {items : List Expr} : 2 ≤ items.length → Overhang (.tuple .unboxed items) 3
  | record {con : String} {fields : List Field} : 2 ≤ fields.length →
      Overhang (.record con fields) 1
  | update {record : Expr} {fields : List Field} : 2 ≤ fields.length →
      Overhang (.update record fields) 1

/-- On one line the layout ends at most `width` columns past the limit. Under another limit, one
that the line before it fits in, it comes out the same and ends exactly so far past the limit. -/
def Layout.Overhangs (width : Nat) (l : Layout) : Prop :=
  ∀ cfg p, l.Stays cfg p →
    (l.run cfg p).column ≤ cfg.columnLimit + width ∧
    ∃ limit, p.lineWidth ≤ limit ∧ (l.run cfg p).column = limit + width ∧
      l.run (cfg.limited limit) p = l.run cfg p

/-! ## Trials within the limit -/

namespace Layout

variable {l left right trial fallback : Layout} {items : List Layout} {cfg : Config} {p : Printer}
  {width : Nat}

theorem EndsLine.attempt (fit : Fit) (ht : trial.EndsLine) (hf : fallback.EndsLine) :
    (Layout.attempt fit trial fallback).EndsLine := by
  intro cfg p stays
  unfold Stays at stays
  rw [run_attempt] at stays
  split at stays
  · exact ht cfg p stays
  · exact hf cfg p stays

/-- Where a fallback would end a line, only a trial within the limit stays on it. -/
theorem column_le_of_attempt {fit : Fit} (limited : fit.isLimited = true)
    (ends : fallback.EndsLine) (stays : (attempt fit trial fallback).Stays cfg p) :
    ((attempt fit trial fallback).run cfg p).column ≤ cfg.columnLimit := by
  unfold Stays at stays
  rw [run_attempt] at stays ⊢
  split at stays
  · next kept =>
    rw [if_pos kept]
    cases fit with
    | line => exact ((accepts_line_iff trial cfg p).mp kept).2
    | within => exact (accepts_within_iff trial cfg p).mp kept
    | small | stack => cases limited
  · exact absurd stays (ends cfg p)

/-- A row of several items that stays on the line was measured. -/
theorem row_column_le (several : 2 ≤ items.length) (stays : (row items).Stays cfg p) :
    ((row items).run cfg p).column ≤ cfg.columnLimit :=
  column_le_of_attempt rfl (.stacked several) stays

theorem operation_column_le {flat : Bool} {op : String}
    (stays : (operation flat left op right .seq).Stays cfg p) :
    ((operation flat left op right .seq).run cfg p).column ≤ cfg.columnLimit := by
  have ends : (seq (left ++ space ++ text op ++ newline) right).EndsLine :=
    (EndsLine.seq_right _ .newline).seq_left _
  unfold operation at stays ⊢
  split
  · next isFlat =>
    rw [if_pos isFlat] at stays
    exact column_le_of_attempt rfl ends stays
  · next notFlat =>
    rw [if_neg notFlat] at stays
    exact absurd stays (ends cfg p)

/-- Several arguments stay on the line only if they were measured together, behind their head. -/
theorem application_column_le {head : Layout} {args : List Argument} (several : 2 ≤ args.length)
    (stays : (application head args).Stays cfg p) :
    ((application head args).run cfg p).column ≤ cfg.columnLimit := by
  have hanging : (hang (lined (args.map (·.layout)))).EndsLine :=
    .hang (.lined (by rwa [List.length_map]))
  have long : (attempt (.stack args.length) (hang (lined (args.map (·.layout))))
      (newline ++ step (lined (args.map (·.layout))))).EndsLine :=
    .attempt _ hanging (EndsLine.newline.seq_left _)
  obtain ⟨-, followed⟩ := byHead_stays.mp stays
  rw [application, run_byHead]
  split at followed
  · next isShort =>
    rw [if_pos isShort]
    split at followed
    · next few =>
      rw [if_pos few]
      exact column_le_of_attempt rfl hanging followed
    · exact absurd followed (hanging cfg _)
  · next isLong =>
    rw [if_neg isLong]
    split at followed
    · next none =>
      rw [if_pos none]
      exact column_le_of_attempt rfl long followed
    · exact absurd followed (long cfg _)

/-! ## Overhangs -/

namespace Overhangs

/-- What is measured to its end does not overhang: the limit may be lowered to that end. -/
theorem of_stable (stable : l.Stable)
    (within : ∀ cfg p, l.Stays cfg p → (l.run cfg p).column ≤ cfg.columnLimit) :
    l.Overhangs 0 := by
  intro cfg p stays
  have width : (l.run cfg p).lineWidth ≤ (l.run cfg p).column := lineWidth_le_column _
  refine ⟨within cfg p stays, (l.run cfg p).column, Nat.le_trans stays.lineWidth_le width, rfl, ?_⟩
  exact stable cfg _ p stays (.inr width)

/-- What stands before on the line is not changed by the other limit, since it fits in it. -/
theorem seq (hl : left.Stable) (hr : right.Overhangs width) : (left ++ right).Overhangs width := by
  intro cfg p stays
  obtain ⟨stays₁, stays₂⟩ := seq_stays.mp stays
  obtain ⟨within, limit, before, column, same⟩ := hr cfg (left.run cfg p) stays₂
  refine ⟨within, limit, Nat.le_trans stays₁.lineWidth_le before, column, ?_⟩
  show right.run _ (left.run _ p) = right.run cfg (left.run cfg p)
  rw [hl cfg limit p stays₁ (.inr before), same]

/-- The closing delimiter is not measured: the row ends within the limit, the delimiter behind
it. -/
theorem bracketed {opening closing : String} (ho : opening ≠ "") (hc : '\n' ∉ closing.toList)
    (several : 2 ≤ items.length) (h : ∀ item ∈ items, item.Coherent) :
    (Layout.bracketed opening closing items).Overhangs closing.length := by
  intro cfg p stays
  obtain ⟨opened, enclosed⟩ := depend_stays.mp stays
  obtain ⟨base, based⟩ := dependBase_eq_setIndent p ((Layout.text opening).run cfg p)
  rw [based] at enclosed
  generalize hq : ((Layout.text opening).run cfg p).setIndent base = q at enclosed based
  have inLine : q.atLineStart = false := hq ▸ Inks.text ho cfg p opened
  obtain ⟨stays₁, -⟩ := seq_stays.mp enclosed
  have closed : ((Layout.bracketed opening closing items).run cfg p).column =
      ((row items).run cfg q).column + closing.length := by
    show ((Layout.depend _ _).run cfg p).column = _
    rw [run_depend, based]
    show (((row items).run cfg q).write closing).column = _
    rw [write_of_inLine (stays₁.inLine inLine) hc]
  have rowWidth : ((row items).run cfg q).lineWidth = ((row items).run cfg q).column :=
    lineWidth_of_inLine (stays₁.inLine inLine)
  have before : p.lineWidth ≤ q.lineWidth := hq ▸ opened.lineWidth_le
  refine ⟨?_, ((row items).run cfg q).column, ?_, closed, ?_⟩
  · have measured := row_column_le several stays₁
    omega
  · exact rowWidth ▸ Nat.le_trans before stays₁.lineWidth_le
  · have same := (Coherent.row h).stable cfg _ q stays₁ (.inr (Nat.le_of_eq rowWidth))
    show (Layout.depend _ _).run _ p = (Layout.depend _ _).run cfg p
    rw [run_depend, run_depend]
    show ((row items ++ Layout.text closing).run _ (p.dependBase ((Layout.text opening).run cfg p))
      ).setIndent _ = _
    rw [based]
    show (((row items).run _ q).write closing).setIndent _ = _
    rw [same]
    rfl

end Overhangs

end Layout

/-! ## Expressions -/

namespace Expr

open Layout (Overhangs)

theorem layouts_several {items : List Expr} (several : 2 ≤ items.length) :
    2 ≤ (Expr.layouts items).length := by
  rwa [Expr.layouts_eq_map, List.length_map]

theorem tuple_overhangs (boxity : Boxity) {items : List Expr} (several : 2 ≤ items.length) :
    (Expr.tuple boxity items).layout.Overhangs boxity.closing.length := by
  have shape : (Expr.tuple boxity items).layout =
      .bracketed boxity.opening boxity.closing (Expr.layouts items) := by
    cases items with
    | nil => simp at several
    | cons => rfl
  rw [shape]
  exact .bracketed (by cases boxity <;> decide) (by cases boxity <;> decide)
    (layouts_several several) (Expr.layouts_coherent items)

theorem braces_overhang {fields : List Field} (several : 2 ≤ fields.length) :
    (Layout.bracketed "\x7b" "\x7d" (Field.layouts fields)).Overhangs 1 :=
  .bracketed (by decide) (by decide) (by rwa [Field.layouts_eq_map, List.length_map])
    (Field.layouts_coherent fields)

/-- Each of the shapes keeps to its bound. -/
theorem Overhang.overhangs {e : Expr} {width : Nat} (h : e.Overhang width) :
    e.layout.Overhangs width := by
  have stable : e.layout.Stable := e.forms_coherent.whole.stable
  cases h with
  | binary => exact .of_stable stable fun _ _ => Layout.operation_column_le
  | cond =>
    refine .of_stable stable fun _ _ => Layout.column_le_of_attempt rfl (.depend_right _ ?_)
    exact (Layout.EndsLine.seq_right _ .newline).seq_left _
  | @app func arg several =>
    rw [layout_app] at stable ⊢
    refine .of_stable stable fun _ _ => Layout.application_column_le ?_
    rwa [List.length_map]
  | @list items several =>
    have shape : (Expr.list items).layout = .bracketedWhole "[" "]" (Expr.layouts items) := by
      cases items with
      | nil => simp at several
      | cons => rfl
    rw [shape] at stable ⊢
    refine .of_stable stable fun _ _ => Layout.column_le_of_attempt rfl (.depend_right _ ?_)
    exact .seq_left (.stacked (layouts_several several)) _
  | tuple several => exact tuple_overhangs .boxed several
  | unboxedTuple several => exact tuple_overhangs .unboxed several
  | @record con fields several =>
    exact .seq (Layout.Coherent.append (.text con) .space).stable (braces_overhang several)
  | @update record fields several =>
    exact .seq (record.forms_coherent.whole.append .space).stable (braces_overhang several)

end Expr

/-! ## Main statement -/

/-- The smallest expressions whose closing delimiter is not measured. -/
def overhanging : List (Expr × Nat) :=
  let fields : List Field := [.mk "a" (.var "x"), .mk "b" (.var "y")]
  [(.tuple .boxed [.var "x", .var "y"], 1), (.tuple .unboxed [.var "x", .var "y"], 3),
    (.record "R" fields, 1), (.update (.var "r") fields, 1)]

/-- A compound expression on one line ends within the column limit, for tuples and records but for
the closing delimiter. The bound is attained: wherever such an expression comes out on one line,
there is a limit under which it comes out the same and ends exactly so far past the limit; and
each of the shapes with a closing delimiter does come out so. -/
theorem one_line_within_limit :
    (∀ (e : Expr) (width : Nat), e.Overhang width → ∀ (cfg : Config) (p : Printer)
      (text : List Char), (e.layout.run cfg p).output.toList = p.output.toList ++ text →
      '\n' ∉ text →
        (e.layout.run cfg p).column ≤ cfg.columnLimit + width ∧
        ∃ limit, (e.layout.run cfg p).column = limit + width ∧
          e.layout.run { cfg with columnLimit := limit } p = e.layout.run cfg p) ∧
    ∀ s ∈ overhanging, s.1.Overhang s.2 ∧ ∃ limit,
      '\n' ∉ (s.1.layout.run (.withColumnLimit limit) .start).output.toList ∧
      (s.1.layout.run (.withColumnLimit limit) .start).column = limit + s.2 := by
  refine ⟨?_, ?_⟩
  · intro e width h cfg p text appended oneLine
    obtain ⟨within, limit, -, column, same⟩ :=
      h.overhangs cfg p ((Layout.stays_iff appended).mpr oneLine)
    exact ⟨within, limit, column, same⟩
  · simp only [overhanging, List.forall_mem_cons]
    exact ⟨⟨.tuple (by decide), 5, by decide +kernel, by decide +kernel⟩,
      ⟨.unboxedTuple (by decide), 7, by decide +kernel, by decide +kernel⟩,
      ⟨.record (by decide), 15, by decide +kernel, by decide +kernel⟩,
      ⟨.update (by decide), 15, by decide +kernel, by decide +kernel⟩, List.forall_mem_nil _⟩

/-- A call of two arguments that ends exactly at the limit, and a pair that ends one column past
it. -/
theorem one_line_within_limit_pair :
    ((Expr.app (.app (.var "f") (.var "x")) (.var "y")).layout.run (.withColumnLimit 5)
      .start).column ≤ 5 ∧
    ((Expr.tuple .boxed [.var "x", .var "y"]).layout.run (.withColumnLimit 5) .start).column ≤
      5 + 1 ∧
    ((Expr.tuple .boxed [.var "x", .var "y"]).layout.run (.withColumnLimit 5) .start).output =
      "(x, y)" :=
  ⟨(one_line_within_limit.1 _ 0 (.app (by decide)) (.withColumnLimit 5) .start "f x y".toList
      (by decide +kernel) (by decide)).1,
    (one_line_within_limit.1 _ 1 (.tuple (by decide)) (.withColumnLimit 5) .start "(x, y)".toList
      (by decide +kernel) (by decide)).1,
    by decide +kernel⟩

end TrialLayout
