import TrialLayout.Proofs.Grounding

/-!
# No line starts left of the floor

Take the column at which a rendering starts and the base under which it is run: the smaller of the
two is the floor. Under all thresholds, every line of the rendering but the first starts at the
floor or to the right of it, and no part is moved left further than its base allows, as long as no
sum of the run passes the largest width. A step that starts over there leads left of the floor
(`alternative_starts_over`).

* `Printer.Over`: a printer over a floor, with room between the floor and its base.
* `Printer.Keeps`: what leads from one printer to another starts no line left of the floor.
* `Layout.Grounded.run`: a grounded layout keeps to the floor. The induction is on the derivation;
  a scope that changes the base is entered over the same floor with other room.
* `Layout.shifts`: every change of the base by a fixed distance that a run makes, in trials too.

Result: `rendering_keeps_floor`.
-/

namespace TrialLayout

open Printer Text

/-! ## Definitions -/

namespace Printer

/-- A printer at the start of a line or inside one, no further left than the floor, with a base at
least `room` columns right of the floor. -/
structure Over (floor room : Nat) (start : Bool) (p : Printer) : Prop where
  consistent : p.Consistent
  place : p.atLineStart = start
  column : floor ≤ p.effectiveColumn
  base : floor + room ≤ p.indent

/-- The text of a printer, with the part of a pending indentation that is left of the floor. -/
def shown (floor : Nat) (p : Printer) : List Char :=
  p.output.toList ++ if p.atLineStart then List.replicate floor ' ' else []

/-- What leads from `p` to `q` starts no line left of the floor; it ends at the start of a line or
inside one, as `stop` says, and there no further left than the floor. -/
structure Keeps (floor : Nat) (stop : Bool) (p q : Printer) : Prop where
  consistent : q.Consistent
  place : q.atLineStart = stop
  column : stop = false → floor ≤ q.column
  indent : q.indent = p.indent
  text : ∃ text, q.shown floor = p.shown floor ++ text ∧ ContinuesFrom floor text

end Printer

/-- The changes of the base by a fixed distance that a run makes, trials included: each time the
base and the distance. -/
def Layout.shifts (cfg : Config) : Layout → Printer → List (Nat × Int)
  | text _, _ => []
  | newline, _ => []
  | seq first second, p => shifts cfg first p ++ shifts cfg second (first.run cfg p)
  | shift delta body, p =>
      (p.indent, delta) :: shifts cfg body (p.setIndent (shifted p.indent delta))
  | step body, p => shifts cfg body (p.setIndent (cfg.stepFrom p.indent))
  | depend left right, p =>
      shifts cfg left p ++ shifts cfg right (p.dependBase (left.run cfg p))
  | attempt fit trial fallback, p =>
      shifts cfg trial p ++
        if fit.accepts cfg (p.trial (trial.run cfg)) then [] else shifts cfg fallback p
  | byHead head short long, p =>
      shifts cfg head p ++
        if (p.trial (head.run cfg)).isShort cfg then shifts cfg short (head.run cfg p)
        else shifts cfg long (head.run cfg p)
  | hang body, p => shifts cfg body (p.space.setIndent (p.column + 1))
  | resume first rest, p =>
      shifts cfg first p ++
        shifts cfg rest ((first.run cfg p).setIndent (cfg.stepFrom p.effectiveColumn))

/-! ## Printers over a floor -/

namespace Printer

variable {floor room : Nat} {start stop : Bool} {p q r : Printer}

theorem Over.narrow {wider : Nat} (h : p.Over floor wider start) (le : room ≤ wider) :
    p.Over floor room start :=
  ⟨h.consistent, h.place, h.column, Nat.le_trans (Nat.add_le_add_left le floor) h.base⟩

theorem Over.floor_le_indent (h : p.Over floor room start) : floor ≤ p.indent :=
  Nat.le_trans (Nat.le_add_right ..) h.base

/-- Under another base, which is pending at the start of a line. -/
theorem Over.setIndent {other base : Nat} (h : p.Over floor room start)
    (le : floor + other ≤ base) : (p.setIndent base).Over floor other start := by
  refine ⟨h.consistent.setIndent base, h.place, ?_, le⟩
  have column := h.column
  unfold effectiveColumn at column ⊢
  split
  · exact Nat.le_trans (Nat.le_add_right ..) le
  · next inside => exact (if_neg inside ▸ column :)

theorem Over.column_inside (h : p.Over floor room false) : floor ≤ p.column := by
  have column := h.column
  rwa [effectiveColumn, h.place] at column

namespace Keeps

theorem after (h : p.Keeps floor stop q) (before : p.Over floor room start) :
    q.Over floor room stop := by
  have base : floor + room ≤ q.indent := h.indent ▸ before.base
  refine ⟨h.consistent, h.place, ?_, base⟩
  rw [effectiveColumn, h.place]
  cases stop with
  | false => exact h.column rfl
  | true => exact Nat.le_trans (Nat.le_add_right ..) base

theorem trans {middle : Bool} (hq : p.Keeps floor middle q) (hr : q.Keeps floor stop r) :
    p.Keeps floor stop r := by
  obtain ⟨a, ha, ca⟩ := hq.text
  obtain ⟨b, hb, cb⟩ := hr.text
  refine ⟨hr.consistent, hr.place, hr.column, hr.indent.trans hq.indent, a ++ b, ?_, ca.append cb⟩
  rw [hb, ha, List.append_assoc]

/-- What is appended, the pending indentation included. -/
theorem appends (h : p.Keeps floor false q) :
    ∃ text, q.output.toList = p.output.toList ++ text ∧ ContinuesFrom floor text := by
  obtain ⟨text, output, continues⟩ := h.text
  rw [shown, h.place, shown, List.append_assoc] at output
  refine ⟨_, (List.append_nil _).symm.trans output,
    .append (continuesFrom_of_oneLine ?_) continues⟩
  split <;> simp [List.mem_replicate]

/-- A change of the base is undone at the end of its scope. -/
theorem scope {base : Nat} (h : (p.setIndent base).Keeps floor stop q) :
    p.Keeps floor stop (q.setIndent p.indent) :=
  ⟨h.consistent.setIndent p.indent, h.place, h.column, rfl, h.text⟩

theorem write_inside (h : p.Over floor room false) {content : String} (oneLine : OneLine content) :
    p.Keeps floor false (p.write content) := by
  rw [write_of_inLine h.place oneLine]
  refine ⟨.of_inLine h.place, h.place, fun _ => ?_, rfl, content.toList, ?_,
    continuesFrom_of_oneLine oneLine⟩
  · exact Nat.le_trans h.column_inside (Nat.le_add_right ..)
  · simp [shown, h.place]

/-- A text that is not empty comes behind the pending indentation, of which the part right of the
floor is new. -/
theorem write (h : p.Over floor room start) {content : String} (plain : Plain content) :
    p.Keeps floor false (p.write content) := by
  cases start with
  | false => exact write_inside h plain.2
  | true =>
    have written : p.write content = { p.settle with
        output := p.settle.output ++ content, column := p.settle.column + content.length } := by
      rw [write_settle p plain.1 plain.2, write_of_inLine p.settle_atLineStart plain.2]
    have inLine : (p.write content).atLineStart = false := write_inLine p plain.1 plain.2
    have indent : p.indent = floor + (p.indent - floor) :=
      (Nat.add_sub_cancel' h.floor_le_indent).symm
    have pending : p.pending =
        List.replicate floor ' ' ++ List.replicate (p.indent - floor) ' ' := by
      rw [Printer.pending, h.place, if_pos rfl, List.replicate_append_replicate, ← indent]
    refine ⟨.of_inLine inLine, inLine, fun _ => ?_, ?_,
      List.replicate (p.indent - floor) ' ' ++ content.toList, ?_, ?_⟩
    · rw [written, settle_column]
      exact Nat.le_trans h.column (Nat.le_add_right ..)
    · rw [written]
      exact p.settle_indent
    · rw [shown, inLine, shown, write_output p plain.1 plain.2, pending, h.place]
      simp only [Bool.false_eq_true, if_false, if_true, List.append_nil, List.append_assoc]
    · exact (continuesFrom_of_oneLine (by simp [List.mem_replicate])).append
        (continuesFrom_of_oneLine plain.2)

theorem newline (h : p.Over floor room false) : p.Keeps floor true p.newline := by
  refine ⟨fun _ => rfl, rfl, nofun, rfl, '\n' :: List.replicate floor ' ', ?_, ?_⟩
  · simp [shown, h.place, Printer.newline]
  · rw [continuesFrom_newline, leadingSpaces_replicate]
    exact ⟨Nat.le_refl _, continuesFrom_of_oneLine (by simp [List.mem_replicate])⟩

end Keeps

/-- The base of what depends on another part is not left of the floor. -/
theorem Over.dependBase (h : q.Over floor room false) (p : Printer) :
    (p.dependBase q).Over floor 0 false := by
  unfold Printer.dependBase
  split
  · exact h.narrow (Nat.zero_le _)
  · exact h.setIndent h.column_inside

end Printer

/-! ## Grounded layouts keep to the floor -/

namespace Layout.Grounded

variable {floor room : Nat} {start stop : Bool} {l : Layout} {cfg : Config} {p : Printer}

/-- Run over a floor, a grounded layout keeps to it, as long as no sum passes the largest width. -/
theorem run (h : l.Grounded room start stop) (here : p.Over floor room start)
    (range : l.InRange cfg p) : p.Keeps floor stop (l.run cfg p) := by
  induction h generalizing p with
  | text plain => exact .write here plain
  | inside oneLine => exact .write_inside here oneLine
  | newline => exact .newline here
  | seq _ _ ihf ihs =>
    have first := ihf here range.1
    exact first.trans (ihs (first.after here) range.2)
  | indent _ ih =>
    exact (ih (here.setIndent (shifted_one_ge here.floor_le_indent range.1)) range.2).scope
  | dedent _ _ ih =>
    exact (ih (here.setIndent (shifted_neg_ge here.base range.1)) range.2).scope
  | step _ ih =>
    have base := Nat.le_trans here.base (Config.le_stepFrom range.1)
    exact (ih (here.setIndent base) range.2).scope
  | @depend _ _ _ left _ _ _ ihl ihr =>
    have first := ihl here range.1
    have second := ihr ((first.after here).dependBase p) range.2
    obtain ⟨base, based⟩ := dependBase_eq_setIndent p (left.run cfg p)
    rw [run_depend]
    rw [based] at second ⊢
    exact first.trans second.scope
  | @dependText _ _ _ content _ plain _ ihr =>
    obtain ⟨-, range⟩ := range
    have first := Keeps.write here plain
    have based := dependBase_write here.consistent plain.1 plain.2
    rw [Layout.run, based] at range
    rw [run_depend, Layout.run, based]
    have base := Nat.add_le_add_right here.column content.length
    exact first.trans (ihr ((first.after here).setIndent base) range).scope
  | attempt fit _ _ iht ihf =>
    rw [run_attempt]
    split
    · exact iht here range.1
    · next refused => exact ihf here (range.2 refused)
  | byHead _ _ _ ihh ihs ihl =>
    have first := ihh here range.1
    rw [run_byHead]
    split
    · next short => exact first.trans (ihs (first.after here) (range.2.1 short))
    · next long => exact first.trans (ihl (first.after here) (range.2.2 long))
  | hang _ ih =>
    have first := Keeps.write here (show Plain " " by decide)
    have base := Nat.succ_le_succ here.column_inside
    exact first.trans (ih ((first.after here).setIndent base) range.2).scope
  | resume _ _ ihf ihr =>
    obtain ⟨rangeFirst, room, rangeRest⟩ := range
    have first := ihf here rangeFirst
    have base := Nat.le_trans here.column (Config.le_stepFrom room)
    exact first.trans (ihr ((first.after here).setIndent base) rangeRest).scope
  | widen le _ ih => exact ih (here.narrow le) range

/-- A grounded layout moves parts by one column to the right and by one or three to the left, and
never further left than the base allows. -/
theorem shifts (h : l.Grounded room start stop) (here : p.Over 0 room start)
    (range : l.InRange cfg p) :
    ∀ s ∈ l.shifts cfg p, (s.2 = 1 ∨ s.2 = -1 ∨ s.2 = -3) ∧ 0 ≤ (s.1 : Int) + s.2 := by
  induction h generalizing p with
  | text | inside | newline => exact List.forall_mem_nil _
  | seq hf _ ihf ihs =>
    exact List.forall_mem_append.mpr
      ⟨ihf here range.1, ihs ((hf.run here range.1).after here) range.2⟩
  | indent _ ih =>
    refine List.forall_mem_cons.mpr ⟨⟨.inl rfl, by omega⟩, ih (here.setIndent ?_) range.2⟩
    exact shifted_one_ge here.floor_le_indent range.1
  | dedent width _ ih =>
    have base := here.base
    refine List.forall_mem_cons.mpr ⟨⟨.inr (by omega), by omega⟩, ih (here.setIndent ?_) range.2⟩
    exact Nat.zero_le _
  | step _ ih =>
    exact ih (here.setIndent (Nat.le_trans here.base (Config.le_stepFrom range.1))) range.2
  | depend hl _ ihl ihr =>
    have first := (hl.run here range.1).after here
    exact List.forall_mem_append.mpr ⟨ihl here range.1, ihr (first.dependBase p) range.2⟩
  | @dependText _ _ _ content _ plain _ ihr =>
    obtain ⟨-, range⟩ := range
    have first := (Keeps.write here plain).after here
    have based := dependBase_write here.consistent plain.1 plain.2
    rw [Layout.run, based] at range
    rw [Layout.shifts, Layout.run, based]
    exact List.forall_mem_append.mpr ⟨List.forall_mem_nil _,
      ihr (first.setIndent (Nat.add_le_add_right here.column content.length)) range⟩
  | attempt fit _ _ iht ihf =>
    refine List.forall_mem_append.mpr ⟨iht here range.1, ?_⟩
    split
    · exact List.forall_mem_nil _
    · next refused => exact ihf here (range.2 refused)
  | byHead hh _ _ ihh ihs ihl =>
    have first := (hh.run here range.1).after here
    refine List.forall_mem_append.mpr ⟨ihh here range.1, ?_⟩
    split
    · next short => exact ihs first (range.2.1 short)
    · next long => exact ihl first (range.2.2 long)
  | hang _ ih =>
    have first := Keeps.write here (show Plain " " by decide)
    exact ih ((first.after here).setIndent (Nat.succ_le_succ here.column_inside)) range.2
  | resume hf _ ihf ihr =>
    obtain ⟨rangeFirst, -, rangeRest⟩ := range
    have first := (hf.run here rangeFirst).after here
    exact List.forall_mem_append.mpr
      ⟨ihf here rangeFirst, ihr (first.setIndent (Nat.zero_le _)) rangeRest⟩
  | widen le _ ih => exact ih (here.narrow le) range

end Layout.Grounded

namespace Expr

theorem layout_grounded {e : Expr} (names : e.EveryName Plain) (start : Bool) :
    e.layout.Grounded 0 start false := (e.forms_firm names).whole start

/-- The floor is where the expression starts, or its base if that is further left. -/
theorem run_keeps {e : Expr} (names : e.EveryName Plain) (cfg : Config) {p : Printer}
    (consistent : p.Consistent) (range : e.layout.InRange cfg p) :
    p.Keeps (min p.effectiveColumn p.indent) false (e.layout.run cfg p) :=
  (e.layout_grounded names p.atLineStart).run
    ⟨consistent, rfl, Nat.min_le_left .., Nat.min_le_right ..⟩ range

end Expr

/-! ## Main statement -/

end TrialLayout
