import TrialLayout.Proofs.Coherence
import TrialLayout.Proofs.Lines

/-!
# One-line layouts are stable in the column limit

Two runs of one layout are compared, under thresholds that differ in the column limit only. If
the first run stays on one line, then the second run is the same, provided that its limit is no
smaller, or that the line still fits in it.

* `Config.Admits`: the condition on the new limit. It is inherited by every earlier point of
  the line (`Config.Admits.earlier`), since the width of the line only grows.
* `Fit.accepts_limited`: a trial on one line that was kept is kept under the new limit.
* `Layout.Coherent.stable`: the comparison, by induction over coherent layouts. Where the first
  run rejects a trial and stays on the line, the fallback has done what the trial does, so it
  does not matter which of the two the second run takes.

Result: `one_line_stable`.
-/

namespace TrialLayout

open Printer Text

/-! ## Definitions -/

/-- The same thresholds with another column limit. -/
def Config.limited (cfg : Config) (limit : Nat) : Config := { cfg with columnLimit := limit }

/-- The limit may be replaced: it does not sink, or what stands on the line fits. -/
def Config.Admits (cfg : Config) (limit : Nat) (p : Printer) : Prop :=
  cfg.columnLimit ≤ limit ∨ p.lineWidth ≤ limit

/-- Where the layout stays on the line, another limit that admits the line changes nothing. -/
def Layout.Stable (l : Layout) : Prop :=
  ∀ cfg limit p, l.Stays cfg p → cfg.Admits limit (l.run cfg p) →
    l.run (cfg.limited limit) p = l.run cfg p

/-! ## Limits -/

namespace Config

theorem Admits.earlier {cfg : Config} {limit : Nat} {p q : Printer} (h : cfg.Admits limit q)
    (width : p.lineWidth ≤ q.lineWidth) : cfg.Admits limit p := by
  rcases h with raised | fits
  · exact .inl raised
  · exact .inr (Nat.le_trans width fits)

/-- What is within the limit is within an admitted limit. -/
theorem Admits.column_le {cfg : Config} {limit : Nat} {p : Printer} (h : cfg.Admits limit p)
    (inLine : p.atLineStart = false) (within : p.column ≤ cfg.columnLimit) :
    p.column ≤ limit := by
  rcases h with raised | fits
  · exact Nat.le_trans within raised
  · rwa [lineWidth_of_inLine inLine] at fits

/-- What is within the tolerant limit is within an admitted one. -/
theorem Admits.width_le_tolerant {cfg : Config} {limit : Nat} {p : Printer}
    (h : cfg.Admits limit p) (within : p.lineWidth ≤ cfg.tolerantLimit) :
    p.lineWidth ≤ (cfg.limited limit).tolerantLimit := by
  unfold tolerantLimit at within ⊢
  simp only [limited]
  rcases h with raised | fits <;> omega

end Config

/-! ## Trials -/

namespace Layout

/-- A run and its trial end at the same place. -/
theorem run_eq_prepend (l : Layout) (cfg : Config) (p : Printer) :
    l.run cfg p = (l.run cfg p.snapshot).prepend p.output 0 := by
  rw [← l.run_positional cfg, snapshot_prepend]

theorem stays_snapshot {l : Layout} {cfg : Config} {p : Printer} :
    l.Stays cfg p.snapshot ↔ l.Stays cfg p := by
  unfold Stays
  rw [l.run_eq_prepend cfg p, prepend_line, Nat.zero_add]
  exact Iff.rfl

/-- Where a run on the line is stable, so is its trial. -/
theorem Stable.trial_eq {l : Layout} (h : l.Stable) {cfg : Config} {limit : Nat} {p : Printer}
    (stays : l.Stays cfg p) (admits : cfg.Admits limit (l.run cfg p)) :
    p.trial (l.run (cfg.limited limit)) = p.trial (l.run cfg) := by
  rw [l.run_eq_prepend cfg p] at admits
  have same : l.run (cfg.limited limit) p.snapshot = l.run cfg p.snapshot :=
    h cfg limit p.snapshot (stays_snapshot.mpr stays) admits
  rw [Printer.trial, Printer.trial, same]

/-- A trial on one line has one line end. -/
theorem lineEnds_of_stays {l : Layout} {cfg : Config} {p : Printer} (stays : l.Stays cfg p) :
    (p.trial (l.run cfg)).lineEnds = [(l.run cfg p).lineWidth] := by
  obtain ⟨text, advances⟩ := l.run_advances cfg p.snapshot
  have oneLine : '\n' ∉ text := advances.line_eq_iff.mp (stays_snapshot.mpr stays)
  have output : (p.trial (l.run cfg)).candidate.output.toList = text :=
    advances.output.trans (List.nil_append text)
  rw [Trial.lineEnds, output, splitLines_of_oneLine oneLine, l.run_eq_prepend cfg p,
    prepend_lineWidth, advances.width oneLine]
  rfl

end Layout

/-- A trial that stays on the line and was kept is kept under an admitted limit. -/
theorem Fit.accepts_limited {cfg : Config} {limit : Nat} {fit : Fit} {l : Layout} {p : Printer}
    (stays : l.Stays cfg p) (inks : fit.isLimited = true → l.Inks)
    (admits : cfg.Admits limit (l.run cfg p))
    (accepted : fit.accepts cfg (p.trial (l.run cfg)) = true) :
    fit.accepts (cfg.limited limit) (p.trial (l.run cfg)) = true := by
  have column : (p.trial (l.run cfg)).candidate.column = (l.run cfg p).column := by
    rw [l.run_eq_prepend cfg p]
    rfl
  cases fit with
  | line =>
    have inLine := inks rfl cfg p stays
    simp only [accepts, Trial.overflows, column, Bool.and_eq_true, Bool.not_eq_true',
      decide_eq_false_iff_not, Nat.not_lt] at accepted ⊢
    exact ⟨accepted.1, admits.column_le inLine accepted.2⟩
  | within =>
    have inLine := inks rfl cfg p stays
    simp only [accepts, Trial.overflows, column, Bool.not_eq_true', decide_eq_false_iff_not,
      Nat.not_lt] at accepted ⊢
    exact admits.column_le inLine accepted
  | small => exact accepted
  | stack lines =>
    simp only [accepts, Layout.lineEnds_of_stays stays, List.all_cons, List.all_nil, Bool.and_true,
      Bool.and_eq_true, decide_eq_true_eq] at accepted ⊢
    exact ⟨accepted.1, admits.width_le_tolerant accepted.2⟩

/-! ## Layouts -/

namespace Layout

/-- The second of two parts is run where the first one led, on the same line. -/
theorem Stable.seq {first second : Layout} (hf : first.Stable) (hs : second.Stable) :
    (first ++ second).Stable := by
  intro cfg limit p stays admits
  obtain ⟨stays₁, stays₂⟩ := seq_stays.mp stays
  show second.run _ (first.run _ p) = second.run cfg (first.run cfg p)
  rw [hf cfg limit p stays₁ (admits.earlier stays₂.lineWidth_le)]
  exact hs cfg limit (first.run cfg p) stays₂ admits

theorem Stable.depend {left right : Layout} (hl : left.Stable) (hr : right.Stable) :
    (Layout.depend left right).Stable := by
  intro cfg limit p stays admits
  obtain ⟨stays₁, stays₂⟩ := depend_stays.mp stays
  rw [run_depend] at admits
  have width : (left.run cfg p).lineWidth ≤
      (right.run cfg (p.dependBase (left.run cfg p))).lineWidth := by
    obtain ⟨base, based⟩ := dependBase_eq_setIndent p (left.run cfg p)
    rw [based] at stays₂ ⊢
    exact stays₂.lineWidth_le
  rw [run_depend, run_depend, hl cfg limit p stays₁ (admits.earlier width),
    hr cfg limit (p.dependBase (left.run cfg p)) stays₂ admits]

theorem Stable.attempt {fit : Fit} {trial fallback : Layout} (ht : trial.Stable)
    (hf : fallback.Stable) (agrees : trial.Agrees fallback)
    (inks : fit.isLimited = true → trial.Inks) : (Layout.attempt fit trial fallback).Stable := by
  intro cfg limit p stays admits
  unfold Stays at stays
  rw [run_attempt] at stays admits ⊢
  rw [run_attempt cfg]
  by_cases accepted : fit.accepts cfg (p.trial (trial.run cfg)) = true
  · rw [if_pos accepted] at stays admits ⊢
    have kept :
        fit.accepts (cfg.limited limit) (p.trial (trial.run (cfg.limited limit))) = true := by
      rw [ht.trial_eq stays admits]
      exact Fit.accepts_limited stays inks admits accepted
    rw [if_pos kept]
    exact ht cfg limit p stays admits
  · rw [if_neg accepted] at stays admits ⊢
    have same : trial.run cfg p = fallback.run cfg p := agrees cfg p stays
    -- trial and fallback are the same line, so it does not matter which of them is taken now
    split
    · rw [← same] at admits ⊢
      exact ht cfg limit p (agrees.stays stays) admits
    · exact hf cfg limit p stays admits

theorem Stable.byHead {head short long : Layout} (hh : head.Stable) (hs : short.Stable)
    (hl : long.Stable) : (Layout.byHead head short long).Stable := by
  intro cfg limit p stays admits
  obtain ⟨stays₁, stays₂⟩ := byHead_stays.mp stays
  rw [run_byHead] at admits ⊢
  rw [run_byHead cfg]
  -- the head is short under both limits or under neither
  have measured (t : Trial) : t.isShort (cfg.limited limit) = t.isShort cfg := rfl
  have earlier : cfg.Admits limit (head.run cfg p) := by
    split at stays₂
    · next isShort => exact (if_pos isShort ▸ admits).earlier stays₂.lineWidth_le
    · next isLong => exact (if_neg isLong ▸ admits).earlier stays₂.lineWidth_le
  rw [hh.trial_eq stays₁ earlier, measured, hh cfg limit p stays₁ earlier]
  split at stays₂
  · next isShort =>
    rw [if_pos isShort] at admits ⊢
    rw [if_pos isShort]
    exact hs cfg limit _ stays₂ admits
  · next isLong =>
    rw [if_neg isLong] at admits ⊢
    rw [if_neg isLong]
    exact hl cfg limit _ stays₂ admits

/-- A coherent layout is stable in the column limit. -/
theorem Coherent.stable {l : Layout} (h : l.Coherent) : l.Stable := by
  induction h with
  | text content => exact fun _ _ _ _ _ => rfl
  | newline => exact fun _ _ _ _ _ => rfl
  | seq _ _ ihf ihs => exact ihf.seq ihs
  | shift delta _ ih =>
    intro cfg limit p stays admits
    have inner := ih cfg limit (p.setIndent (shifted p.indent delta)) stays admits
    exact congrArg (Printer.setIndent · p.indent) inner
  | step _ ih =>
    intro cfg limit p stays admits
    have inner := ih cfg limit (p.setIndent (cfg.stepFrom p.indent)) stays admits
    exact congrArg (Printer.setIndent · p.indent) inner
  | depend _ _ ihl ihr => exact ihl.depend ihr
  | attempt _ _ agrees inks iht ihf => exact iht.attempt ihf agrees inks
  | either _ same ih =>
    intro cfg limit p stays admits
    unfold Stays at stays
    rw [run_either same] at stays admits ⊢
    rw [run_either same]
    exact ih cfg limit p stays admits
  | byHead _ _ _ _ ihh ihs ihl => exact ihh.byHead ihs ihl
  | hang _ ih =>
    intro cfg limit p stays admits
    have inner := ih cfg limit _ (hang_stays.mp stays) admits
    exact congrArg (Printer.setIndent · p.space.indent) inner
  | resume _ _ ihf ihr =>
    rename_i first rest _ _
    intro cfg limit p stays admits
    obtain ⟨stays₁, stays₂⟩ := resume_stays.mp stays
    have head := ihf cfg limit p stays₁ (admits.earlier stays₂.lineWidth_le)
    have tail := ihr cfg limit _ stays₂ admits
    show (rest.run _ ((first.run _ p).setIndent _)).setIndent (first.run _ p).indent = _
    rw [head]
    exact congrArg (Printer.setIndent · (first.run cfg p).indent) tail

end Layout

/-! ## Main statement -/

/-- Raising the column limit, or lowering it to one that the line still fits in, does not
change a rendering on one line: neither its text nor the printer it leads to. -/
def Layout.StableOnLine (l : Layout) : Prop :=
  ∀ cfg cfg' : Config, cfg' = { cfg with columnLimit := cfg'.columnLimit } →
    ∀ (p : Printer) (text : List Char),
      (l.run cfg p).output.toList = p.output.toList ++ text → '\n' ∉ text →
      cfg.columnLimit ≤ cfg'.columnLimit ∨ (l.run cfg p).column ≤ cfg'.columnLimit →
      l.run cfg' p = l.run cfg p

theorem Layout.Stable.onLine {l : Layout} (h : l.Stable) : l.StableOnLine := by
  intro cfg cfg' differ p text appended oneLine bound
  have stays : l.Stays cfg p := (stays_iff appended).mpr oneLine
  rw [differ]
  refine h cfg cfg'.columnLimit p stays ?_
  rcases bound with raised | fits
  · exact .inl raised
  · exact .inr (Nat.le_trans (lineWidth_le_column _) fits)

/-- One-line layouts are stable in the column limit, for every tree, whatever its names are,
and from every printer. -/
theorem one_line_stable :
    (∀ e : Expr, e.layout.StableOnLine) ∧ ∀ d : Decl, d.layout.StableOnLine :=
  ⟨fun e => e.forms_coherent.whole.stable.onLine, fun d => d.layout_coherent.stable.onLine⟩

/-- The limit of a call is lowered to its width, and the limit that the only item of a tuple
exceeds is raised: there the line came from the fallback. -/
theorem one_line_stable_call :
    (Expr.app (.app (.var "f") (.var "x")) (.var "y")).layout.run (.withColumnLimit 5) .start =
      (Expr.app (.app (.var "f") (.var "x")) (.var "y")).layout.run {} .start ∧
    (Decl.pattern (.var "x") (.plain (.tuple .boxed [.var "y"]))).layout.run {} .start =
      (Decl.pattern (.var "x") (.plain (.tuple .boxed [.var "y"]))).layout.run
        (.withColumnLimit 3) .start :=
  ⟨one_line_stable.1 _ {} (.withColumnLimit 5) rfl .start "f x y".toList (by decide +kernel)
      (by decide) (.inr (by decide +kernel)),
    one_line_stable.2 _ (.withColumnLimit 3) {} rfl .start "x = (y)".toList (by decide +kernel)
      (by decide) (.inl (by decide))⟩

end TrialLayout
