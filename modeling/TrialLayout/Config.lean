/-!
# Layout thresholds

A layout is chosen by measuring a trial rendering against five thresholds:

* `columnLimit`: a line that ends past this column overflows;
* `indentSpaces`: the step by which nested blocks are indented;
* `shortName`: the head of an application is short when it ends fewer than this
  many columns after it started;
* `smallColumnLimit`: a one-line trial that ends before this column is small;
* `overflowMargin`: what the tolerant overflow test adds to the column limit.

`Config.validate` refuses thresholds that cannot drive a layout. Rendering itself
takes any thresholds.
-/

namespace TrialLayout

/-- The largest width a threshold or a shifted indentation can have. A tolerant limit and a
shifted base that would pass it stop there, a base moved by one step starts over from `0`. -/
def maxWidth : Nat := 0xFFFFFFFFFFFFFFFF

/-- The thresholds of the layout engine. -/
structure Config where
  columnLimit : Nat := 80
  indentSpaces : Nat := 2
  shortName : Nat := 10
  smallColumnLimit : Nat := 50
  overflowMargin : Nat := 20
deriving DecidableEq, Repr

instance : Inhabited Config := ⟨{}⟩

/-- Why thresholds cannot drive a layout. -/
inductive ConfigError where
  | zeroColumnLimit
  | zeroIndent
  | indentExceedsLimit (indent limit : Nat)
  | zeroShortName
deriving DecidableEq, Repr

namespace ConfigError

/-- The text shown for a refused configuration. -/
def message : ConfigError → String
  | zeroColumnLimit => "column limit must be at least 1"
  | zeroIndent => "indent width must be at least 1"
  | indentExceedsLimit indent limit =>
      "indent width " ++ indent.repr ++ " must be smaller than the column limit " ++ limit.repr
  | zeroShortName => "short-name threshold must be at least 1"

end ConfigError

namespace Config

/-- The default thresholds with another column limit. -/
def withColumnLimit (limit : Nat) : Config := { columnLimit := limit }

/-- The default thresholds with another indentation step. -/
def withIndentSpaces (spaces : Nat) : Config := { indentSpaces := spaces }

/-- The column past which the tolerant overflow test fires. -/
def tolerantLimit (cfg : Config) : Nat :=
  min (cfg.columnLimit + cfg.overflowMargin) maxWidth

/-- The base one indentation step past a column. The sum is not checked: past the largest width
it starts over. -/
def stepFrom (cfg : Config) (column : Nat) : Nat :=
  (column + cfg.indentSpaces) % (maxWidth + 1)

theorem stepFrom_eq {cfg : Config} {column : Nat}
    (room : column + cfg.indentSpaces ≤ maxWidth) :
    cfg.stepFrom column = column + cfg.indentSpaces :=
  Nat.mod_eq_of_lt (Nat.lt_succ_of_le room)

theorem le_stepFrom {cfg : Config} {column : Nat} (room : column + cfg.indentSpaces ≤ maxWidth) :
    column ≤ cfg.stepFrom column := by
  rw [stepFrom_eq room]
  exact Nat.le_add_right ..

theorem stepFrom_le (cfg : Config) (column : Nat) :
    cfg.stepFrom column ≤ column + cfg.indentSpaces :=
  Nat.mod_le _ _

/-- Accepts thresholds that can drive a layout. Of several faults the first in the
order below is reported. -/
def validate (cfg : Config) : Except ConfigError Config :=
  if cfg.columnLimit = 0 then .error .zeroColumnLimit
  else if cfg.indentSpaces = 0 then .error .zeroIndent
  else if cfg.columnLimit ≤ cfg.indentSpaces then
    .error (.indentExceedsLimit cfg.indentSpaces cfg.columnLimit)
  else if cfg.shortName = 0 then .error .zeroShortName
  else .ok cfg

/-- The thresholds that `validate` accepts. -/
def Valid (cfg : Config) : Prop :=
  0 < cfg.indentSpaces ∧ cfg.indentSpaces < cfg.columnLimit ∧ 0 < cfg.shortName

instance (cfg : Config) : Decidable cfg.Valid :=
  inferInstanceAs (Decidable (_ ∧ _))

/-- A step that can be taken leads to the right. -/
theorem succ_le_stepFrom {cfg : Config} (valid : cfg.Valid) {base column : Nat}
    (le : base ≤ column) (room : column + cfg.indentSpaces ≤ maxWidth) :
    base + 1 ≤ cfg.stepFrom column := by
  rw [stepFrom_eq room]
  exact Nat.add_le_add le valid.1

/-- Validation returns its argument, and does so exactly on valid thresholds. -/
theorem validate_eq_ok_iff {cfg cfg' : Config} :
    cfg.validate = .ok cfg' ↔ cfg.Valid ∧ cfg' = cfg := by
  unfold validate Valid
  split
  · simp; omega
  · split
    · simp; omega
    · split
      · simp; omega
      · split
        · simp; omega
        · simp only [Except.ok.injEq]
          constructor
          · intro h; exact ⟨by omega, h.symm⟩
          · intro h; exact h.2.symm

end Config

end TrialLayout
