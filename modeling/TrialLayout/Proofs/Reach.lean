import TrialLayout.Proofs.Advance
import TrialLayout.Proofs.InRange

/-!
# How far a run reaches

A run moves right by what it writes and by what it adds to the base, so it gets only so far from
the column and the base that it starts with: `Layout.reach`. A column near the base and a column
far from it therefore stay apart, whatever trials decide in between (`Layout.run_zone`). Where the
reach leaves room, no sum passes the largest width (`Layout.inRange_of_reach`).

Used for positions far past the column limit, under a base that leaves room
(`Layout.FarPast`): there a run that ends within the limit has ended a line and come back to the
base (`Layout.FarPast.fallsBack`).
-/

namespace TrialLayout

open Printer

/-! ## Definitions -/

namespace Layout

/-- How far a run can get to the right of the column and the base that it starts with. -/
def reach (cfg : Config) : Layout → Nat
  | text content => content.length
  | newline => 0
  | seq first second => first.reach cfg + second.reach cfg
  | shift delta body => delta.natAbs + body.reach cfg
  | step body => cfg.indentSpaces + body.reach cfg
  | depend left right => left.reach cfg + right.reach cfg
  | attempt _ trial fallback => trial.reach cfg + fallback.reach cfg
  | byHead head short long => head.reach cfg + (short.reach cfg + long.reach cfg)
  | hang body => 1 + body.reach cfg
  | resume first rest => first.reach cfg + (cfg.indentSpaces + rest.reach cfg)

/-- The column is past the limit and the base left of it, each by more than the run can reach,
and all of this is within the widths of the machine. -/
structure FarPast (l : Layout) (cfg : Config) (p : Printer) : Prop where
  inLine : p.atLineStart = false
  near : p.indent + l.reach cfg ≤ cfg.columnLimit
  far : cfg.columnLimit + l.reach cfg < p.column
  room : p.column + l.reach cfg ≤ maxWidth

/-- The run ends a line and comes back to the base. -/
def FallsBack (l : Layout) (cfg : Config) (p : Printer) : Prop :=
  ¬l.Stays cfg p ∧ (l.run cfg p).column ≤ p.indent + l.reach cfg

end Layout

/-- The columns left of `near` and those around `far`, if there is such a bound, with some slack. -/
def Zone (near : Nat) (far : Option Nat) (slack column : Nat) : Prop :=
  column ≤ near + slack ∨ ∃ bound ∈ far, bound ≤ column + slack ∧ column ≤ bound + slack

/-- Behind the far bound so many columns are left. -/
def Leaves (far : Option Nat) (slack : Nat) : Prop := ∀ bound ∈ far, bound + slack ≤ maxWidth

theorem Leaves.mono {far : Option Nat} {slack more : Nat} (h : Leaves far more)
    (le : slack ≤ more) : Leaves far slack :=
  fun bound given => Nat.le_trans (Nat.add_le_add_left le bound) (h bound given)

/-! ## Zones -/

namespace Zone

variable {near slack column : Nat} {far : Option Nat}

theorem zero : Zone near far slack 0 := .inl (Nat.zero_le _)

theorem right (h : Zone near far slack column) (n : Nat) :
    Zone near far (slack + n) (column + n) := by
  obtain close | ⟨bound, given, past, within⟩ := h
  · exact .inl (by omega)
  · exact .inr ⟨bound, given, by omega, by omega⟩

theorem widen (h : Zone near far slack column) {more : Nat} (le : slack ≤ more) :
    Zone near far more column := by
  obtain close | ⟨bound, given, past, within⟩ := h
  · exact .inl (by omega)
  · exact .inr ⟨bound, given, by omega, by omega⟩

/-- A moved base is cut off at the largest width, which the far bound does not come to. -/
theorem shifted {delta : Int} (room : Leaves far (slack + delta.natAbs))
    (h : Zone near far slack column) :
    Zone near far (slack + delta.natAbs) (Printer.shifted column delta) := by
  unfold Printer.shifted
  obtain close | ⟨bound, given, past, within⟩ := h
  · exact .inl (by omega)
  · have := room bound given
    exact .inr ⟨bound, given, by omega, by omega⟩

/-- A step starts over behind the largest width, which the far bound does not come to. From near
the base a step gets no further for that. -/
theorem stepFrom {cfg : Config} (room : Leaves far (slack + cfg.indentSpaces))
    (h : Zone near far slack column) :
    Zone near far (slack + cfg.indentSpaces) (cfg.stepFrom column) := by
  obtain close | ⟨bound, given, past, within⟩ := h
  · have moved := cfg.stepFrom_le column
    exact .inl (by omega)
  · have left := room bound given
    rw [Config.stepFrom_eq (by omega)]
    exact .inr ⟨bound, given, by omega, by omega⟩

end Zone

section

variable {near slack : Nat} {far : Option Nat} {p : Printer}

theorem Printer.effectiveColumn_le (column : p.column ≤ near) (base : p.indent ≤ near) :
    p.effectiveColumn ≤ near := by
  unfold effectiveColumn
  split
  · exact base
  · exact column

theorem Printer.put_zone (c : Char) (column : Zone near far slack p.column)
    (base : Zone near far slack p.indent) :
    Zone near far (slack + 1) (p.put c).column ∧ (p.put c).indent = p.indent := by
  unfold put
  split
  · exact ⟨.zero, rfl⟩
  · refine ⟨?_, p.settle_indent⟩
    show Zone near far (slack + 1) (p.settle.column + 1)
    rw [settle_column, effectiveColumn]
    split
    · exact base.right 1
    · exact column.right 1

theorem Printer.write_zone (content : String) (column : Zone near far slack p.column)
    (base : Zone near far slack p.indent) :
    Zone near far (slack + content.length) (p.write content).column := by
  rw [← String.length_toList]
  unfold write
  induction content.toList generalizing p slack with
  | nil => exact column
  | cons c rest ih =>
    obtain ⟨moved, kept⟩ := put_zone c column base
    have written := ih moved (kept ▸ base.widen (Nat.le_succ slack))
    rwa [Nat.add_right_comm, Nat.add_assoc, ← List.length_cons (a := c)] at written

theorem Layout.indent_zone (cfg : Config) (l : Layout) (base : Zone near far slack p.indent) :
    Zone near far (slack + l.reach cfg) (l.run cfg p).indent := by
  rw [run_indent]
  exact base.widen (Nat.le_add_right ..)

/-- A run comes to columns within its reach of those that it starts from. -/
theorem Layout.run_zone (cfg : Config) (l : Layout) (room : Leaves far (slack + l.reach cfg))
    (column : Zone near far slack p.column) (base : Zone near far slack p.indent) :
    Zone near far (slack + l.reach cfg) (l.run cfg p).column := by
  induction l generalizing p slack with
  | text content => exact write_zone content column base
  | newline => exact .zero
  | seq first second ihf ihs =>
    rw [reach, ← Nat.add_assoc] at room ⊢
    exact ihs room (ihf (room.mono (Nat.le_add_right ..)) column base) (first.indent_zone cfg base)
  | shift delta body ih =>
    rw [reach, ← Nat.add_assoc] at room ⊢
    exact ih room (column.widen (Nat.le_add_right ..))
      (base.shifted (room.mono (Nat.le_add_right ..)))
  | step body ih =>
    rw [reach, ← Nat.add_assoc] at room ⊢
    exact ih room (column.widen (Nat.le_add_right ..))
      (base.stepFrom (room.mono (Nat.le_add_right ..)))
  | depend left right ihl ihr =>
    simp only [run, Printer.depend, reach, ← Nat.add_assoc] at room ⊢
    have column' := ihl (room.mono (Nat.le_add_right ..)) column base
    split
    · exact ihr room column' (left.indent_zone cfg base)
    · exact ihr (p := (left.run cfg p).setIndent (left.run cfg p).column) room column' column'
  | attempt fit trial fallback iht ihf =>
    rw [reach] at room ⊢
    rw [run_attempt]
    split
    · exact (iht (room.mono (by omega)) column base).widen (by omega)
    · exact (ihf (room.mono (by omega)) column base).widen (by omega)
  | byHead head short long ihh ihs ihl =>
    rw [reach] at room ⊢
    have column' := ihh (room.mono (by omega)) column base
    have base' := head.indent_zone cfg base
    rw [run_byHead]
    split
    · exact (ihs (room.mono (by omega)) column' base').widen (by omega)
    · exact (ihl (room.mono (by omega)) column' base').widen (by omega)
  | hang body ih =>
    rw [reach, ← Nat.add_assoc] at room ⊢
    exact ih (p := p.space.setIndent (p.column + 1)) room (write_zone " " column base)
      (column.right 1)
  | resume first rest ihf ihr =>
    rw [reach] at room ⊢
    have column' := ihf (room.mono (by omega)) column base
    have start : Zone near far slack p.effectiveColumn := by
      unfold effectiveColumn
      split
      · exact base
      · exact column
    rw [← Nat.add_assoc, ← Nat.add_assoc] at room ⊢
    refine ihr (p := (first.run cfg p).setIndent (cfg.stepFrom p.effectiveColumn)) room
      (column'.widen (Nat.le_add_right ..)) ?_
    exact (start.stepFrom (room.mono (by omega))).widen (by omega)

end

/-! ## Positions past the limit -/

namespace Layout

variable {l left right : Layout} {cfg : Config} {p : Printer}

theorem reach_append (cfg : Config) (first second : Layout) :
    (first ++ second).reach cfg = first.reach cfg + second.reach cfg := rfl

/-- What starts near the base stays near it. -/
theorem run_column_le (l : Layout) (cfg : Config) {near : Nat} (column : p.column ≤ near)
    (base : p.indent ≤ near) : (l.run cfg p).column ≤ near + l.reach cfg := by
  have zone : Zone near none (0 + l.reach cfg) (l.run cfg p).column :=
    l.run_zone cfg nofun (.inl column) (.inl base)
  obtain close | ⟨bound, given, -⟩ := zone
  · rwa [Nat.zero_add] at close
  · cases given

/-- The base does not move, so it is within reach of itself. -/
theorem run_indent_le (l : Layout) (cfg : Config) (p : Printer) :
    (l.run cfg p).indent ≤ p.indent + l.reach cfg := by
  rw [run_indent]
  exact Nat.le_add_right ..

/-- A run that starts further from the largest width than it reaches forms no sum past it. -/
theorem inRange_of_reach (cfg : Config) (l : Layout) {near : Nat} (column : p.column ≤ near)
    (base : p.indent ≤ near) (room : near + l.reach cfg ≤ maxWidth) : l.InRange cfg p := by
  induction l generalizing p near with
  | text content =>
    exact Nat.le_trans (Nat.add_le_add_right (effectiveColumn_le column base) _) room
  | newline => trivial
  | seq first second ihf ihs =>
    rw [reach] at room
    have base' := Nat.le_trans (first.run_indent_le cfg p) (Nat.add_le_add_right base _)
    exact ⟨ihf column base (by omega), ihs (first.run_column_le cfg column base) base' (by omega)⟩
  | shift delta body ih =>
    rw [reach, ← Nat.add_assoc] at room
    refine ⟨by omega, ih (Nat.le_add_right_of_le column) ?_ room⟩
    show shifted p.indent delta ≤ near + delta.natAbs
    unfold shifted
    omega
  | step body ih =>
    rw [reach, ← Nat.add_assoc] at room
    have base' := Nat.le_trans (cfg.stepFrom_le p.indent) (Nat.add_le_add_right base _)
    exact ⟨by omega, ih (p := p.setIndent (cfg.stepFrom p.indent)) (Nat.le_add_right_of_le column)
      base' room⟩
  | depend left right ihl ihr =>
    rw [reach, ← Nat.add_assoc] at room
    have column' := left.run_column_le cfg column base
    refine ⟨ihl column base (by omega), ihr ?_ ?_ room⟩
    · unfold dependBase
      split <;> exact column'
    · unfold dependBase
      split
      · exact Nat.le_trans (left.run_indent_le cfg p) (Nat.add_le_add_right base _)
      · exact column'
  | attempt fit trial fallback iht ihf =>
    rw [reach] at room
    exact ⟨iht column base (by omega), fun _ => ihf column base (by omega)⟩
  | byHead head short long ihh ihs ihl =>
    rw [reach] at room
    have column' := head.run_column_le cfg column base
    have base' := Nat.le_trans (head.run_indent_le cfg p) (Nat.add_le_add_right base _)
    exact ⟨ihh column base (by omega), fun _ => ihs column' base' (by omega),
      fun _ => ihl column' base' (by omega)⟩
  | hang body ih =>
    rw [reach] at room
    have written := (text " ").run_column_le cfg column base
    have start := effectiveColumn_le column base
    exact ⟨by omega, ih (p := p.space.setIndent (p.column + 1)) written
      (Nat.succ_le_succ column) (Nat.le_trans (Nat.le_of_eq (Nat.add_assoc ..)) room)⟩
  | resume first rest ihf ihr =>
    rw [reach] at room
    have start := effectiveColumn_le column base
    have column' := first.run_column_le cfg column base
    have base' := cfg.stepFrom_le p.effectiveColumn
    have last : near + (first.reach cfg + cfg.indentSpaces) + rest.reach cfg ≤ maxWidth := by
      omega
    exact ⟨ihf column base (by omega), by omega,
      ihr (p := (first.run cfg p).setIndent (cfg.stepFrom p.effectiveColumn))
        (Nat.le_trans column' (by omega)) (Nat.le_trans base' (by omega)) last⟩

theorem FarPast.mono (h : right.FarPast cfg p) (le : left.reach cfg ≤ right.reach cfg) :
    left.FarPast cfg p := by
  obtain ⟨inLine, near, far, room⟩ := h
  exact ⟨inLine, by omega, by omega, by omega⟩

/-- A text in front leaves the position far past the limit. -/
theorem FarPast.text_seq {content : String} (oneLine : '\n' ∉ content.toList)
    (h : (Layout.text content ++ l).FarPast cfg p) : l.FarPast cfg (p.write content) := by
  obtain ⟨inLine, near, far, room⟩ := h
  rw [reach_append, reach] at near far room
  rw [write_of_inLine inLine oneLine]
  exact ⟨inLine, by simp only; omega, by simp only; omega, by simp only; omega⟩

/-- From far past the limit, only what falls back ends within it. -/
theorem FarPast.fallsBack (h : l.FarPast cfg p)
    (within : (l.run cfg p).column ≤ cfg.columnLimit) : l.FallsBack cfg p := by
  obtain ⟨inLine, near, far, room⟩ := h
  refine ⟨fun stays => ?_, ?_⟩
  · have width := stays.lineWidth_le
    rw [lineWidth_of_inLine inLine] at width
    have measured := (l.run cfg p).lineWidth_le_column
    omega
  · have left : Leaves (some p.column) (0 + l.reach cfg) := by
      rintro bound ⟨⟩
      rwa [Nat.zero_add]
    have zone : Zone p.indent (some p.column) (0 + l.reach cfg) (l.run cfg p).column :=
      l.run_zone cfg left (.inr ⟨p.column, rfl, Nat.le_refl _, Nat.le_refl _⟩)
        (.inl (Nat.le_refl _))
    obtain close | ⟨bound, given, away, -⟩ := zone
    · rwa [Nat.zero_add] at close
    · cases given
      omega

namespace FallsBack

theorem of_run (h : left.FallsBack cfg p) (run : right.run cfg p = left.run cfg p)
    (le : left.reach cfg ≤ right.reach cfg) : right.FallsBack cfg p := by
  obtain ⟨ends, column⟩ := h
  unfold FallsBack Stays at *
  rw [run]
  exact ⟨ends, by omega⟩

theorem seq (h : left.FallsBack cfg p) (right : Layout) : (left ++ right).FallsBack cfg p := by
  refine ⟨fun stays => h.1 (seq_stays.mp stays).1, ?_⟩
  have column := right.run_column_le cfg h.2 (left.run_indent_le cfg p)
  rwa [Nat.add_assoc] at column

theorem depend (h : left.FallsBack cfg p) (right : Layout) :
    (Layout.depend left right).FallsBack cfg p := by
  refine ⟨fun stays => h.1 (depend_stays.mp stays).1, ?_⟩
  have based : (p.dependBase (left.run cfg p)).column ≤ p.indent + left.reach cfg ∧
      (p.dependBase (left.run cfg p)).indent ≤ p.indent + left.reach cfg := by
    unfold dependBase
    split
    · exact ⟨h.2, left.run_indent_le cfg p⟩
    · exact ⟨h.2, h.2⟩
  have column := right.run_column_le cfg based.1 based.2
  rw [Nat.add_assoc] at column
  rw [run_depend]
  exact column

theorem text_seq {content : String} (h : l.FallsBack cfg (p.write content)) :
    (Layout.text content ++ l).FallsBack cfg p := by
  obtain ⟨ends, column⟩ := h
  have base : (p.write content).indent = p.indent := (Layout.text content).run_indent cfg p
  rw [base] at column
  refine ⟨fun stays => ends (seq_stays.mp stays).2, Nat.le_trans column ?_⟩
  exact Nat.add_le_add_left (Nat.le_add_left ..) _

/-- The end of a line falls back to the base. -/
theorem newline (left : Layout) (cfg : Config) (p : Printer) :
    (left ++ Layout.newline).FallsBack cfg p := by
  refine ⟨fun stays => ?_, Nat.zero_le _⟩
  have ended : (left.run cfg p).line + 1 = (left.run cfg p).line := (seq_stays.mp stays).2
  omega

end FallsBack

end Layout

end TrialLayout
