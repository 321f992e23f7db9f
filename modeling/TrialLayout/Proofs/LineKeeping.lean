import TrialLayout.Proofs.FlatLine
import TrialLayout.Proofs.LimitStability
import TrialLayout.Proofs.Position

/-!
# Which expressions keep the line

An expression is called flat when its shape is meant to guarantee that it can be kept on one
line. Operators and bodies rely on this: they keep a flat part without asking whether it stayed
on the line. The guarantee fails in one place. The shape of a lambda is judged by its body, but
its parameters are rendered too, and a parameter may end a line however wide the limit is
(`flat_lambda_breaks`): an application ends one as soon as two of its arguments are not flat.

* `Expr.keepsLine`: the shapes that stay on the line under all thresholds, as long as the column
  limit is not reached (`Layout.KeepsLine`). All others end a line, inside a line and under every
  column limit, as soon as no head is short and no trial small (`Layout.GivesWay`).
* `Layout.Rated`: one of the two holds, and a flag tells which. Each way of putting layouts
  together has one lemma that rates the whole by its parts, and `Expr.rated` goes through all
  trees with them.

Result: `flat_keeps_line`, by which a flat expression keeps the line exactly if its lambda
parameters do, at every depth.
-/

namespace TrialLayout

open Printer Text

/-! ## Shapes -/

/-- Types that stand on the line of their signature even if no type is small. -/
def Ty.keepsLine : Ty → Bool
  | quantified [] [] body => body.arrows.length ≤ 1
  | quantified .. => false
  | t => t.arrows.length ≤ 1

mutual

/-- Expressions that stay on the line while the column limit is not reached. As a part of a
`spine` only the head and the arguments of an application count; by itself it is tried on the
line of its head only if it has one argument or all its arguments are flat. -/
def Expr.keepsLine (spine : Bool) : Expr → Bool
  | .var _ | .con _ | .int _ | .frac _ | .char _ | .string _ | .varQuote _ | .typeQuote _ => true
  | .wildcard => true
  | .app func arg =>
      (func.keepsLine true && arg.keepsLine false) &&
        (spine || func.args.isEmpty || (func.args ++ [arg]).all Expr.isFlat)
  | .binary left _ right =>
      (left.isFlat && right.isFlat) && (left.keepsLine false && right.keepsLine false)
  | .neg operand => operand.keepsLine false
  | .leftSection operand _ => operand.keepsLine false
  | .rightSection _ operand => operand.keepsLine false
  | .lambda params body => Expr.keepLine params && (body.isFlat && body.keepsLine false)
  | .tuple _ items => Expr.keepLine items
  | .list items => Expr.keepLine items
  | .paren inner => inner.keepsLine false
  | .cond condition yes no =>
      condition.keepsLine false && yes.keepsLine false && no.keepsLine false
  | .caseOf scrutinee alts => scrutinee.keepsLine false && alts.isEmpty
  | .block stmts => Stmt.keepLine stmts && stmts.length ≤ 1
  | .letIn .. => false
  | .record _ fields => Field.keepLine fields
  | .update record fields => record.keepsLine false && Field.keepLine fields
  | .annot expr _ => expr.keepsLine false

/-- Several expressions that all keep the line. -/
def Expr.keepLine : List Expr → Bool
  | [] => true
  | e :: rest => e.keepsLine false && Expr.keepLine rest

/-- Right-hand sides that keep the line: a flat body, or no branch at all. -/
def Rhs.keepsLine : Rhs → Bool
  | .plain body => body.isFlat && body.keepsLine false
  | .guarded branches => branches.isEmpty

/-- Statements that keep the line. -/
def Stmt.keepsLine : Stmt → Bool
  | .bind pattern expr => pattern.keepsLine false && (expr.isFlat && expr.keepsLine false)
  | .expr expr => expr.keepsLine false
  | .decls decls => Decl.keepLine decls && decls.length ≤ 1

/-- Several statements that all keep the line. -/
def Stmt.keepLine : List Stmt → Bool
  | [] => true
  | s :: rest => s.keepsLine && Stmt.keepLine rest

/-- Declarations that keep the line. -/
def Decl.keepsLine : Decl → Bool
  | .signature _ type => type.keepsLine
  | .function _ params rhs => Expr.keepLine params && rhs.keepsLine
  | .pattern pattern rhs => pattern.keepsLine false && rhs.keepsLine

/-- Several declarations that all keep the line. -/
def Decl.keepLine : List Decl → Bool
  | [] => true
  | d :: rest => d.keepsLine && Decl.keepLine rest

/-- Record fields that keep the line: those with a flat value. -/
def Field.keepsLine : Field → Bool
  | .mk _ value => value.isFlat && value.keepsLine false

/-- Several record fields that all keep the line. -/
def Field.keepLine : List Field → Bool
  | [] => true
  | f :: rest => f.keepsLine && Field.keepLine rest

end

/-! ## Definitions -/

/-- Thresholds under which no head is short and no trial small. -/
def Config.Strict (cfg : Config) : Prop := cfg.shortName = 0 ∧ cfg.smallColumnLimit = 0

namespace Layout

/-- No state that the run passes through, inside its trials included, is past the column limit,
and the limit is a width that a column can have. -/
structure Unreached (l : Layout) (cfg : Config) (s : Nested) : Prop where
  columns : ∀ t ∈ l.trace cfg s, t.printer.column ≤ cfg.columnLimit
  width : cfg.columnLimit ≤ maxWidth

/-- While the column limit is not reached, the layout stays on the line. -/
def KeepsLine (l : Layout) : Prop := ∀ cfg s, l.Unreached cfg s → l.Stays cfg s.printer

/-- Under strict thresholds, and whatever the column limit is, the layout ends a line when it is
run inside one. -/
def GivesWay (l : Layout) : Prop :=
  ∀ cfg p, cfg.Strict → p.atLineStart = false → ¬l.Stays cfg p

/-- The flag tells whether the layout keeps the line or gives way. -/
structure Rated (keeps : Bool) (l : Layout) : Prop where
  keepsLine : keeps = true → l.KeepsLine
  givesWay : keeps = false → l.GivesWay

/-- The flag tells whether all layouts keep the line or some gives way. -/
structure RatedAll (keeps : Bool) (items : List Layout) : Prop where
  keepLine : keeps = true → ∀ item ∈ items, item.KeepsLine
  givesWay : keeps = false → ∃ item ∈ items, item.GivesWay

variable {a b : Bool} {l left right : Layout} {items : List Layout}

/-! ## Layouts that keep the line -/

/-- The limit is not reached in a part either. -/
theorem Unreached.part {m : Layout} {cfg : Config} {s t : Nested} (h : l.Unreached cfg s)
    (sub : ∀ x ∈ m.trace cfg t, x ∈ l.trace cfg s) : m.Unreached cfg t :=
  ⟨fun x mem => h.columns x (sub x mem), h.width⟩

/-- Nor at the end of a trial. -/
theorem Unreached.trial_le {cfg : Config} {s : Nested} (h : l.Unreached cfg s.enter) :
    (l.run cfg s.printer).column ≤ cfg.columnLimit := by
  rw [← l.trial_column cfg s.printer]
  exact h.columns _ (l.run_mem_trace cfg s.enter)

namespace KeepsLine

theorem text {content : String} (oneLine : OneLine content) : (Layout.text content).KeepsLine :=
  fun _ s _ => s.printer.write_stays oneLine

theorem seq (hl : left.KeepsLine) (hr : right.KeepsLine) : (left ++ right).KeepsLine := by
  intro cfg s room
  refine seq_stays.mpr ⟨hl cfg s (room.part fun _ => List.mem_append_left _), ?_⟩
  exact hr cfg (s.after (left.run cfg)) (room.part fun _ => List.mem_append_right _)

theorem shift (delta : Int) (h : l.KeepsLine) : (Layout.shift delta l).KeepsLine :=
  fun cfg s room => h cfg (s.after fun p => p.setIndent (shifted p.indent delta))
    (room.part fun _ mem => List.mem_append_left _ (List.mem_cons_of_mem _ mem))

theorem step (h : l.KeepsLine) : (Layout.step l).KeepsLine :=
  fun cfg s room => h cfg (s.after fun p => p.setIndent (cfg.stepFrom p.indent))
    (room.part fun _ mem => List.mem_append_left _ (List.mem_cons_of_mem _ mem))

theorem depend (hl : left.KeepsLine) (hr : right.KeepsLine) :
    (Layout.depend left right).KeepsLine := by
  intro cfg s room
  refine depend_stays.mpr ⟨hl cfg s (room.part fun _ mem => ?_), ?_⟩
  · exact List.mem_append_left _ (List.mem_append_left _ mem)
  · exact hr cfg (s.after fun p => p.dependBase (left.run cfg p))
      (room.part fun _ mem => List.mem_append_left _ (List.mem_append_right _ mem))

theorem hang (h : l.KeepsLine) : (Layout.hang l).KeepsLine := by
  intro cfg s room
  refine hang_stays.mpr (h cfg (s.after fun p => p.space.setIndent (p.column + 1))
    (room.part fun _ mem => List.mem_append_left _ ?_))
  exact List.mem_cons_of_mem _ (List.mem_cons_of_mem _ mem)

/-- A trial that keeps the line does so where it is made. -/
theorem trial_stays {fit : Fit} {cfg : Config} {s : Nested} (h : left.KeepsLine)
    (room : (Layout.attempt fit left right).Unreached cfg s) :
    left.Stays cfg s.printer ∧ (left.run cfg s.printer).column ≤ cfg.columnLimit := by
  have inner : left.Unreached cfg s.enter :=
    room.part fun _ mem => List.mem_append_left _ (List.mem_cons_of_mem _ mem)
  exact ⟨stays_snapshot.mp (h cfg s.enter inner), inner.trial_le⟩

/-- A trial that is kept decides. -/
theorem attempt_of_accepts {fit : Fit} (h : left.KeepsLine)
    (kept : ∀ cfg p, cfg.columnLimit ≤ maxWidth → left.Stays cfg p →
      (left.run cfg p).column ≤ cfg.columnLimit → fit.accepts cfg (p.trial (left.run cfg)) = true) :
    (Layout.attempt fit left right).KeepsLine := by
  intro cfg s room
  obtain ⟨stays, column⟩ := h.trial_stays room
  rw [Stays, run_attempt, if_pos (kept cfg s.printer room.width stays column)]
  exact stays

theorem attempt_limited {fit : Fit} (limited : fit.isLimited = true) (h : left.KeepsLine)
    (right : Layout) : (Layout.attempt fit left right).KeepsLine := by
  refine h.attempt_of_accepts fun cfg p _ stays column => ?_
  cases fit with
  | line => exact (left.accepts_line_iff cfg p).mpr ⟨stays, column⟩
  | within => exact (left.accepts_within_iff cfg p).mpr column
  | small | stack => cases limited

/-- One line that is within the limit is within the tolerant limit. -/
theorem attempt_stack (h : left.KeepsLine) (right : Layout) :
    (Layout.attempt (.stack 1) left right).KeepsLine := by
  refine h.attempt_of_accepts fun cfg p width stays column => ?_
  have tolerant : (left.run cfg p).lineWidth ≤ cfg.tolerantLimit := by
    have := (left.run cfg p).lineWidth_le_column
    unfold Config.tolerantLimit
    omega
  have line : (p.trial (left.run cfg)).candidate.line = (p.trial (left.run cfg)).start.line := by
    rw [trial_line]
    exact stays
  simp [Fit.accepts, lineEnds_of_stays stays, line, tolerant]

/-- Where both renderings keep the line, it does not matter which is taken. -/
theorem attempt {fit : Fit} (hl : left.KeepsLine) (hr : right.KeepsLine) :
    (Layout.attempt fit left right).KeepsLine := by
  intro cfg s room
  by_cases accepted : fit.accepts cfg (s.printer.trial (left.run cfg)) = true
  · rw [Stays, run_attempt, if_pos accepted]
    exact (hl.trial_stays room).1
  · rw [Stays, run_attempt, if_neg accepted]
    refine hr cfg s (room.part fun _ mem => List.mem_append_right _ ?_)
    rwa [if_neg accepted]

theorem byHead {head : Layout} (hh : head.KeepsLine) (hs : left.KeepsLine)
    (hl : right.KeepsLine) : (Layout.byHead head left right).KeepsLine := by
  intro cfg s room
  have settled : (s.after fun p => p.commit (p.trial (head.run cfg)).candidate) =
      s.after (head.run cfg) := by
    simp only [Nested.after, (head.run_positional cfg).commit_trial]
  have first : head.Unreached cfg s.enter :=
    room.part fun _ mem => List.mem_append_left _ (List.mem_cons_of_mem _ mem)
  refine byHead_stays.mpr ⟨stays_snapshot.mp (hh cfg s.enter first), ?_⟩
  split
  · next isShort =>
    refine hs cfg (s.after (head.run cfg)) (room.part fun _ mem => List.mem_append_right _ ?_)
    rwa [if_pos isShort, settled]
  · next isLong =>
    refine hl cfg (s.after (head.run cfg)) (room.part fun _ mem => List.mem_append_right _ ?_)
    rwa [if_neg isLong, settled]

theorem joined {separator : Layout} (hs : separator.KeepsLine)
    (h : ∀ item ∈ items, item.KeepsLine) : (Layout.joined separator items).KeepsLine := by
  induction items with
  | nil => exact text (by decide)
  | cons item rest ih =>
    rw [List.forall_mem_cons] at h
    cases rest with
    | nil => exact h.1
    | cons second more => exact (h.1.seq hs).seq (ih h.2)

/-- Up to one item, nothing stands between the items. -/
theorem lined (h : ∀ item ∈ items, item.KeepsLine) (single : items.length ≤ 1) :
    (Layout.lined items).KeepsLine := by
  match items with
  | [] => exact text (by decide)
  | [item] => exact h item List.mem_cons_self

theorem stacked {lead : String} (h : ∀ item ∈ items, item.KeepsLine) (single : items.length ≤ 1) :
    (Layout.stacked lead items).KeepsLine := by
  match items with
  | [] => exact text (by decide)
  | [item] => exact (h item List.mem_cons_self).seq (.shift _ (.text (by decide)))

end KeepsLine

/-! ## Layouts that give way -/

namespace GivesWay

theorem of_endsLine (h : l.EndsLine) : l.GivesWay := fun cfg p _ _ => h cfg p

theorem seq_left (h : left.GivesWay) (right : Layout) : (left ++ right).GivesWay :=
  fun cfg p strict inLine stays => h cfg p strict inLine (seq_stays.mp stays).1

theorem seq_right (left : Layout) (h : right.GivesWay) : (left ++ right).GivesWay := by
  intro cfg p strict inLine stays
  obtain ⟨first, second⟩ := seq_stays.mp stays
  exact h cfg (left.run cfg p) strict (first.inLine inLine) second

theorem shift (delta : Int) (h : l.GivesWay) : (Layout.shift delta l).GivesWay :=
  fun cfg p => h cfg (p.setIndent (shifted p.indent delta))

theorem step (h : l.GivesWay) : (Layout.step l).GivesWay :=
  fun cfg p => h cfg (p.setIndent (cfg.stepFrom p.indent))

theorem depend_left (h : left.GivesWay) (right : Layout) : (Layout.depend left right).GivesWay :=
  fun cfg p strict inLine stays => h cfg p strict inLine (depend_stays.mp stays).1

theorem depend_right (left : Layout) (h : right.GivesWay) :
    (Layout.depend left right).GivesWay := by
  intro cfg p strict inLine stays
  obtain ⟨first, second⟩ := depend_stays.mp stays
  obtain ⟨base, based⟩ := dependBase_eq_setIndent p (left.run cfg p)
  rw [based] at second
  exact h cfg ((left.run cfg p).setIndent base) strict (first.inLine inLine) second

theorem hang (h : l.GivesWay) : (Layout.hang l).GivesWay := by
  intro cfg p strict _ stays
  have inLine : p.space.atLineStart = false := write_inLine p (by decide) (by decide)
  exact h cfg (p.space.setIndent (p.column + 1)) strict inLine (hang_stays.mp stays)

theorem attempt {fit : Fit} (hl : left.GivesWay) (hr : right.GivesWay) :
    (Layout.attempt fit left right).GivesWay := by
  intro cfg p strict inLine
  rw [Stays, run_attempt]
  split
  · exact hl cfg p strict inLine
  · exact hr cfg p strict inLine

/-- Under strict thresholds no trial is small. -/
theorem attempt_small (left : Layout) (h : right.GivesWay) :
    (Layout.attempt .small left right).GivesWay := by
  intro cfg p strict inLine
  have refused : ¬Fit.small.accepts cfg (p.trial (left.run cfg)) = true := by
    rw [accepts_small_iff, strict.2]
    exact fun small => absurd small.2 (Nat.not_lt_zero _)
  rw [Stays, run_attempt, if_neg refused]
  exact h cfg p strict inLine

/-- Under strict thresholds no head is short: inside a line it does not end left of its start. -/
theorem not_isShort {head : Layout} {cfg : Config} {p : Printer} (strict : cfg.Strict)
    (inLine : p.atLineStart = false) : ¬(p.trial (head.run cfg)).isShort cfg = true := by
  intro short
  rw [Trial.isShort, Bool.and_eq_true, isSingleLine_iff, trial_column, strict.1,
    decide_eq_true_eq] at short
  have width := short.1.lineWidth_le
  rw [lineWidth_of_inLine inLine, lineWidth_of_inLine (short.1.inLine inLine)] at width
  have start : (p.trial (head.run cfg)).start.effectiveColumn = p.column := by
    simp [Printer.trial, snapshot, effectiveColumn, inLine]
  rw [start] at short
  omega

theorem byHead_head {head : Layout} (h : head.GivesWay) (short long : Layout) :
    (Layout.byHead head short long).GivesWay :=
  fun cfg p strict inLine stays => h cfg p strict inLine (byHead_stays.mp stays).1

theorem byHead_long (head short : Layout) {long : Layout} (h : long.GivesWay) :
    (Layout.byHead head short long).GivesWay := by
  intro cfg p strict inLine stays
  obtain ⟨first, second⟩ := byHead_stays.mp stays
  rw [if_neg (not_isShort strict inLine)] at second
  exact h cfg (head.run cfg p) strict (first.inLine inLine) second

theorem joined (separator : Layout) (h : ∃ item ∈ items, item.GivesWay) :
    (Layout.joined separator items).GivesWay := by
  induction items with
  | nil => exact absurd h (by simp)
  | cons item rest ih =>
    rw [List.exists_mem_cons_iff] at h
    cases rest with
    | nil => exact h.resolve_right (by simp)
    | cons second more =>
      rcases h with first | later
      · exact (first.seq_left separator).seq_left _
      · exact (ih later).seq_right _

theorem stacked (lead : String) (h : ∃ item ∈ items, item.GivesWay) :
    (Layout.stacked lead items).GivesWay := by
  match items with
  | [] => exact absurd h (by simp)
  | [item] =>
    rw [List.exists_mem_cons_iff] at h
    exact (h.resolve_right (by simp)).seq_left _
  | item :: second :: rest => exact of_endsLine (.stacked (by simp))

end GivesWay

/-! ## Rating a layout by its parts -/

namespace RatedAll

theorem nil : RatedAll true [] :=
  ⟨fun _ _ mem => absurd mem List.not_mem_nil, fun h => by cases h⟩

theorem cons {item : Layout} (h : item.Rated a) (hs : RatedAll b items) :
    RatedAll (a && b) (item :: items) := by
  constructor
  · intro both
    obtain ⟨first, later⟩ := Bool.and_eq_true_iff.mp both
    exact List.forall_mem_cons.mpr ⟨h.keepsLine first, hs.keepLine later⟩
  · intro one
    rw [List.exists_mem_cons_iff]
    exact (Bool.and_eq_false_iff.mp one).imp h.givesWay hs.givesWay

end RatedAll

namespace Rated

theorem text {content : String} (oneLine : OneLine content) : (Layout.text content).Rated true :=
  ⟨fun _ => .text oneLine, fun h => by cases h⟩

theorem of_endsLine (h : l.EndsLine) : l.Rated false :=
  ⟨fun h => (by cases h), fun _ => .of_endsLine h⟩

theorem seq (hl : left.Rated a) (hr : right.Rated b) : (left ++ right).Rated (a && b) := by
  constructor
  · intro both
    obtain ⟨first, second⟩ := Bool.and_eq_true_iff.mp both
    exact (hl.keepsLine first).seq (hr.keepsLine second)
  · intro one
    rcases Bool.and_eq_false_iff.mp one with first | second
    · exact (hl.givesWay first).seq_left right
    · exact (hr.givesWay second).seq_right left

theorem depend (hl : left.Rated a) (hr : right.Rated b) :
    (Layout.depend left right).Rated (a && b) := by
  constructor
  · intro both
    obtain ⟨first, second⟩ := Bool.and_eq_true_iff.mp both
    exact (hl.keepsLine first).depend (hr.keepsLine second)
  · intro one
    rcases Bool.and_eq_false_iff.mp one with first | second
    · exact (hl.givesWay first).depend_left right
    · exact (hr.givesWay second).depend_right left

/-- A text in front, or a text behind, does not change the rating. -/
theorem text_seq {content : String} (oneLine : OneLine content) (h : l.Rated a) :
    (Layout.text content ++ l).Rated a := (text oneLine).seq h

theorem seq_text {content : String} (h : l.Rated a) (oneLine : OneLine content) :
    (l ++ Layout.text content).Rated a := by
  have rated := h.seq (text oneLine)
  rwa [Bool.and_true] at rated

theorem depend_text {content : String} (oneLine : OneLine content) (h : l.Rated a) :
    (Layout.depend (.text content) l).Rated a := (text oneLine).depend h

theorem shift (delta : Int) (h : l.Rated a) : (Layout.shift delta l).Rated a :=
  ⟨fun keeps => (h.keepsLine keeps).shift delta, fun gives => (h.givesWay gives).shift delta⟩

theorem step (h : l.Rated a) : (Layout.step l).Rated a :=
  ⟨fun keeps => (h.keepsLine keeps).step, fun gives => (h.givesWay gives).step⟩

theorem hang (h : l.Rated a) : (Layout.hang l).Rated a :=
  ⟨fun keeps => (h.keepsLine keeps).hang, fun gives => (h.givesWay gives).hang⟩

/-- A trial that is judged by the limit is kept if it keeps the line, and otherwise the fallback
has to give way as well. -/
theorem attempt_limited {fit : Fit} (limited : fit.isLimited = true) (h : left.Rated a)
    (hf : a = false → right.GivesWay) : (Layout.attempt fit left right).Rated a :=
  ⟨fun keeps => (h.keepsLine keeps).attempt_limited limited right,
    fun gives => (h.givesWay gives).attempt (hf gives)⟩

theorem joined {separator : String} (oneLine : OneLine separator) (h : RatedAll a items) :
    (Layout.joined (.text separator) items).Rated a :=
  ⟨fun keeps => .joined (.text oneLine) (h.keepLine keeps),
    fun gives => .joined _ (h.givesWay gives)⟩

/-- Items after one another, each with a space before it. -/
theorem concat_space (h : RatedAll a items) :
    (Layout.concat (items.map (Layout.space ++ ·))).Rated a := by
  constructor
  · intro keeps
    have parts := h.keepLine keeps
    clear h
    induction items with
    | nil => exact .text (by decide)
    | cons item rest ih =>
      rw [List.forall_mem_cons] at parts
      exact ((KeepsLine.text (by decide)).seq parts.1).seq (ih parts.2)
  · intro gives
    have part := h.givesWay gives
    clear h
    induction items with
    | nil => exact absurd part (by simp)
    | cons item rest ih =>
      rw [List.exists_mem_cons_iff] at part
      rcases part with first | later
      · exact (first.seq_right _).seq_left _
      · exact (ih later).seq_right _

theorem lined (h : RatedAll a items) :
    (Layout.lined items).Rated (a && decide (items.length ≤ 1)) := by
  constructor
  · intro both
    obtain ⟨keeps, single⟩ := Bool.and_eq_true_iff.mp both
    exact .lined (h.keepLine keeps) (of_decide_eq_true single)
  · intro one
    rcases Bool.and_eq_false_iff.mp one with gives | several
    · exact .joined _ (h.givesWay gives)
    · have := of_decide_eq_false several
      exact .of_endsLine (.lined (by omega))

/-- Below each other, whatever the items are: nothing, or the end of a line. -/
theorem underneath (items : List Layout) : (Layout.underneath items).Rated items.isEmpty := by
  cases items with
  | nil => exact text (by decide)
  | cons item rest => exact of_endsLine ((EndsLine.newline.seq_left _).seq_left _)

theorem row (h : RatedAll a items) : (Layout.row items).Rated a :=
  attempt_limited rfl (joined (by decide) h) fun gives => .stacked _ (h.givesWay gives)

theorem bracketed {opening closing : String} (ho : OneLine opening) (hc : OneLine closing)
    (h : RatedAll a items) : (Layout.bracketed opening closing items).Rated a :=
  depend_text ho ((row h).seq_text hc)

theorem bracketedWhole {opening closing : String} (ho : OneLine opening) (hc : OneLine closing)
    (h : RatedAll a items) : (Layout.bracketedWhole opening closing items).Rated a := by
  refine attempt_limited rfl (depend_text ho ((joined (by decide) h).seq_text hc)) fun gives => ?_
  exact .depend_right _ ((GivesWay.stacked _ (h.givesWay gives)).seq_left _)

/-- A body that is not flat is kept behind its separator only if that is small. -/
theorem attach {separator : String} (oneLine : OneLine separator) (flat : Bool) (h : l.Rated a) :
    (Layout.attach separator flat l).Rated (flat && a) := by
  cases flat with
  | true => exact depend_text oneLine h
  | false =>
    refine ⟨fun h => (by cases h), fun _ => .attempt_small _ (.of_endsLine ?_)⟩
    exact (EndsLine.seq_right _ .newline).seq_left _

/-- An operation that is not flat is broken. -/
theorem operation {flat : Bool} {op : String} {broken : Layout → Layout → Layout}
    (hends : ∀ {x y : Layout}, x.EndsLine → (broken x y).EndsLine) (oneLine : OneLine op)
    (hl : left.Rated a) (hr : right.Rated b) :
    (Layout.operation flat left op right broken).Rated (flat && (a && b)) := by
  have breaks : (broken (left ++ .space ++ .text op ++ .newline) right).EndsLine :=
    hends (.seq_right _ .newline)
  cases flat with
  | true =>
    have front := ((hl.seq_text (show OneLine " " by decide)).seq_text oneLine).seq_text
      (show OneLine " " by decide)
    exact attempt_limited rfl (front.depend hr) fun _ => .of_endsLine breaks
  | false => exact of_endsLine breaks

/-- An application keeps the line if its head and its arguments do and it is tried on the line of
the head, or has one argument only. -/
theorem application {head : Layout} {args : List Argument} (hh : head.Rated a)
    (h : RatedAll b (args.map (·.layout))) :
    (Layout.application head args).Rated
      (a && b && (decide (args.length ≤ 1) || args.all (·.flat))) := by
  have spaced := hang (joined (show OneLine " " by decide) h)
  have flat_iff : args.countP (!·.flat) = 0 ↔ args.all (·.flat) = true := by
    simp [List.countP_eq_zero]
  constructor
  · intro all
    obtain ⟨parts, tried⟩ := Bool.and_eq_true_iff.mp all
    obtain ⟨keepsHead, keepsArgs⟩ := Bool.and_eq_true_iff.mp parts
    have onLine (fallback : Layout) :
        (onHeadLine (args.map (·.layout)) fallback).KeepsLine :=
      (spaced.keepsLine keepsArgs).attempt_limited rfl fallback
    rcases Bool.or_eq_true_iff.mp tried with single | flat
    · have single : args.length ≤ 1 := of_decide_eq_true single
      have few : args.countP (!·.flat) < 2 := by
        have := List.countP_le_length (p := fun arg : Argument => !arg.flat) (l := args)
        omega
      refine (hh.keepsLine keepsHead).byHead ?_ ?_
      · rw [if_pos few]
        exact onLine _
      · split
        · exact onLine _
        · next some =>
          have one : args.length = 1 := by
            have := List.countP_le_length (p := fun arg : Argument => !arg.flat) (l := args)
            omega
          rw [one]
          have alone := KeepsLine.lined (h.keepLine keepsArgs) (by simpa using single)
          exact alone.hang.attempt_stack _
    · have none : args.countP (!·.flat) = 0 := flat_iff.mpr flat
      refine (hh.keepsLine keepsHead).byHead ?_ ?_
      · rw [if_pos (by omega)]
        exact onLine _
      · rw [if_pos none]
        exact onLine _
  · intro one
    have block : (Layout.newline ++ .step (.lined (args.map (·.layout)))).GivesWay :=
      .of_endsLine (EndsLine.newline.seq_left _)
    rcases Bool.and_eq_false_iff.mp one with parts | refused
    · rcases Bool.and_eq_false_iff.mp parts with givesHead | givesArgs
      · exact (hh.givesWay givesHead).byHead_head _ _
      · have hanging : (Layout.hang (.lined (args.map (·.layout)))).GivesWay :=
          (GivesWay.joined _ (h.givesWay givesArgs)).hang
        refine .byHead_long _ _ ?_
        split
        · exact (spaced.givesWay givesArgs).attempt (hanging.attempt block)
        · exact hanging.attempt block
    · obtain ⟨several, notFlat⟩ := Bool.or_eq_false_iff.mp refused
      have some : ¬args.countP (!·.flat) = 0 := by
        rw [flat_iff, notFlat]
        exact Bool.false_ne_true
      have two : 2 ≤ (args.map (·.layout)).length := by
        have := of_decide_eq_false several
        rw [List.length_map]
        omega
      refine .byHead_long _ _ ?_
      rw [if_neg some]
      exact (GivesWay.of_endsLine (EndsLine.lined two).hang).attempt block

end Rated

theorem RatedAll.append (h : RatedAll a items) {others : List Layout} (hs : RatedAll b others) :
    RatedAll (a && b) (items ++ others) := by
  constructor
  · intro both
    obtain ⟨first, later⟩ := Bool.and_eq_true_iff.mp both
    exact List.forall_mem_append.mpr ⟨h.keepLine first, hs.keepLine later⟩
  · intro one
    rcases Bool.and_eq_false_iff.mp one with first | later
    · obtain ⟨item, mem, gives⟩ := h.givesWay first
      exact ⟨item, List.mem_append_left _ mem, gives⟩
    · obtain ⟨item, mem, gives⟩ := hs.givesWay later
      exact ⟨item, List.mem_append_right _ mem, gives⟩

end Layout

open Layout (Rated RatedAll)

/-! ## Types -/

theorem Ty.chain_rated {t : Ty} (names : t.EveryName OneLine) :
    t.chain.Rated (decide (t.arrows.length ≤ 1)) := by
  have components : ∀ item ∈ t.arrows.map fun c => Layout.text c.inline, item.KeepsLine := by
    refine List.forall_mem_map.mpr fun c mem => .text ?_
    exact (c.inline_spells (t.arrows_everyName names c mem)).1
  constructor
  · intro single
    have single := of_decide_eq_true single
    exact (Layout.KeepsLine.text (t.inline_spells names).1).attempt
      (.stacked components (by rwa [List.length_map]))
  · intro several
    have several := of_decide_eq_false several
    exact .attempt_small _ (.of_endsLine (.stacked (by rw [List.length_map]; omega)))

theorem Ty.signatureLayout_rated {t : Ty} (names : t.EveryName OneLine) :
    t.signatureLayout.Rated t.keepsLine := by
  match t with
  | quantified [] [] body => exact .text_seq (by decide) (chain_rated names.2.2)
  | quantified (binder :: rest) [] body =>
    exact .of_endsLine ((Layout.EndsLine.seq_right _ .newline).seq_left _)
  | quantified binders (assertion :: rest) body =>
    have line : (binderLine binders ++ Layout.text (contextText (assertion :: rest)) ++
        Layout.newline).EndsLine := .seq_right _ .newline
    cases binders with
    | nil => exact .of_endsLine (line.seq_left _)
    | cons => exact .of_endsLine (line.seq_left _)
  | con _ | var _ | app .. | arrow .. | tuple .. | list _ | paren _ => exact chain_rated names

/-! ## Trees -/

/-- What `keepsLine` says of an expression: of the head and the arguments of its spine, of the
expression by itself and of the statement made of it. -/
structure Expr.IsRated (e : Expr) : Prop where
  spine : ∃ a b, e.keepsLine true = (a && b) ∧ e.head.layout.Rated a ∧
    RatedAll b (e.args.map Expr.layout)
  whole : e.layout.Rated (e.keepsLine false)
  statement : (Stmt.expr e).layout.Rated (e.keepsLine false)

namespace Expr.IsRated

variable {e : Expr}

theorem uniform {l : Layout} (forms : e.forms = .uniform l)
    (same : e.keepsLine true = e.keepsLine false) (h : l.Rated (e.keepsLine false)) :
    e.IsRated := by
  have whole : e.layout = l := by rw [layout, forms]; rfl
  have statement : (Stmt.expr e).layout = l := by rw [Stmt.layout, forms]; rfl
  have head : e.head = e ∧ e.args = [] := by
    cases e with
    | app func arg => cases forms
    | _ => exact ⟨rfl, rfl⟩
  refine ⟨⟨e.keepsLine false, true, ?_, ?_, ?_⟩, whole ▸ h, statement ▸ h⟩
  · rw [same, Bool.and_true]
  · rw [head.1, whole]
    exact h
  · rw [head.2]
    exact .nil

theorem app {func arg : Expr} (hf : func.IsRated) (ha : arg.IsRated) :
    (Expr.app func arg).IsRated := by
  obtain ⟨a, b, parts, head, args⟩ := hf.spine
  have all : RatedAll (b && arg.keepsLine false) ((func.args ++ [arg]).map Expr.layout) := by
    rw [List.map_append]
    refine args.append ?_
    rw [← Bool.and_true (arg.keepsLine false)]
    exact .cons ha.whole .nil
  have layouts : ((func.args ++ [arg]).map argument).map (·.layout) =
      (func.args ++ [arg]).map Expr.layout := by
    rw [List.map_map]
    rfl
  have whole : (Expr.app func arg).layout.Rated ((Expr.app func arg).keepsLine false) := by
    rw [← layouts] at all
    have single : decide (((func.args ++ [arg]).map argument).length ≤ 1) = func.args.isEmpty := by
      cases func.args <;> simp
    have flat : ((func.args ++ [arg]).map argument).all (·.flat) =
        (func.args ++ [arg]).all Expr.isFlat := by
      rw [List.all_map]
      rfl
    have rated := Rated.application head all
    rw [single, flat, ← Bool.and_assoc, ← parts] at rated
    rw [layout_app]
    exact rated
  refine ⟨⟨a, b && arg.keepsLine false, ?_, head, all⟩, whole, whole⟩
  rw [keepsLine, parts]
  simp [Bool.and_assoc]

theorem binary {left right : Expr} {op : Op String} (oneLine : OneLine op.spelling)
    (hl : left.IsRated) (hr : right.IsRated) : (Expr.binary left op right).IsRated := by
  have whole : (Expr.binary left op right).layout.Rated
      ((Expr.binary left op right).keepsLine false) :=
    .operation (fun h => h.seq_left _) oneLine hl.whole hr.whole
  have statement : (Stmt.expr (.binary left op right)).layout.Rated
      ((Expr.binary left op right).keepsLine false) :=
    .operation (fun h => h.resume _) oneLine hl.whole hr.whole
  exact ⟨⟨_, true, (Bool.and_true _).symm, whole, .nil⟩, whole, statement⟩

end Expr.IsRated

mutual

/-- Every expression keeps the line or gives way, as `keepsLine` says. -/
theorem Expr.rated : (e : Expr) → e.EveryName OneLine → e.IsRated
  | .var _, h | .con _, h | .frac _, h => .uniform rfl rfl (.text h)
  | .int value, _ => .uniform rfl rfl (.text (int_repr_oneLine value))
  | .char value, _ => .uniform rfl rfl (.text (charLiteral_oneLine value))
  | .string value, _ => .uniform rfl rfl (.text (stringLiteral_oneLine value))
  | .varQuote _, h | .typeQuote _, h => .uniform rfl rfl (.text (.append (by decide) h))
  | .wildcard, _ => .uniform rfl rfl (.text (by decide))
  | .app func arg, h => .app (func.rated h.1) (arg.rated h.2)
  | .binary left op right, h =>
      .binary (op.spelling_spells h.2.1).1 (left.rated h.1) (right.rated h.2.2)
  | .neg operand, h => .uniform rfl rfl (.text_seq (by decide) (operand.rated h).whole)
  | .leftSection operand op, h => by
      have spaced := (operand.rated h.1).whole.seq_text (show OneLine " " by decide)
      have applied := (spaced.seq_text (op.spelling_spells h.2).1).seq_text
        (show OneLine ")" by decide)
      exact .uniform rfl rfl (.depend_text (by decide) applied)
  | .rightSection op operand, h => by
      have front : (Layout.text "(" ++ .text op.spelling ++ .space).Rated true :=
        ((Rated.text (by decide)).seq_text (op.spelling_spells h.1).1).seq_text (by decide)
      have back := (operand.rated h.2).whole.seq_text (show OneLine ")" by decide)
      exact .uniform rfl rfl (front.depend back)
  | .lambda params body, h => by
      have bound := Rated.joined (show OneLine " " by decide) (Expr.layouts_rated params h.1)
      have attached := Rated.attach (show OneLine " -> " by decide) body.isFlat
        ((body.rated h.2).whole.shift 1)
      exact .uniform rfl rfl (.depend_text (by decide) (bound.seq attached))
  | .tuple boxity items, h => by
      refine .uniform rfl rfl ?_
      cases items with
      | nil => exact .text (by cases boxity <;> decide)
      | cons first rest =>
        exact .bracketed (by cases boxity <;> decide) (by cases boxity <;> decide)
          (Expr.layouts_rated (first :: rest) h)
  | .list items, h => by
      refine .uniform rfl rfl ?_
      cases items with
      | nil => exact .text (by decide)
      | cons first rest =>
        exact .bracketedWhole (by decide) (by decide) (Expr.layouts_rated (first :: rest) h)
  | .paren inner, h =>
      .uniform rfl rfl (.depend_text (by decide) ((inner.rated h).whole.seq_text (by decide)))
  | .cond condition yes no, h => by
      have tested : (Layout.text "if " ++ condition.layout ++ .text " then ").Rated
          (condition.keepsLine false) :=
        (Rated.text_seq (by decide) (condition.rated h.1).whole).seq_text (by decide)
      have chosen := (tested.seq (yes.rated h.2.1).whole).seq_text (show OneLine " else " by decide)
      refine .uniform rfl rfl (.attempt_limited rfl (chosen.seq (no.rated h.2.2).whole) fun _ => ?_)
      exact .of_endsLine (.depend_right _ ((Layout.EndsLine.seq_right _ .newline).seq_left _))
  | .caseOf scrutinee alts, h => by
      have head := (Rated.depend_text (show OneLine "case " by decide)
        (scrutinee.rated h.1).whole).seq_text (show OneLine " of" by decide)
      have below := (Rated.underneath (Alt.layouts alts)).step
      rw [Alt.layouts_eq_map, List.isEmpty_map, ← Alt.layouts_eq_map] at below
      exact .uniform rfl rfl (head.seq below)
  | .block stmts, h => by
      have lines := Rated.lined (Stmt.layouts_rated stmts h)
      rw [Stmt.layouts_eq_map, List.length_map, ← Stmt.layouts_eq_map] at lines
      exact .uniform rfl rfl (.depend_text (by decide) lines)
  | .letIn _ _, _ =>
      .uniform rfl rfl (.of_endsLine ((Layout.EndsLine.seq_right _ .newline).seq_left _))
  | .record _ fields, h => .uniform rfl rfl ((Rated.text h.1).seq_text (by decide) |>.seq
      (.bracketed (by decide) (by decide) (Field.layouts_rated fields h.2)))
  | .update record fields, h =>
      .uniform rfl rfl (((record.rated h.1).whole.seq_text (by decide)).seq
        (.bracketed (by decide) (by decide) (Field.layouts_rated fields h.2)))
  | .annot expr type, h => by
      have front := (expr.rated h.1).whole.seq_text (show OneLine " :: " by decide)
      have rated := front.depend (Rated.text (type.inline_spells h.2).1)
      rw [Bool.and_true] at rated
      exact .uniform rfl rfl rated

theorem Expr.layouts_rated : (es : List Expr) → Expr.EveryNameIn OneLine es →
    RatedAll (Expr.keepLine es) (Expr.layouts es)
  | [], _ => .nil
  | e :: rest, h => .cons (e.rated h.1).whole (Expr.layouts_rated rest h.2)

theorem Rhs.layout_rated {separator : String} (oneLine : OneLine separator) :
    (r : Rhs) → r.EveryName OneLine → (r.layout separator).Rated r.keepsLine
  | .plain body, h => .step (.attach oneLine body.isFlat (body.rated h).whole)
  | .guarded branches, _ => by
      have below := (Rated.underneath (Branch.layouts separator branches)).step
      rw [Branch.layouts_eq_map, List.isEmpty_map, ← Branch.layouts_eq_map] at below
      exact below

theorem Stmt.layout_rated : (s : Stmt) → s.EveryName OneLine → s.layout.Rated s.keepsLine
  | .bind pattern expr, h =>
      (pattern.rated h.1).whole.seq (.step (.attach (by decide) expr.isFlat (expr.rated h.2).whole))
  | .expr expr, h => (expr.rated h).statement
  | .decls decls, h => by
      have lines := Rated.lined (Decl.layouts_rated decls h)
      rw [Decl.layouts_eq_map, List.length_map, ← Decl.layouts_eq_map] at lines
      exact .depend_text (by decide) lines

theorem Stmt.layouts_rated : (ss : List Stmt) → Stmt.EveryNameIn OneLine ss →
    RatedAll (Stmt.keepLine ss) (Stmt.layouts ss)
  | [], _ => .nil
  | s :: rest, h => .cons (s.layout_rated h.1) (Stmt.layouts_rated rest h.2)

theorem Decl.layout_rated : (d : Decl) → d.EveryName OneLine → d.layout.Rated d.keepsLine
  | .signature names type, h => by
      have left : OneLine (", ".intercalate names ++ " :: ") :=
        (OneLine.intercalate (by decide) h.1).append (by decide)
      exact .depend_text left (Ty.signatureLayout_rated h.2)
  | .function name params rhs, h => by
      have bound := Rated.concat_space (Expr.layouts_rated params h.2.1)
      exact (Rated.text_seq h.1 bound).seq (rhs.layout_rated (by decide) h.2.2)
  | .pattern pattern rhs, h => (pattern.rated h.1).whole.seq (rhs.layout_rated (by decide) h.2)

theorem Decl.layouts_rated : (ds : List Decl) → Decl.EveryNameIn OneLine ds →
    RatedAll (Decl.keepLine ds) (Decl.layouts ds)
  | [], _ => .nil
  | d :: rest, h => .cons (d.layout_rated h.1) (Decl.layouts_rated rest h.2)

theorem Field.layout_rated : (f : Field) → f.EveryName OneLine → f.layout.Rated f.keepsLine
  | .mk _ value, h => .text_seq h.1 (.attach (by decide) value.isFlat (value.rated h.2).whole)

theorem Field.layouts_rated : (fs : List Field) → Field.EveryNameIn OneLine fs →
    RatedAll (Field.keepLine fs) (Field.layouts fs)
  | [], _ => .nil
  | f :: rest, h => .cons (f.layout_rated h.1) (Field.layouts_rated rest h.2)

end

/-! ## Flat expressions -/

theorem Expr.keepLine_iff {es : List Expr} :
    Expr.keepLine es = true ↔ ∀ e ∈ es, e.keepsLine false = true := by
  induction es with
  | nil => simp [Expr.keepLine]
  | cons e rest ih => rw [Expr.keepLine, Bool.and_eq_true, ih, List.forall_mem_cons]

/-- A flat expression keeps the line if its lambda parameters do. The recursion goes down the
parts that flatness looks at, and meets the parameters on the way. -/
theorem Expr.keepsLine_of_isFlat : (e : Expr) → e.isFlat = true →
    (∀ q ∈ e.lambdaParams, q.keepsLine false = true) → e.keepsLine false = true
  | .var _, _, _ | .con _, _, _ | .int _, _, _ | .frac _, _, _ | .char _, _, _ | .string _, _, _
  | .varQuote _, _, _ | .typeQuote _, _, _ | .wildcard, _, _ => rfl
  | .list [], _, _ => rfl
  | .app func arg, flat, _ => by
      obtain ⟨reference, reference'⟩ := Bool.and_eq_true_iff.mp flat
      cases func with
      | var | con =>
        cases arg with
        | var | con => rfl
        | _ => cases reference'
      | _ => cases reference
  | .binary left _ right, flat, params => by
      obtain ⟨flatLeft, flatRight⟩ := Bool.and_eq_true_iff.mp flat
      obtain ⟨inLeft, inRight⟩ := List.forall_mem_append.mp params
      have first := left.keepsLine_of_isFlat flatLeft inLeft
      have second := right.keepsLine_of_isFlat flatRight inRight
      simp [keepsLine, flatLeft, flatRight, first, second]
  | .neg operand, flat, params => operand.keepsLine_of_isFlat flat params
  | .leftSection operand _, flat, params => operand.keepsLine_of_isFlat flat params
  | .rightSection _ operand, flat, params => operand.keepsLine_of_isFlat flat params
  | .paren inner, flat, params => inner.keepsLine_of_isFlat flat params
  | .lambda params body, flat, all => by
      obtain ⟨outer, inBody⟩ := List.forall_mem_append.mp all
      have bound : Expr.keepLine params = true :=
        keepLine_iff.mpr (List.forall_mem_append.mp outer).1
      have flat : body.isFlat = true := flat
      simp [keepsLine, bound, flat, body.keepsLine_of_isFlat flat inBody]

mutual

/-- What keeps the line has only lambda parameters that do. -/
theorem Expr.lambdaParams_keepLine : (e : Expr) → (spine : Bool) → e.keepsLine spine = true →
    ∀ q ∈ e.lambdaParams, q.keepsLine false = true
  | .var _, _, _ | .con _, _, _ | .int _, _, _ | .frac _, _, _ | .char _, _, _ | .string _, _, _
  | .varQuote _, _, _ | .typeQuote _, _, _ | .wildcard, _, _ | .tuple .., _, _ | .list _, _, _
  | .cond .., _, _ | .caseOf .., _, _ | .block _, _, _ | .letIn .., _, _ | .record .., _, _
  | .update .., _, _ | .annot .., _, _ => List.forall_mem_nil _
  | .app func arg, _, keeps => by
      obtain ⟨parts, -⟩ := Bool.and_eq_true_iff.mp keeps
      obtain ⟨first, second⟩ := Bool.and_eq_true_iff.mp parts
      exact List.forall_mem_append.mpr
        ⟨func.lambdaParams_keepLine true first, arg.lambdaParams_keepLine false second⟩
  | .binary left _ right, _, keeps => by
      obtain ⟨-, parts⟩ := Bool.and_eq_true_iff.mp keeps
      obtain ⟨first, second⟩ := Bool.and_eq_true_iff.mp parts
      exact List.forall_mem_append.mpr
        ⟨left.lambdaParams_keepLine false first, right.lambdaParams_keepLine false second⟩
  | .neg operand, _, keeps => operand.lambdaParams_keepLine false keeps
  | .leftSection operand _, _, keeps => operand.lambdaParams_keepLine false keeps
  | .rightSection _ operand, _, keeps => operand.lambdaParams_keepLine false keeps
  | .paren inner, _, keeps => inner.lambdaParams_keepLine false keeps
  | .lambda params body, _, keeps => by
      obtain ⟨bound, attached⟩ := Bool.and_eq_true_iff.mp keeps
      obtain ⟨-, second⟩ := Bool.and_eq_true_iff.mp attached
      have nested := Expr.lambdaParamsIn_keepLine params bound
      exact List.forall_mem_append.mpr
        ⟨List.forall_mem_append.mpr ⟨keepLine_iff.mp bound, nested⟩,
          body.lambdaParams_keepLine false second⟩

theorem Expr.lambdaParamsIn_keepLine : (es : List Expr) → Expr.keepLine es = true →
    ∀ q ∈ Expr.lambdaParamsIn es, q.keepsLine false = true
  | [], _ => List.forall_mem_nil _
  | e :: rest, keeps => by
      obtain ⟨first, later⟩ := Bool.and_eq_true_iff.mp keeps
      exact List.forall_mem_append.mpr
        ⟨e.lambdaParams_keepLine false first, Expr.lambdaParamsIn_keepLine rest later⟩

end

/-! ## Main statement -/

/-- A flat expression keeps the line exactly if its lambda parameters do, at every depth.

If they all do, then it ends no line wherever it is run, under all thresholds, as long as the
column limit is not reached. If one of them does not, then the expression ends a line wherever it
is run inside one, whatever the column limit is, as soon as no head is short and no trial
small. -/
theorem flat_keeps_line {e : Expr} (flat : e.isFlat = true) (names : e.EveryName OneLine) :
    ((∀ q ∈ e.lambdaParams, q.keepsLine false = true) →
      ∀ cfg p text, e.layout.Unreached cfg ⟨"", p⟩ →
        (e.layout.run cfg p).output.toList = p.output.toList ++ text → '\n' ∉ text) ∧
    ((∃ q ∈ e.lambdaParams, q.keepsLine false = false) →
      ∀ cfg p text, cfg.Strict → p.atLineStart = false →
        (e.layout.run cfg p).output.toList = p.output.toList ++ text → '\n' ∈ text) := by
  have rated := (e.rated names).whole
  constructor
  · intro params cfg p text room appended
    have keeps := rated.keepsLine (e.keepsLine_of_isFlat flat params)
    exact (Layout.stays_iff appended).mp (keeps cfg ⟨"", p⟩ room)
  · rintro ⟨q, mem, gives⟩ cfg p text strict inLine appended
    have some : e.keepsLine false = false := by
      refine Bool.eq_false_iff.mpr fun keeps => ?_
      rw [e.lambdaParams_keepLine false keeps q mem] at gives
      cases gives
    have leaves := rated.givesWay some cfg p strict inLine
    rw [Layout.stays_iff appended, not_not] at leaves
    exact leaves

/-- A function whose parameter is a constructor applied to two pairs. -/
def pairsMatcher : Expr :=
  .lambda [.paren (.app (.app (.con "P") (.tuple .boxed [.var "a", .var "b"]))
    (.tuple .boxed [.var "c", .var "d"]))] (.var "a")

/-- A function whose parameter is a pair. The pair is not flat, and keeps the line. -/
def pairMatcher : Expr := .lambda [.tuple .boxed [.var "a", .var "b"]] (.var "a")

/-- Behind four spaces of pending indentation, under thresholds that keep nothing small, the
parameter that is a pair stays on the line; behind one character of a line, the other one ends
a line even under the widest limit. -/
theorem flat_keeps_line_pairs :
    let cfg : Config := { columnLimit := maxWidth, shortName := 0, smallColumnLimit := 0 }
    (pairMatcher.layout.run cfg ⟨"", 0, 0, 4, true⟩).output = "    \\(a, b) -> a" ∧
      '\n' ∉ "    \\(a, b) -> a".toList ∧
      ∀ text, (pairsMatcher.layout.run cfg ⟨"x", 0, 1, 0, false⟩).output.toList = 'x' :: text →
        '\n' ∈ text := by
  intro cfg
  have a : OneLine "a" := by decide
  have b : OneLine "b" := by decide
  have c : OneLine "c" := by decide
  have d : OneLine "d" := by decide
  have P : OneLine "P" := by decide
  have written : (pairMatcher.layout.run cfg ⟨"", 0, 0, 4, true⟩).output =
      "    \\(a, b) -> a" := by decide +kernel
  refine ⟨written, ?_, fun text appended => ?_⟩
  · refine (flat_keeps_line (e := pairMatcher) rfl ⟨⟨⟨a, b, trivial⟩, trivial⟩, a⟩).1 ?_ cfg
      ⟨"", 0, 0, 4, true⟩ _ ⟨by decide +kernel, by decide⟩ (by rw [written]; rfl)
    rintro q (_ | ⟨_, mem⟩)
    · rfl
    · cases mem
  · refine (flat_keeps_line (e := pairsMatcher) rfl
      ⟨⟨⟨⟨P, a, b, trivial⟩, c, d, trivial⟩, trivial⟩, a⟩).2
      ⟨_, List.mem_cons_self, rfl⟩ cfg ⟨"x", 0, 1, 0, false⟩ text ⟨rfl, rfl⟩ rfl appended

/-- Flatness alone does not keep the line: with the default thresholds and the widest limit,
which is not reached, two arguments that are not flat stand one below the other. -/
theorem flat_lambda_breaks :
    pairsMatcher.isFlat = true ∧ pairsMatcher.EveryName OneLine ∧
      pairsMatcher.layout.Unreached { columnLimit := maxWidth } ⟨"", .start⟩ ∧
      (pairsMatcher.layout.run { columnLimit := maxWidth } .start).output =
        "\\(P (a, b)\n    (c, d)) -> a" := by
  refine ⟨rfl, ?_, ⟨by decide +kernel, by decide⟩, by decide +kernel⟩
  have a : OneLine "a" := by decide
  have b : OneLine "b" := by decide
  have c : OneLine "c" := by decide
  have d : OneLine "d" := by decide
  have P : OneLine "P" := by decide
  exact ⟨⟨⟨⟨P, a, b, trivial⟩, c, d, trivial⟩, trivial⟩, a⟩

end TrialLayout
