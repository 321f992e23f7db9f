import TrialLayout.Proofs.Offside
import TrialLayout.Proofs.Reach

/-!
# Where an operation breaks

An operation is meant to stand on one line, or else to be broken behind its operator. What
decides is a trial of the form that keeps the right operand behind the operator, and that trial
is kept if it ends within the column limit. But its end says nothing about its lines. Where an
operand is broken, the trial can end within the limit on a later line; it is kept, and the only
line break stands elsewhere (`operator_chain_slips`).

* `Operation.Slips`: the operation is flat, and its form with the right operand behind the
  operator ends within the limit on a later line.
* `operation_line_or_break`: an operation stands on one line within the limit or is broken
  behind its operator if and only if it does not slip. Operands without a place to break never
  let it slip. An operation whose left operand is again one slips wherever it starts far
  enough past the limit.
-/

namespace TrialLayout

open Printer Text

/-! ## Definitions -/

namespace Layout

/-- An operation with the right operand behind the operator. -/
def behind (left : Layout) (op : String) (right : Layout) : Layout :=
  depend (left ++ space ++ text op ++ space) right

/-- The run ends a line, and yet ends within the column limit. -/
def Spills (l : Layout) (cfg : Config) (p : Printer) : Prop :=
  ¬l.Stays cfg p ∧ (l.run cfg p).column ≤ cfg.columnLimit

/-- `appended` is an operation broken behind its operator: what the left operand and a space
append, the operator, which ends its line, and what the right operand appends from the start of
the next line, under `base`. -/
def BrokenBehind (left : Layout) (op : String) (right : Layout) (cfg : Config) (base : Nat)
    (p : Printer) (appended : List Char) : Prop :=
  ∃ before after,
    ((left ++ space).run cfg p).output.toList = p.output.toList ++ before ∧
    (right.run cfg (((left ++ space ++ text op).run cfg p).newline.setIndent base)).output.toList =
      ((left ++ space ++ text op).run cfg p).newline.output.toList ++ after ∧
    appended = before ++ op.toList ++ '\n' :: after

/-- The layout ends no line, wherever it is run. -/
def Rigid (l : Layout) : Prop := ∀ cfg p, l.Stays cfg p

end Layout

mutual

/-- Expressions without a place to break. -/
def Expr.isRigid : Expr → Bool
  | .var _ | .con _ | .int _ | .frac _ | .char _ | .string _ | .varQuote _ | .typeQuote _ => true
  | .wildcard => true
  | .tuple _ items | .list items => items.isEmpty
  | .neg operand => operand.isRigid
  | .leftSection operand _ => operand.isRigid
  | .rightSection _ operand => operand.isRigid
  | .lambda params body => Expr.areRigid params && (body.isFlat && body.isRigid)
  | .paren inner => inner.isRigid
  | .app .. | .binary .. | .cond .. | .caseOf .. | .block .. | .letIn .. | .record .. | .update ..
  | .annot .. => false

/-- Several expressions without a place to break. -/
def Expr.areRigid : List Expr → Bool
  | [] => true
  | e :: rest => e.isRigid && Expr.areRigid rest

end

namespace Operation

/-- The layouts of an operation, each with the base of a right operand on a line of its own: by
itself the operation goes on at the base, as a statement one step past its own column. That base is
the sum of the two as long as the sum can be represented (`Config.stepFrom_eq`). -/
inductive Form (left : Expr) (op : Op String) (right : Expr) (cfg : Config) (p : Printer) :
    Layout → Nat → Prop
  | alone : Form left op right cfg p (Expr.binary left op right).layout p.indent
  | statement : Form left op right cfg p (Stmt.expr (.binary left op right)).layout
      (cfg.stepFrom p.effectiveColumn)

/-- A flat operation ends within the limit on a later line, with the right operand behind the
operator. -/
def Slips (left : Expr) (op : Op String) (right : Expr) (cfg : Config) (p : Printer) : Prop :=
  (left.isFlat && right.isFlat) = true ∧
    (Layout.behind left.layout op.spelling right.layout).Spills cfg p

end Operation

/-! ## The text of an operation -/

namespace Layout

variable {left right : Layout} {op : String} {cfg : Config} {p : Printer}

/-- Behind a space a text is appended as it is. -/
theorem output_space_text (l : Layout) {content : String} (oneLine : OneLine content) :
    ((l ++ space ++ text content).run cfg p).output.toList =
      ((l ++ space).run cfg p).output.toList ++ content.toList := by
  have inLine : ((l ++ space).run cfg p).atLineStart = false :=
    write_inLine (l.run cfg p) (by decide) (by decide)
  show (((l ++ space).run cfg p).write content).output.toList = _
  rw [write_of_inLine inLine oneLine, String.toList_append]

/-- Behind the operator stands a space. -/
theorem behind_output (left right : Layout) (oneLine : OneLine op) :
    ∃ before after, ((left ++ space).run cfg p).output.toList = p.output.toList ++ before ∧
      ((behind left op right).run cfg p).output.toList =
        p.output.toList ++ (before ++ op.toList ++ ' ' :: after) := by
  obtain ⟨before, appended⟩ := (left ++ space).run_appends cfg p
  obtain ⟨base, based⟩ := dependBase_eq_setIndent p ((left ++ space ++ text op ++ space).run cfg p)
  obtain ⟨after, appended'⟩ := right.run_appends cfg
    (((left ++ space ++ text op ++ space).run cfg p).setIndent base)
  have front : ((left ++ space ++ text op ++ space).run cfg p).output.toList =
      p.output.toList ++ (before ++ op.toList ++ [' ']) := by
    have spaced : OneLine (op ++ " ") := oneLine.append (by decide)
    show ((((left ++ space).run cfg p).write op).write " ").output.toList = _
    rw [← write_append]
    refine (output_space_text left spaced).trans ?_
    simp [appended]
  refine ⟨before, after, appended, ?_⟩
  rw [behind, run_depend, based]
  show (right.run cfg (((left ++ space ++ text op ++ space).run cfg p).setIndent
    base)).output.toList = _
  rw [appended']
  show ((left ++ space ++ text op ++ space).run cfg p).output.toList ++ after = _
  rw [front]
  simp

/-- Going on with the right operand after the end of the line breaks behind the operator. -/
theorem brokenBehind_of_run (oneLine : OneLine op) {base : Nat} {q : Printer}
    (run : q.output =
      (right.run cfg (((left ++ space ++ text op).run cfg p).newline.setIndent base)).output) :
    ∃ appended, q.output.toList = p.output.toList ++ appended ∧
      BrokenBehind left op right cfg base p appended := by
  obtain ⟨before, front⟩ := (left ++ space).run_appends cfg p
  obtain ⟨after, back⟩ := right.run_appends cfg
    (((left ++ space ++ text op).run cfg p).newline.setIndent base)
  refine ⟨_, ?_, before, after, front, back, rfl⟩
  rw [run, back]
  show ((left ++ space ++ text op).run cfg p).newline.output.toList ++ after = _
  simp [Printer.newline, output_space_text left oneLine, front]

/-- With the right operand behind it, the operator does not end its line. -/
theorem BrokenBehind.ne_behind (oneLine : OneLine op) {base : Nat} {appended : List Char}
    (broken : BrokenBehind left op right cfg base p appended) :
    ((behind left op right).run cfg p).output.toList ≠ p.output.toList ++ appended := by
  obtain ⟨before, after, front, -, rfl⟩ := broken
  obtain ⟨before', after', front', output⟩ := behind_output left right oneLine
  have same : before' = before := List.append_cancel_left (front'.symm.trans front)
  rw [output, same]
  simp

/-- Which form of an operation is written. -/
theorem run_operation (flat : Bool) (left : Layout) (op : String) (right : Layout)
    (broken : Layout → Layout → Layout) (cfg : Config) (p : Printer) :
    (operation flat left op right broken).run cfg p =
      if flat = true ∧ ((behind left op right).run cfg p).column ≤ cfg.columnLimit then
        (behind left op right).run cfg p
      else (broken (left ++ space ++ text op ++ newline) right).run cfg p := by
  have measured : (p.trial ((behind left op right).run cfg)).candidate.column =
      ((behind left op right).run cfg p).column := by
    rw [← ((behind left op right).run_positional cfg).commit_trial p]
    rfl
  cases flat with
  | false => simp [operation]
  | true =>
    show (attempt .within (behind left op right) _).run cfg p = _
    rw [run_attempt]
    simp [Fit.accepts, Trial.overflows, measured]

/-- An operation stands on one line within the limit or is broken behind its operator, except
where it is flat and its form with the right operand behind the operator spills. -/
theorem operation_iff_not_spills (oneLine : OneLine op) (flat : Bool)
    {broken : Layout → Layout → Layout} {base : Nat}
    (goesOn : ((broken (left ++ space ++ text op ++ newline) right).run cfg p).output =
      (right.run cfg (((left ++ space ++ text op).run cfg p).newline.setIndent base)).output) :
    ∃ appended,
      ((operation flat left op right broken).run cfg p).output.toList =
        p.output.toList ++ appended ∧
      ('\n' ∉ appended ∧
          ((operation flat left op right broken).run cfg p).column ≤ cfg.columnLimit ∨
        BrokenBehind left op right cfg base p appended ↔
          ¬(flat = true ∧ (behind left op right).Spills cfg p)) ∧
      (flat = true ∧ (behind left op right).Spills cfg p →
        (operation flat left op right broken).run cfg p = (behind left op right).run cfg p) := by
  rw [run_operation]
  split
  · next kept =>
    obtain ⟨appended, output⟩ := (behind left op right).run_appends cfg p
    refine ⟨appended, output, ?_, fun _ => rfl⟩
    have unbroken : ¬BrokenBehind left op right cfg base p appended :=
      fun broken => broken.ne_behind oneLine output
    rw [← stays_iff output, Spills]
    simp only [kept, unbroken, true_and, and_true, or_false, not_not]
  · next refused =>
    obtain ⟨appended, output, isBroken⟩ := brokenBehind_of_run oneLine goesOn
    have tight : ¬(flat = true ∧ (behind left op right).Spills cfg p) :=
      fun slips => refused ⟨slips.1, slips.2.2⟩
    exact ⟨appended, output, iff_of_true (.inr isBroken) tight, fun slips => absurd slips tight⟩

end Layout

/-! ## Layouts without a place to break -/

namespace Layout.Rigid

variable {l left right : Layout}

theorem text {content : String} (oneLine : OneLine content) : (Layout.text content).Rigid :=
  fun _ p => p.write_stays oneLine

theorem seq (hl : left.Rigid) (hr : right.Rigid) : (left ++ right).Rigid :=
  fun cfg p => seq_stays.mpr ⟨hl cfg p, hr cfg (left.run cfg p)⟩

theorem depend (hl : left.Rigid) (hr : right.Rigid) : (Layout.depend left right).Rigid :=
  fun cfg p => depend_stays.mpr ⟨hl cfg p, hr cfg (p.dependBase (left.run cfg p))⟩

theorem shift (delta : Int) (h : l.Rigid) : (Layout.shift delta l).Rigid :=
  fun cfg p => h cfg (p.setIndent (shifted p.indent delta))

theorem spaced {items : List Layout} (h : ∀ item ∈ items, item.Rigid) :
    (Layout.spaced items).Rigid := by
  match items with
  | [] => exact text (by decide)
  | [item] => exact h item List.mem_cons_self
  | item :: second :: rest =>
    exact ((h item List.mem_cons_self).seq (text (by decide))).seq
      (spaced fun other mem => h other (List.mem_cons_of_mem _ mem))

/-- A layout between brackets. -/
theorem enclosed {opening closing : String} (ho : OneLine opening) (hc : OneLine closing)
    (h : l.Rigid) : (Layout.depend (.text opening) (l ++ .text closing)).Rigid :=
  (text ho).depend (h.seq (text hc))

end Layout.Rigid

mutual

theorem Expr.rigid_layout : (e : Expr) → e.EveryName OneLine → e.isRigid = true → e.layout.Rigid
  | .var _, h, _ | .con _, h, _ | .frac _, h, _ => .text h
  | .int value, _, _ => .text (int_repr_oneLine value)
  | .char value, _, _ => .text (charLiteral_oneLine value)
  | .string value, _, _ => .text (stringLiteral_oneLine value)
  | .varQuote _, h, _ | .typeQuote _, h, _ => .text (OneLine.append (by decide) h)
  | .wildcard, _, _ => .text (by decide)
  | .neg operand, h, rigid => .seq (.text (by decide)) (operand.rigid_layout h rigid)
  | .leftSection operand op, h, rigid => by
      have spelled : (Layout.text op.spelling).Rigid := .text (op.spelling_spells h.2).1
      exact .enclosed (by decide) (by decide)
        (((operand.rigid_layout h.1 rigid).seq (.text (by decide))).seq spelled)
  | .rightSection op operand, h, rigid => by
      have spelled : (Layout.text op.spelling).Rigid := .text (op.spelling_spells h.1).1
      exact (((Layout.Rigid.text (by decide)).seq spelled).seq (.text (by decide))).depend
        ((operand.rigid_layout h.2 rigid).seq (.text (by decide)))
  | .lambda params body, h, rigid => by
      simp only [Expr.isRigid, Bool.and_eq_true] at rigid
      obtain ⟨rigidParams, flat, rigidBody⟩ := rigid
      have bound := Layout.Rigid.spaced (Expr.rigid_layouts params h.1 rigidParams)
      have attached : (Layout.attach " -> " body.isFlat (.shift 1 body.layout)).Rigid := by
        rw [flat]
        exact .depend (.text (by decide)) (.shift 1 (body.rigid_layout h.2 rigidBody))
      exact .depend (.text (by decide)) (bound.seq attached)
  | .tuple boxity [], _, _ => .text (by cases boxity <;> decide)
  | .list [], _, _ => .text (by decide)
  | .paren inner, h, rigid => .enclosed (by decide) (by decide) (inner.rigid_layout h rigid)

theorem Expr.rigid_layouts : (es : List Expr) → Expr.EveryNameIn OneLine es →
    Expr.areRigid es = true → ∀ item ∈ Expr.layouts es, item.Rigid
  | [], _, _ => fun _ mem => absurd mem List.not_mem_nil
  | e :: rest, h, rigid => by
      simp only [Expr.areRigid, Bool.and_eq_true] at rigid
      intro item mem
      obtain rfl | mem := List.mem_cons.mp mem
      · exact e.rigid_layout h.1 rigid.1
      · exact Expr.rigid_layouts rest h.2 rigid.2 item mem

end

/-! ## Operations past the limit -/

/-- Far past the limit every operation falls back: the form with the right operand behind the
operator is refused, unless it falls back itself. -/
theorem Layout.FarPast.operation {left right : Layout} {cfg : Config} {p : Printer} {flat : Bool}
    {op : String} (h : (Layout.operation flat left op right .seq).FarPast cfg p) :
    (Layout.operation flat left op right .seq).FallsBack cfg p := by
  have run := run_operation flat left op right .seq cfg p
  split at run
  · next kept =>
    obtain ⟨rfl, within⟩ := kept
    have le : (Layout.behind left op right).reach cfg ≤
        (Layout.operation true left op right .seq).reach cfg := Nat.le_add_right ..
    exact ((h.mono le).fallsBack within).of_run run le
  · refine ((FallsBack.newline _ cfg p).seq right).of_run run ?_
    cases flat with
    | false => exact Nat.le_refl _
    | true => exact Nat.le_add_left ..

/-- Far past the limit a flat expression that does not hang falls back: it is an operation,
possibly behind signs. -/
theorem Expr.fallsBack {cfg : Config} : (e : Expr) → e.isFlat = true → e.hangs false = false →
    {p : Printer} → e.layout.FarPast cfg p → e.layout.FallsBack cfg p
  | .binary .., _, _, _, far => far.operation
  | .neg operand, flat, shape, _, far =>
      .text_seq (operand.fallsBack flat shape (far.text_seq (by decide)))
  | .app (.var _) _, _, shape, _, _ | .app (.con _) _, _, shape, _, _ => by cases shape

/-! ## The exact condition -/

namespace Operation

variable {left right : Expr} {op : Op String} {cfg : Config} {p : Printer}

/-- Operands without a place to break stay on the line. -/
theorem not_slips_of_rigid (names : (Expr.binary left op right).EveryName OneLine)
    (hl : left.isRigid = true) (hr : right.isRigid = true) : ¬Slips left op right cfg p := by
  have front := left.rigid_layout names.1 hl
  have spelled : (Layout.text op.spelling).Rigid := .text (op.spelling_spells names.2.1).1
  have blank : Layout.space.Rigid := .text (by decide)
  have rigid := (((front.seq blank).seq spelled).seq blank).depend
    (right.rigid_layout names.2.2 hr)
  exact fun slips => slips.2.1 (rigid cfg p)

/-- A left operand that falls back takes the operation with it. -/
theorem slips_of_farPast (flat : (left.isFlat && right.isFlat) = true)
    (shape : left.hangs false = false)
    (far : (Layout.behind left.layout op.spelling right.layout).FarPast cfg p) :
    Slips left op right cfg p := by
  have le : left.layout.reach cfg ≤
      (Layout.behind left.layout op.spelling right.layout).reach cfg := by
    simp only [Layout.behind, Layout.reach, Layout.reach_append]
    omega
  have front := left.fallsBack (Bool.and_eq_true_iff.mp flat).1 shape (far.mono le)
  have whole := (((front.seq .space).seq (.text op.spelling)).seq .space).depend right.layout
  exact ⟨flat, whole.1, Nat.le_trans whole.2 far.near⟩

end Operation

/-- Where an operation breaks, by itself and as a statement. At every position and under all
thresholds it stands on one line that ends within the column limit, or it is broken behind its
operator and the right operand starts on the next line, if and only if it does not slip; where
it slips, it is written with the right operand behind the operator and a line break elsewhere.
Operands without a place to break never let it slip. A flat operation whose left operand is
again an operation slips wherever it starts far past the limit. -/
theorem operation_line_or_break {left right : Expr} {op : Op String}
    (names : (Expr.binary left op right).EveryName OneLine) (cfg : Config) (p : Printer) :
    (∀ form base, Operation.Form left op right cfg p form base →
      ∃ appended, (form.run cfg p).output.toList = p.output.toList ++ appended ∧
        ('\n' ∉ appended ∧ (form.run cfg p).column ≤ cfg.columnLimit ∨
          Layout.BrokenBehind left.layout op.spelling right.layout cfg base p appended ↔
            ¬Operation.Slips left op right cfg p) ∧
        (Operation.Slips left op right cfg p → form.run cfg p =
          (Layout.behind left.layout op.spelling right.layout).run cfg p)) ∧
    (left.isRigid = true → right.isRigid = true → ¬Operation.Slips left op right cfg p) ∧
    ((left.isFlat && right.isFlat) = true → left.hangs false = false →
      (Layout.behind left.layout op.spelling right.layout).FarPast cfg p →
      Operation.Slips left op right cfg p) := by
  have oneLine : OneLine op.spelling := (op.spelling_spells names.2.1).1
  refine ⟨fun form base shape => ?_, Operation.not_slips_of_rigid names,
    Operation.slips_of_farPast⟩
  cases shape with
  | alone =>
    refine Layout.operation_iff_not_spills oneLine (left.isFlat && right.isFlat) ?_
    -- the base is the one that the left operand has put back
    rw [← Layout.run_indent cfg (left.layout ++ .space ++ .text op.spelling) p]
    rfl
  | statement => exact Layout.operation_iff_not_spills oneLine (left.isFlat && right.isFlat) rfl

/-- A sum that is too long for 40 columns. -/
def longSum : Expr :=
  .binary (.var "aVeryLongIdentifierName") (.symbol "+") (.var "anotherVeryLongIdentifierName")

/-- Far past the limit, a sum with one more summand slips. -/
theorem operation_line_or_break_sum :
    ∃ appended,
      ((Expr.binary longSum (.symbol "+") (.var "c")).layout.run (.withColumnLimit 400)
        (Printer.start.withStartingColumn 900)).output.toList = appended ∧
      '\n' ∈ appended ∧
      ¬Layout.BrokenBehind longSum.layout "+" (Expr.var "c").layout (.withColumnLimit 400) 0
        (Printer.start.withStartingColumn 900) appended := by
  have names : (Expr.binary longSum (.symbol "+") (.var "c")).EveryName OneLine := by
    show (OneLine "aVeryLongIdentifierName" ∧ OneLine "+" ∧
      OneLine "anotherVeryLongIdentifierName") ∧ OneLine "+" ∧ OneLine "c"
    decide
  obtain ⟨forms, -, farPast⟩ := operation_line_or_break names (.withColumnLimit 400)
    (Printer.start.withStartingColumn 900)
  have slips := farPast rfl rfl ⟨rfl, by decide, by decide, by decide⟩
  obtain ⟨appended, output, condition, same⟩ := forms _ _ .alone
  have within := Nat.le_trans (Nat.le_of_eq (congrArg Printer.column (same slips))) slips.2.2
  refine ⟨appended, output, ?_, fun broken => condition.mp (.inr broken) slips⟩
  by_contra oneLine
  exact condition.mp (.inl ⟨oneLine, within⟩) slips

/-- The left operand is broken, and the operator behind it ends no line, although the thresholds
are valid and no name is empty or has a newline. -/
theorem operator_chain_slips :
    (Config.withColumnLimit 40).Valid ∧
      (Expr.binary longSum (.symbol "+") (.var "c")).EveryName Plain ∧
      ((Expr.binary longSum (.symbol "+") (.var "c")).layout.run (.withColumnLimit 40)
        .start).output = "aVeryLongIdentifierName +\nanotherVeryLongIdentifierName + c" ∧
      ¬OneLine "aVeryLongIdentifierName +\nanotherVeryLongIdentifierName + c" ∧
      ∀ base, ¬Layout.BrokenBehind longSum.layout "+" (Expr.var "c").layout (.withColumnLimit 40)
        base .start "aVeryLongIdentifierName +\nanotherVeryLongIdentifierName + c".toList := by
  have a : Plain "aVeryLongIdentifierName" := by decide
  have b : Plain "anotherVeryLongIdentifierName" := by decide
  have c : Plain "c" := by decide
  have plus : Plain "+" := by decide
  refine ⟨by decide, ⟨⟨a, plus, b⟩, plus, c⟩, rfl, by decide, fun base broken => ?_⟩
  exact broken.ne_behind plus.2 (by decide +kernel)

end TrialLayout
