import TrialLayout.Proofs.Closing
import TrialLayout.Proofs.Measuring

/-!
# Shapes that start a line at the base

The converse of `Offside`: a shape that does not hang starts a line at the base, or left of it, as
soon as nothing fits on one line any more. That is the case when the base is past the column limit:
a rendering of one line ends past the limit as well, and a trial that ends within the limit all the
same has ended a line, and its last line is short (`Layout.Closes.breaks`). The latter happens only
where a step starts over behind the largest width, but nothing here depends on that.

* `Text.BreaksAt c text`: some line of the text but the first has at most `c` spaces in front
  of its first character.
* `Layout.Breaks flush l`: past the column limit `l` starts a line at the base or left of it.
* `Expr.forms_break`, `Stmt.layout_breaks`: so do all shapes that do not hang.

The first character of a line has to be one that can be told from the indentation, so no
name may begin with a space here.
-/

namespace TrialLayout

open Printer Text

/-! ## Texts -/

/-- Some line but the first has at most `c` spaces in front of its first character. -/
def Text.BreaksAt (c : Nat) (text : List Char) : Prop :=
  ∃ before width first after, width ≤ c ∧
    text = before ++ '\n' :: (List.replicate width ' ' ++ first :: after) ∧ first ≠ ' '

namespace Text

/-- The last line of a text that has several. -/
theorem exists_last_line {text : List Char} (several : '\n' ∈ text) :
    ∃ before last, text = before ++ '\n' :: last ∧ '\n' ∉ last := by
  induction text with
  | nil => cases several
  | cons c rest ih =>
    by_cases later : '\n' ∈ rest
    · obtain ⟨before, last, rfl, oneLine⟩ := ih later
      exact ⟨c :: before, last, rfl, oneLine⟩
    · cases List.mem_cons.mp several with
      | inl here => exact ⟨[], rest, by rw [here]; rfl, later⟩
      | inr there => exact absurd there later

/-- The spaces in front of the first visible character of a line. -/
theorem exists_indentation {line : List Char} {c : Char} (mem : c ∈ line) (hc : c ≠ ' ') :
    ∃ width first after, line = List.replicate width ' ' ++ first :: after ∧ first ≠ ' ' := by
  induction line with
  | nil => cases mem
  | cons x rest ih =>
    by_cases space : x = ' '
    · subst space
      obtain ⟨width, first, after, rfl, visible⟩ := ih (List.mem_of_ne_of_mem hc mem)
      exact ⟨width + 1, first, after, rfl, visible⟩
    · exact ⟨0, x, rest, rfl, space⟩

namespace BreaksAt

variable {c d : Nat} {a b : List Char}

theorem mono (h : BreaksAt c a) (le : c ≤ d) : BreaksAt d a := by
  obtain ⟨before, width, first, after, within, shape, hf⟩ := h
  exact ⟨before, width, first, after, Nat.le_trans within le, shape, hf⟩

theorem append_right (h : BreaksAt c a) (b : List Char) : BreaksAt c (a ++ b) := by
  obtain ⟨before, width, first, after, within, rfl, hf⟩ := h
  exact ⟨before, width, first, after ++ b, within, by simp, hf⟩

theorem append_left (a : List Char) (h : BreaksAt c b) : BreaksAt c (a ++ b) := by
  obtain ⟨before, width, first, after, within, rfl, hf⟩ := h
  exact ⟨a ++ before, width, first, after, within, by simp, hf⟩

theorem leadingSpaces_replicate_cons {first : Char} (hf : first ≠ ' ') (after : List Char) :
    leadingSpaces (List.replicate c ' ' ++ first :: after) = c := by
  have stop : leadingSpaces (first :: after) = 0 := by simp [leadingSpaces, hf]
  induction c with
  | zero => exact stop
  | succ n ih =>
    rw [List.replicate_succ, List.cons_append]
    unfold leadingSpaces at ih ⊢
    rw [List.takeWhile_cons_of_pos (by simp), List.length_cons, ih]

/-- Such a line does not start past `c`. -/
theorem not_continuesFrom (h : BreaksAt c a) : ¬ContinuesFrom (c + 1) a := by
  obtain ⟨before, width, first, after, within, rfl, hf⟩ := h
  induction before with
  | nil =>
    rw [List.nil_append, continuesFrom_newline, leadingSpaces_replicate_cons hf]
    omega
  | cons x rest ih =>
    rw [List.cons_append]
    by_cases hx : x = '\n'
    · subst hx
      rw [continuesFrom_newline]
      exact fun continues => ih continues.2
    · rw [continuesFrom_cons_of_ne hx]
      exact ih

/-- A last line that is short and not blank. -/
theorem of_last {before last : List Char} {x : Char} (mem : x ∈ last) (visible : x ≠ ' ')
    (short : last.length ≤ c) : BreaksAt c (before ++ '\n' :: last) := by
  obtain ⟨width, first, after, rfl, hf⟩ := exists_indentation mem visible
  rw [List.length_append, List.length_replicate] at short
  exact ⟨before, width, first, after, Nat.le_of_add_right_le short, rfl, hf⟩

end BreaksAt

end Text

/-! ## The last line -/

/-- On the current line stands a character that is not a space. -/
def Printer.Marked (p : Printer) : Prop :=
  ∃ before c after, p.output.toList = before ++ c :: after ∧ c ≠ ' ' ∧ '\n' ∉ c :: after

theorem Printer.Marked.write {p : Printer} {content : String} (h : p.Marked)
    (oneLine : OneLine content) : (p.write content).Marked := by
  obtain ⟨before, c, after, output, visible, last⟩ := h
  by_cases nonempty : content = ""
  · subst nonempty
    exact ⟨before, c, after, output, visible, last⟩
  · refine ⟨before, c, after ++ (p.pending ++ content.toList), ?_, visible, ?_⟩
    · rw [write_output p nonempty oneLine, output]
      simp
    · rw [← List.cons_append, List.mem_append, List.mem_append]
      exact not_or.mpr ⟨last, not_or.mpr ⟨p.newline_not_mem_pending, oneLine⟩⟩

/-- On a line with a visible character. -/
def Printer.Ending.marked : Ending where
  kind c := c ≠ ' '
  place := Marked
  visible _ hc := hc
  scope _ h := h
  write := by
    intro content carries p
    have nonempty := carries.ne_empty
    obtain ⟨oneLine, c, mem, visible⟩ := carries
    obtain ⟨front, back, shape⟩ := List.append_of_mem mem
    refine ⟨p.output.toList ++ p.pending ++ front, c, back, ?_, visible, fun newline => ?_⟩
    · rw [write_output p nonempty oneLine, shape, List.append_assoc _ front]
    · exact oneLine (shape ▸ List.mem_append_right front newline)
  more oneLine p marked := marked.write oneLine

/-- After a newline the column is the length of the line. -/
theorem Printer.emit_column_last (p : Printer) (before : List Char) {last : List Char}
    (oneLine : '\n' ∉ last) : (p.emit (before ++ '\n' :: last)).column = last.length := by
  rw [emit_append]
  show ((p.emit before).newline.emit last).column = _
  rw [emit_column, endColumn, if_neg oneLine]
  exact Nat.zero_add _

/-- The visible character of a line stands behind its newline. -/
theorem Printer.Marked.mem_last {p : Printer} (h : p.Marked) {before last : List Char}
    (output : p.output.toList = before ++ '\n' :: last) : ∃ c ∈ last, c ≠ ' ' := by
  obtain ⟨front, c, back, marked, visible, oneLine⟩ := h
  have same : (before ++ ['\n']) ++ last = front ++ c :: back := by
    rw [← marked, output, List.append_assoc, List.singleton_append]
  obtain ⟨more, -, shape⟩ | ⟨more, shape, rest⟩ := List.append_eq_append_iff.mp same
  · exact ⟨c, shape ▸ List.mem_append_right more List.mem_cons_self, visible⟩
  · obtain rfl | ⟨init, x, rfl⟩ := more.eq_nil_or_concat
    · exact ⟨c, List.mem_of_mem_head? (congrArg List.head? rest.symm), visible⟩
    -- what is in front of the last line ends with its newline
    · have ends : x = '\n' := by
        have := congrArg List.getLast? shape
        simpa using this.symm
      refine absurd (rest ▸ List.mem_append_left last ?_) oneLine
      simp [ends]

/-! ## Layouts -/

namespace Layout

/-- Run inside a line, under a base past the column limit that is not right of the column,
the layout starts a line at the base or left of it; `flush` says that the column has to be the
base. -/
def Breaks (flush : Bool) (l : Layout) : Prop :=
  ∀ (cfg : Config) (p : Printer), p.atLineStart = false → cfg.columnLimit < p.indent →
    p.indent ≤ p.column → (flush = true → p.column = p.indent) →
    ∃ text, (l.run cfg p).output.toList = p.output.toList ++ text ∧ BreaksAt p.indent text

variable {flush : Bool} {l left right : Layout}

/-- A rendering from past the limit that takes one line ends past the limit. -/
theorem Stays.past {cfg : Config} {p : Printer} (stays : l.Stays cfg p)
    (inLine : p.atLineStart = false) : p.column ≤ (l.run cfg p).column := by
  have width := stays.lineWidth_le
  rw [lineWidth_of_inLine inLine] at width
  exact Nat.le_trans width (l.run cfg p).lineWidth_le_column

/-- What starts past the limit and ends within it starts a line within the limit. -/
theorem Closes.breaks (closes : l.Closes .marked false) {cfg : Config} {p : Printer}
    (inLine : p.atLineStart = false) (limit : cfg.columnLimit < p.column)
    (within : (l.run cfg p).column ≤ cfg.columnLimit) :
    ∃ text, (l.run cfg p).output.toList = p.output.toList ++ text ∧
      BreaksAt cfg.columnLimit text := by
  have marked : (l.run cfg p).Marked := closes cfg p nofun
  obtain ⟨text, emitted⟩ := l.run_emits cfg (.of_inLine inLine)
  have several : '\n' ∈ text := by
    by_contra oneLine
    have line : (l.run cfg p).line = p.line := by
      rw [emitted, emit_line, List.count_eq_zero.mpr oneLine, Nat.add_zero]
    have past := Stays.past line inLine
    omega
  have output : (l.run cfg p).output.toList = p.output.toList ++ text := by
    rw [emitted, emit_output]
  obtain ⟨before, last, rfl, oneLine⟩ := exists_last_line several
  rw [← List.append_assoc] at output
  obtain ⟨c, mem, visible⟩ := marked.mem_last output
  rw [emitted, emit_column_last p before oneLine] at within
  rw [List.append_assoc] at output
  exact ⟨_, output, .of_last mem visible within⟩

/-- What opens starts a line at the base. -/
theorem Opens.breaks_line (opens : l.Opens (· ≠ ' ')) (cfg : Config) (p : Printer) :
    ∃ text, (l.run cfg p.newline).output.toList = p.output.toList ++ text ∧
      BreaksAt p.indent text := by
  obtain ⟨c, more, hc, appended⟩ := opens.first cfg p.newline.settle (settle_atLineStart _)
  refine ⟨'\n' :: (List.replicate p.indent ' ' ++ c :: more), ?_, [], p.indent, c, more,
    Nat.le_refl _, rfl, hc⟩
  rw [opens.settle cfg _ fun _ => rfl, appended, settle_output]
  simp [Printer.newline, pending]

namespace Breaks

/-- Whatever follows. -/
theorem of_appends (h : left.Breaks flush)
    (appends : ∀ cfg p, p.Consistent → ∃ more,
      (l.run cfg p).output.toList = (left.run cfg p).output.toList ++ more) :
    l.Breaks flush := by
  intro cfg p inLine limit ge off
  obtain ⟨text, appended, breaks⟩ := h cfg p inLine limit ge off
  obtain ⟨more, appended'⟩ := appends cfg p (.of_inLine inLine)
  refine ⟨text ++ more, ?_, breaks.append_right more⟩
  rw [appended', appended, List.append_assoc]

theorem seq (h : left.Breaks flush) (right : Layout) : (left ++ right).Breaks flush :=
  h.of_appends fun cfg p _ => right.run_appends cfg (left.run cfg p)

theorem depend (h : left.Breaks flush) (right : Layout) :
    (Layout.depend left right).Breaks flush := by
  refine h.of_appends fun cfg p _ => ?_
  rw [run, Printer.depend]
  split
  · exact right.run_appends cfg (left.run cfg p)
  · exact right.run_appends cfg ((left.run cfg p).setIndent (left.run cfg p).column)

theorem resume (h : left.Breaks flush) (right : Layout) :
    (Layout.resume left right).Breaks flush :=
  h.of_appends fun cfg p _ =>
    right.run_appends cfg ((left.run cfg p).setIndent (cfg.stepFrom p.effectiveColumn))

theorem byHead {head : Layout} (h : head.Breaks flush) (short long : Layout) :
    (Layout.byHead head short long).Breaks flush := by
  refine h.of_appends fun cfg p _ => ?_
  rw [run_byHead]
  split
  · exact short.run_appends cfg (head.run cfg p)
  · exact long.run_appends cfg (head.run cfg p)

/-- A text in front moves the column off the base. -/
theorem text_seq {content : String} (oneLine : OneLine content) (h : right.Breaks false) :
    (Layout.text content ++ right).Breaks flush := by
  intro cfg p inLine limit ge _
  have written := write_of_inLine inLine oneLine
  have moved : p.indent ≤ (p.write content).column := by
    rw [written]
    exact Nat.le_add_right_of_le ge
  obtain ⟨text, appended, breaks⟩ :=
    h cfg (p.write content) (by rw [written]; exact inLine) (by rwa [written])
      (by rw [written] at moved ⊢; exact moved) nofun
  refine ⟨content.toList ++ text, ?_, ?_⟩
  · show (right.run cfg (p.write content)).output.toList = _
    rw [appended, written]
    simp
  · rw [written] at breaks
    exact breaks.append_left _

theorem newline_seq (opens : right.Opens (· ≠ ' ')) (left : Layout) :
    (left ++ .newline ++ right).Breaks flush := by
  intro cfg p inLine _ _ _
  obtain ⟨text, emitted⟩ := left.run_emits cfg (.of_inLine inLine)
  obtain ⟨more, appended, breaks⟩ := opens.breaks_line cfg (left.run cfg p)
  rw [emitted] at appended breaks
  refine ⟨text ++ more, ?_, (emit_indent p text ▸ breaks).append_left text⟩
  show (right.run cfg (left.run cfg p).newline).output.toList = _
  rw [emitted, appended, emit_output, List.append_assoc]

/-- Nothing fits on one line past the column limit. -/
theorem attempt_line (hf : right.Breaks flush) :
    (Layout.attempt .line left right).Breaks flush := by
  intro cfg p inLine limit ge off
  rw [run_attempt, if_neg]
  · exact hf cfg p inLine limit ge off
  · rw [accepts_line_iff]
    rintro ⟨stays, within⟩
    have past := stays.past inLine
    omega

/-- What ends within the limit although it starts past it has broken its line. -/
theorem attempt_within (ht : left.Closes .marked false) (hf : right.Breaks flush) :
    (Layout.attempt .within left right).Breaks flush := by
  intro cfg p inLine limit ge off
  rw [run_attempt]
  split
  · next kept =>
    rw [accepts_within_iff] at kept
    obtain ⟨text, appended, breaks⟩ :=
      ht.breaks inLine (Nat.lt_of_lt_of_le limit ge) kept
    exact ⟨text, appended, breaks.mono (Nat.le_of_lt limit)⟩
  · exact hf cfg p inLine limit ge off

end Breaks

/-! ## Collections -/

/-- Run behind a bracket at the column `c`, the layout starts a line under that bracket or left of
it. -/
def UnderBracket (l : Layout) : Prop :=
  ∀ (cfg : Config) (c : Nat) (p : Printer), p.atLineStart = false →
    cfg.columnLimit < c → p.column = c + 1 → p.indent = c + 1 →
    ∃ text, (l.run cfg p).output.toList = p.output.toList ++ text ∧ BreaksAt c text

theorem UnderBracket.seq (h : left.UnderBracket) (right : Layout) :
    (left ++ right).UnderBracket := by
  intro cfg c p inLine limit hc hb
  obtain ⟨text, appended, breaks⟩ := h cfg c p inLine limit hc hb
  obtain ⟨more, appended'⟩ := right.run_appends cfg (left.run cfg p)
  refine ⟨text ++ more, ?_, breaks.append_right more⟩
  show (right.run cfg (left.run cfg p)).output.toList = _
  rw [appended', appended, List.append_assoc]

/-- The commas of several items stand under the bracket. -/
theorem UnderBracket.stacked {items : List Layout} (several : 2 ≤ items.length) :
    (Layout.stacked "," items).UnderBracket := by
  match items, several with
  | first :: second :: rest, _ =>
    intro cfg c p inLine _ _ hb
    obtain ⟨text, emitted⟩ := first.run_emits cfg (.of_inLine inLine)
    have comma : (Layout.depend (.text ",") second).Opens (· ≠ ' ') :=
      (Opens.text (.of_head (fun _ hc _ => hc) (by decide) (by decide))).depend second
    -- one comma back from the column behind the bracket is the column of the bracket
    obtain ⟨base, moved, within⟩ : ∃ base,
        shifted (p.emit text).indent (-((",".length : Nat) : Int)) = base ∧ base ≤ c := by
      refine ⟨_, rfl, ?_⟩
      rw [emit_indent, hb]
      show shifted (c + 1) (-1) ≤ c
      unfold shifted
      omega
    obtain ⟨line, appended, breaks⟩ := comma.breaks_line cfg ((p.emit text).setIndent base)
    obtain ⟨more, appended'⟩ :=
      (underneath (rest.map (Layout.depend (.text ",")))).run_appends cfg
        ((Layout.depend (.text ",") second).run cfg ((p.emit text).setIndent base).newline)
    refine ⟨text ++ (line ++ more), ?_, ((breaks.mono within).append_right more).append_left text⟩
    show ((underneath (rest.map (Layout.depend (.text ",")))).run cfg
      ((Layout.depend (.text ",") second).run cfg
        ((first.run cfg p).setIndent (shifted (first.run cfg p).indent
          (-((",".length : Nat) : Int)))).newline)).output.toList = _
    rw [emitted, moved, appended', appended]
    show (p.emit text).output.toList ++ line ++ more = _
    rw [emit_output, List.append_assoc, List.append_assoc]

theorem UnderBracket.row {items : List Layout} (several : 2 ≤ items.length) :
    (Layout.row items).UnderBracket := by
  intro cfg c p inLine limit hc hb
  rw [Layout.row, run_attempt, if_neg]
  · exact UnderBracket.stacked several cfg c p inLine limit hc hb
  · rw [accepts_line_iff]
    rintro ⟨stays, within⟩
    have past := stays.past inLine
    omega

/-- A bracket at the base. -/
theorem UnderBracket.breaks {opening : String} (single : opening.length = 1)
    (oneLine : OneLine opening) (h : l.UnderBracket) :
    (Layout.depend (.text opening) l).Breaks true := by
  intro cfg p inLine limit _ off
  have written := write_of_inLine inLine oneLine
  have column : (p.write opening).column = p.indent + 1 := by
    rw [written, ← off rfl, ← single]
  have moved : ¬((p.write opening).line = p.line ∧ (p.write opening).column = p.column) := by
    rw [column, off rfl]
    omega
  obtain ⟨text, appended, breaks⟩ := h cfg p.indent
    ((p.write opening).setIndent (p.write opening).column)
    (by rw [written]; exact inLine) limit column column
  refine ⟨opening.toList ++ text, ?_, breaks.append_left _⟩
  rw [run, depend_of_moved moved]
  show (l.run cfg ((p.write opening).setIndent (p.write opening).column)).output.toList = _
  rw [appended, written]
  simp [Printer.setIndent]

end Layout

/-! ## Expressions and statements -/

/-- An operator past the column limit is broken. -/
theorem Layout.Breaks.operation {flush flat : Bool} {left right : Layout} {op : String}
    {broken : Layout → Layout → Layout} (hr : right.Closes .marked false)
    (hb : (broken (left ++ Layout.space ++ .text op ++ .newline) right).Breaks flush) :
    (Layout.operation flat left op right broken).Breaks flush := by
  unfold Layout.operation
  split
  · exact .attempt_within (.depend_right _ hr) hb
  · exact hb

/-- An expression breaks by itself and as the head of an application. -/
structure Forms.Breaks (flush : Bool) (forms : Forms) : Prop where
  whole : forms.whole.Breaks flush
  head : forms.head.Breaks flush

/-- A text that begins with no space. -/
abbrev Text.Unindented : String → Prop := Leads (· ≠ ' ')

theorem Expr.forms_open_unindented {e : Expr} (h : e.EveryName Unindented) :
    e.forms.Opens (· ≠ ' ') :=
  e.forms_open (fun _ hc _ => hc) (fun _ unindented => unindented) h

theorem Expr.forms_close_unindented {e : Expr} (h : e.EveryName Unindented) :
    e.forms.Closes .marked := by
  refine e.forms_close (fun s unindented => ?_) h
  obtain ⟨oneLine, c, rest, shape, visible⟩ := unindented
  exact ⟨oneLine, c, shape ▸ List.mem_cons_self, visible⟩

/-- Shapes that do not hang break. -/
theorem Expr.forms_break : (e : Expr) → e.EveryName Unindented → {flush : Bool} →
    e.hangs flush = false → e.forms.Breaks flush
  | .app func arg, h, _, shape => by
      have hf := func.forms_break h.1 shape
      refine ⟨?_, hf.head⟩
      rw [forms, Forms.whole_apply]
      exact hf.head.byHead _ _
  | .binary left op right, h, flush, _ => by
      have opens := (Expr.forms_open_unindented h.2.2).whole
      have whole : (Expr.binary left op right).forms.whole.Breaks flush :=
        .operation (Expr.forms_close_unindented h.2.2).whole (.newline_seq opens _)
      exact ⟨whole, whole⟩
  | .neg operand, h, flush, shape => by
      have whole : (Expr.neg operand).forms.whole.Breaks flush :=
        .text_seq (by decide) (operand.forms_break h shape).whole
      exact ⟨whole, whole⟩
  | .tuple .boxed items, _, flush, shape => by
      simp only [Expr.hangs, Bool.or_eq_false_iff, Bool.not_eq_false', decide_eq_false_iff_not,
        Nat.not_le] at shape
      obtain ⟨rfl, several⟩ := shape
      have row : (Layout.row (Expr.layouts items)).UnderBracket :=
        .row (by rw [Expr.length_layouts]; exact several)
      have whole : (Expr.tuple .boxed items).forms.whole.Breaks true := by
        cases items with
        | nil => cases several
        | cons item rest => exact (row.seq _).breaks rfl (by decide)
      exact ⟨whole, whole⟩
  | .list items, _, flush, shape => by
      simp only [Expr.hangs, Bool.or_eq_false_iff, Bool.not_eq_false', decide_eq_false_iff_not,
        Nat.not_le] at shape
      obtain ⟨rfl, several⟩ := shape
      have lines : (Layout.stacked "," (Expr.layouts items)).UnderBracket :=
        .stacked (by rw [Expr.length_layouts]; exact several)
      have whole : (Expr.list items).forms.whole.Breaks true := by
        cases items with
        | nil => cases several
        | cons item rest =>
          exact .attempt_line ((lines.seq _).breaks rfl (by decide))
      exact ⟨whole, whole⟩
  | .letIn decls body, _, flush, _ => by
      have opens : (Layout.depend (.text "in ") body.forms.whole).Opens (· ≠ ' ') :=
        (Layout.Opens.text (.of_head (fun _ hc _ => hc) (by decide) (by decide))).depend _
      have whole : (Expr.letIn decls body).forms.whole.Breaks flush := .newline_seq opens _
      exact ⟨whole, whole⟩
  | .update updated fields, h, flush, shape => by
      have whole : (Expr.update updated fields).forms.whole.Breaks flush :=
        ((updated.forms_break h.1 shape).whole.seq _).seq _
      exact ⟨whole, whole⟩
  | .annot expr type, h, flush, shape => by
      have whole : (Expr.annot expr type).forms.whole.Breaks flush :=
        ((expr.forms_break h.1 shape).whole.seq _).depend _
      exact ⟨whole, whole⟩

/-- A statement that does not hang starts a line at the column of the block or left of it. -/
theorem Stmt.layout_breaks {s : Stmt} (h : s.EveryName Unindented) (shape : s.hangs = false) :
    s.layout.Breaks true := by
  cases s with
  | bind pattern expr => exact (pattern.forms_break h.1 shape).whole.seq _
  | expr e =>
    cases e with
    | binary left op right =>
      -- the operator itself continues past the column, so the line is one of the left operand
      have front := ((((left.forms_break h.1 shape).whole.seq .space).seq
        (.text op.spelling)).seq .newline)
      exact .operation (Expr.forms_close_unindented h.2.2).whole (front.resume _)
    | app | neg | tuple | list | letIn | update | annot =>
      exact (Expr.forms_break _ h shape).whole
    | _ => cases shape
  | decls ds => cases shape

end TrialLayout
