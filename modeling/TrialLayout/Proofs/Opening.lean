import TrialLayout.Layout.Blocks
import TrialLayout.Proofs.Emission
import TrialLayout.Proofs.InRange
import TrialLayout.Proofs.Literals
import TrialLayout.Proofs.Names

/-!
# How a rendering begins

A layout opens when it begins with a character of its own: it neither ends a line first nor
changes the indentation base before it writes. Then the pending indentation may as well have
been written before it (`Opens.settle`), so that a rendering at the start of a line is the
rendering inside a line at the column of the base. Every expression, statement, alternative
and declaration opens, as long as no name is empty.

Where an item of a block starts, the column is the base. The text that it comes out as then
depends on that column only: it is `Layout.rendering` (`Opens.output_eq`).
-/

namespace TrialLayout

open Printer Text

/-! ## Definitions -/

/-- A text without newlines whose first character satisfies `P`; in particular it has one. -/
def Text.Leads (P : Char → Prop) (text : String) : Prop :=
  OneLine text ∧ ∃ c rest, text.toList = c :: rest ∧ P c

/-- A layout that begins with a character that satisfies `P`, under the base it is run under. -/
structure Layout.Opens (P : Char → Prop) (l : Layout) : Prop where
  settle : ∀ cfg p, p.Consistent → l.run cfg p = l.run cfg p.settle
  first : ∀ cfg p, p.atLineStart = false →
    ∃ c text, P c ∧ (l.run cfg p).output.toList = p.output.toList ++ c :: text
  range : ∀ cfg p, p.Consistent → l.InRange cfg p → l.InRange cfg p.settle

/-- A printer inside a line, at the column that is its base. -/
def Printer.inside (column : Nat) : Printer := ⟨"", 0, column, column, false⟩

/-- The text of a layout that starts at the column that is its base. -/
def Layout.rendering (cfg : Config) (column : Nat) (l : Layout) : List Char :=
  (l.run cfg (.inside column)).output.toList

/-- From `column`, the layout takes one line that ends within `limit`. -/
def Layout.FitsFrom (cfg : Config) (limit column : Nat) (l : Layout) : Prop :=
  '\n' ∉ l.rendering cfg column ∧ column + (l.rendering cfg column).length ≤ limit

instance (cfg : Config) (limit column : Nat) (l : Layout) :
    Decidable (l.FitsFrom cfg limit column) := inferInstanceAs (Decidable (_ ∧ _))

/-! ## Texts -/

theorem Text.Leads.append {P : Char → Prop} {a b : String} (ha : Leads P a) (hb : OneLine b) :
    Leads P (a ++ b) := by
  obtain ⟨oneLine, c, rest, shape, hc⟩ := ha
  exact ⟨oneLine.append hb, c, rest ++ b.toList, by simp [shape], hc⟩

theorem Text.Leads.ne_empty {P : Char → Prop} {text : String} (h : Leads P text) : text ≠ "" := by
  obtain ⟨-, c, rest, shape, -⟩ := h
  rintro rfl
  exact absurd shape (by simp)

/-- A text whose first character is neither a space nor a newline. -/
theorem Text.Leads.of_head {P : Char → Prop} (hP : ∀ c, c ≠ ' ' → c ≠ '\n' → P c) {text : String}
    (oneLine : OneLine text) (head : text.toList.head?.any (· != ' ') = true) : Leads P text := by
  cases shape : text.toList with
  | nil => simp [shape] at head
  | cons c rest =>
    refine ⟨oneLine, c, rest, shape, hP c (by simpa [shape] using head) ?_⟩
    rintro rfl
    exact oneLine (shape ▸ List.mem_cons_self)

theorem Text.Leads.of_ne_empty {P : Char → Prop} (hP : ∀ c, c ≠ '\n' → P c) {text : String}
    (oneLine : OneLine text) (nonempty : text ≠ "") : Leads P text := by
  cases shape : text.toList with
  | nil => exact absurd (String.toList_eq_nil_iff.mp shape) nonempty
  | cons c rest =>
    refine ⟨oneLine, c, rest, shape, hP c ?_⟩
    rintro rfl
    exact oneLine (shape ▸ List.mem_cons_self)

theorem Text.head_repr (n : Nat) : n.repr.toList.head?.any (· != ' ') = true := by
  cases shape : n.repr.toList with
  | nil => exact absurd (Nat.toList_repr ▸ shape) Nat.toDigits_ne_nil
  | cons c rest =>
    have digit : c.isDigit = true :=
      Nat.isDigit_of_mem_toDigits (by decide) (by decide)
        (Nat.toList_repr ▸ shape ▸ List.mem_cons_self)
    have notSpace : c ≠ ' ' := by
      rintro rfl
      exact absurd digit (by decide)
    simpa using notSpace

theorem Text.head_int_repr (n : Int) : n.repr.toList.head?.any (· != ' ') = true := by
  cases n with
  | ofNat n => exact head_repr n
  | negSucc n =>
    show ("-" ++ (n + 1).repr).toList.head?.any _ = true
    simp

/-! ## Trials -/

theorem Printer.settle_effectiveColumn (p : Printer) :
    p.settle.effectiveColumn = p.effectiveColumn := by
  rw [effectiveColumn, settle_atLineStart]
  exact p.settle_column

theorem Printer.snapshot_settle (p : Printer) :
    p.snapshot.settle = p.settle.snapshot.prepend (String.ofList p.pending) 0 := by
  unfold settle pending
  by_cases start : p.atLineStart
  · simp [snapshot, prepend, start, ← String.toList_inj]
  · simp [snapshot, prepend, start]

/-- For a procedure that begins with a character, a trial with the indentation pending and one
with the indentation written end at the same position. -/
theorem trial_settle {body : Printer → Printer} (positional : Positional body)
    (settled : ∀ p : Printer, p.Consistent → body p = body p.settle) {p : Printer}
    (h : p.Consistent) :
    (p.trial body).candidate =
      (p.settle.trial body).candidate.prepend (String.ofList p.pending) 0 := by
  show body p.snapshot = (body p.settle.snapshot).prepend _ 0
  rw [settled p.snapshot h, snapshot_settle, positional]

theorem isSingleLine_settle {body : Printer → Printer} (positional : Positional body)
    (settled : ∀ p : Printer, p.Consistent → body p = body p.settle) {p : Printer}
    (h : p.Consistent) : (p.settle.trial body).isSingleLine = (p.trial body).isSingleLine := by
  have start : (p.settle.trial body).start.line = (p.trial body).start.line := p.settle_line
  unfold Trial.isSingleLine
  rw [trial_settle positional settled h, start, prepend_line, Nat.zero_add]

theorem isShort_settle (cfg : Config) {body : Printer → Printer} (positional : Positional body)
    (settled : ∀ p : Printer, p.Consistent → body p = body p.settle) {p : Printer}
    (h : p.Consistent) : (p.settle.trial body).isShort cfg = (p.trial body).isShort cfg := by
  have start : (p.settle.trial body).start.effectiveColumn =
      (p.trial body).start.effectiveColumn := p.settle_effectiveColumn
  unfold Trial.isShort
  rw [isSingleLine_settle positional settled h, trial_settle positional settled h, start,
    prepend_column]

/-- Whether a trial is kept does not depend on when the indentation is written. (Only the
arguments of an application are stacked, and they do not begin a rendering.) -/
theorem Fit.accepts_settle (cfg : Config) {fit : Fit} (single : ∀ lines, fit ≠ .stack lines)
    {body : Printer → Printer} (positional : Positional body)
    (settled : ∀ p : Printer, p.Consistent → body p = body p.settle) {p : Printer}
    (h : p.Consistent) :
    fit.accepts cfg (p.settle.trial body) = fit.accepts cfg (p.trial body) := by
  have column : (p.settle.trial body).candidate.column = (p.trial body).candidate.column := by
    rw [trial_settle positional settled h, prepend_column]
  have line := isSingleLine_settle positional settled h
  cases fit with
  | line => simp only [accepts, Trial.overflows, line, column]
  | within => simp only [accepts, Trial.overflows, column]
  | small => simp only [accepts, Trial.isSmall, line, column]
  | stack lines => exact absurd rfl (single lines)

/-! ## Layouts -/

namespace Layout

theorem run_appends (cfg : Config) (l : Layout) (p : Printer) :
    ∃ text, (l.run cfg p).output.toList = p.output.toList ++ text := by
  refine ⟨(p.trial (l.run cfg)).candidate.output.toList, ?_⟩
  rw [(l.run_positional cfg).output_eq p, String.toList_append]

/-- Inside a line, where the column is the base, a layout comes out as its rendering. -/
theorem output_of_aligned (l : Layout) (cfg : Config) {p : Printer} (inLine : p.atLineStart = false)
    (aligned : p.column = p.indent) :
    (l.run cfg p).output.toList = p.output.toList ++ l.rendering cfg p.indent := by
  have shape : p = (Printer.inside p.indent).prepend p.output p.line := by
    obtain ⟨output, line, column, indent, atLineStart⟩ := p
    simp_all [inside, prepend]
  have moved := l.run_positional cfg (.inside p.indent) p.output p.line
  rw [← shape] at moved
  rw [moved, prepend_output, String.toList_append]
  rfl

namespace Opens

variable {P : Char → Prop} {l left right : Layout}

theorem text {content : String} (h : Leads P content) : (Layout.text content).Opens P := by
  obtain ⟨oneLine, c, rest, shape, hc⟩ := h
  have nonempty : content ≠ "" := Leads.ne_empty ⟨oneLine, c, rest, shape, hc⟩
  refine ⟨fun _ p _ => write_settle p nonempty oneLine, ?_, ?_⟩
  · intro cfg p inLine
    refine ⟨c, rest, hc, ?_⟩
    rw [run, write_of_inLine inLine oneLine, String.toList_append, shape]
  · intro cfg p _ range
    rw [InRange, settle_effectiveColumn]
    exact range

theorem seq (hl : left.Opens P) (right : Layout) : (left ++ right).Opens P := by
  refine ⟨?_, ?_, ?_⟩
  · intro cfg p consistent
    show right.run cfg (left.run cfg p) = right.run cfg (left.run cfg p.settle)
    rw [hl.settle cfg p consistent]
  · intro cfg p inLine
    obtain ⟨c, text, hc, appended⟩ := hl.first cfg p inLine
    obtain ⟨more, appended'⟩ := right.run_appends cfg (left.run cfg p)
    refine ⟨c, text ++ more, hc, ?_⟩
    show (right.run cfg (left.run cfg p)).output.toList = _
    rw [appended', appended, List.append_assoc, List.cons_append]
  · rintro cfg p consistent ⟨first, second⟩
    exact ⟨hl.range cfg p consistent first, hl.settle cfg p consistent ▸ second⟩

/-- What opens moves the position. -/
theorem moves (h : l.Opens P) (cfg : Config) {p : Printer} (consistent : p.Consistent) :
    ¬((l.run cfg p).line = p.line ∧ (l.run cfg p).column ≤ p.effectiveColumn) := by
  rw [h.settle cfg p consistent]
  have inLine : p.settle.atLineStart = false := p.settle_atLineStart
  obtain ⟨text, emitted⟩ := l.run_emits cfg (.of_inLine inLine)
  obtain ⟨c, rest, -, appended⟩ := h.first cfg p.settle inLine
  rw [emitted, emit_output] at appended
  have shape : text = c :: rest := List.append_cancel_left appended
  rintro ⟨line, column⟩
  rw [emitted] at line column
  rw [emit_line, settle_line] at line
  have noNewline : '\n' ∉ text := List.count_eq_zero.mp (by omega)
  rw [emit_of_inLine p.settle inLine noNewline] at column
  simp only [settle_column, shape, List.length_cons] at column
  omega

theorem depend (hl : left.Opens P) (right : Layout) : (Layout.depend left right).Opens P := by
  have away (cfg : Config) {p : Printer} (consistent : p.Consistent) :
      ¬((left.run cfg p).line = p.line ∧ (left.run cfg p).column = p.column) := by
    refine fun same => hl.moves cfg consistent ⟨same.1, ?_⟩
    -- at the start of a line the column is zero, inside a line it is the effective one
    unfold effectiveColumn
    split
    · next start => rw [same.2, consistent start]; exact Nat.zero_le _
    · exact Nat.le_of_eq same.2
  have based (cfg : Config) {p : Printer} (consistent : p.Consistent) :
      p.dependBase (left.run cfg p) = (left.run cfg p).setIndent (left.run cfg p).column :=
    if_neg (away cfg consistent)
  have under (cfg : Config) {p : Printer} (consistent : p.Consistent) :
      (Layout.depend left right).run cfg p =
        (left.run cfg p).withIndentAt (left.run cfg p).column (right.run cfg) :=
    depend_of_moved (away cfg consistent)
  refine ⟨?_, ?_, ?_⟩
  · intro cfg p consistent
    rw [under cfg consistent, under cfg (.of_inLine p.settle_atLineStart),
      hl.settle cfg p consistent]
  · intro cfg p inLine
    obtain ⟨c, text, hc, appended⟩ := hl.first cfg p inLine
    obtain ⟨more, appended'⟩ :=
      right.run_appends cfg ((left.run cfg p).setIndent (left.run cfg p).column)
    refine ⟨c, text ++ more, hc, ?_⟩
    rw [under cfg (.of_inLine inLine)]
    show (right.run cfg ((left.run cfg p).setIndent (left.run cfg p).column)).output.toList = _
    rw [appended']
    show (left.run cfg p).output.toList ++ more = _
    rw [appended, List.append_assoc, List.cons_append]
  · rintro cfg p consistent ⟨first, second⟩
    rw [based cfg consistent, hl.settle cfg p consistent] at second
    exact ⟨hl.range cfg p consistent first, based cfg (.of_inLine p.settle_atLineStart) ▸ second⟩

theorem attempt {fit : Fit} (single : ∀ lines, fit ≠ .stack lines) (ht : left.Opens P)
    (hf : right.Opens P) : (Layout.attempt fit left right).Opens P := by
  have same (cfg : Config) {p : Printer} (consistent : p.Consistent) :=
    Fit.accepts_settle cfg single (left.run_positional cfg) (ht.settle cfg) consistent
  refine ⟨?_, ?_, ?_⟩
  · intro cfg p consistent
    rw [run_attempt, run_attempt, same cfg consistent, ht.settle cfg p consistent,
      hf.settle cfg p consistent]
  · intro cfg p inLine
    rw [run_attempt]
    split
    · exact ht.first cfg p inLine
    · exact hf.first cfg p inLine
  · rintro cfg p consistent ⟨kept, refused⟩
    refine ⟨ht.range cfg p consistent kept, fun fails => hf.range cfg p consistent (refused ?_)⟩
    rwa [same cfg consistent] at fails

theorem byHead {head : Layout} (hh : head.Opens P) (short long : Layout) :
    (Layout.byHead head short long).Opens P := by
  have same (cfg : Config) {p : Printer} (consistent : p.Consistent) :=
    isShort_settle cfg (head.run_positional cfg) (hh.settle cfg) consistent
  refine ⟨?_, ?_, ?_⟩
  · intro cfg p consistent
    rw [run_byHead, run_byHead, same cfg consistent, hh.settle cfg p consistent]
  · intro cfg p inLine
    rw [run_byHead]
    split
    · exact (hh.seq short).first cfg p inLine
    · exact (hh.seq long).first cfg p inLine
  · rintro cfg p consistent ⟨first, brief, wide⟩
    refine ⟨hh.range cfg p consistent first, ?_, ?_⟩
    · rw [same cfg consistent, ← hh.settle cfg p consistent]
      exact brief
    · rw [same cfg consistent, ← hh.settle cfg p consistent]
      exact wide

theorem resume (hl : left.Opens P) (right : Layout) : (Layout.resume left right).Opens P := by
  refine ⟨?_, ?_, ?_⟩
  · intro cfg p consistent
    simp only [run, settle_effectiveColumn, hl.settle cfg p consistent]
  · intro cfg p inLine
    obtain ⟨c, text, hc, appended⟩ := hl.first cfg p inLine
    obtain ⟨more, appended'⟩ :=
      right.run_appends cfg ((left.run cfg p).setIndent (cfg.stepFrom p.effectiveColumn))
    refine ⟨c, text ++ more, hc, ?_⟩
    show (right.run cfg ((left.run cfg p).setIndent _)).output.toList = _
    rw [appended']
    show (left.run cfg p).output.toList ++ more = _
    rw [appended, List.append_assoc, List.cons_append]
  · rintro cfg p consistent ⟨first, room, second⟩
    rw [InRange, settle_effectiveColumn, ← hl.settle cfg p consistent]
    exact ⟨hl.range cfg p consistent first, room, second⟩

/-- What opens comes out as its rendering, after the pending indentation. -/
theorem output_eq (h : l.Opens P) (cfg : Config) {p : Printer} (consistent : p.Consistent)
    (aligned : p.effectiveColumn = p.indent) :
    (l.run cfg p).output.toList = p.output.toList ++ p.pending ++ l.rendering cfg p.indent := by
  have column : p.settle.column = p.settle.indent := by rw [settle_column, settle_indent, aligned]
  rw [h.settle cfg p consistent, output_of_aligned l cfg p.settle_atLineStart column, settle_output,
    settle_indent]

theorem rendering_cons (h : l.Opens P) (cfg : Config) (column : Nat) :
    ∃ c text, P c ∧ l.rendering cfg column = c :: text := by
  obtain ⟨c, text, hc, appended⟩ := h.first cfg (.inside column) rfl
  exact ⟨c, text, hc, appended⟩

theorem operation {flat : Bool} {op : String} {broken : Layout → Layout → Layout}
    (hbroken : ∀ {x y : Layout}, x.Opens P → (broken x y).Opens P) (hl : left.Opens P) :
    (Layout.operation flat left op right broken).Opens P := by
  have breaking := hbroken (y := right) (((hl.seq space).seq (.text op)).seq newline)
  have behind := (((hl.seq space).seq (.text op)).seq space).depend right
  unfold Layout.operation
  split
  · exact behind.attempt (by simp) breaking
  · exact breaking

theorem joined {separator : Layout} {items : List Layout} (nonempty : items ≠ [])
    (h : ∀ item ∈ items, item.Opens P) : (Layout.joined separator items).Opens P := by
  match items with
  | [] => exact absurd rfl nonempty
  | [item] => exact h item (by simp)
  | item :: second :: rest =>
    exact ((h item (by simp)).seq separator).seq (Layout.joined separator (second :: rest))

/-- Items one below the other, where the column is the base: each comes out as its rendering
at that column. -/
theorem lined_output {items : List Layout} (nonempty : items ≠ [])
    (h : ∀ item ∈ items, item.Opens P) (cfg : Config) {p : Printer} (consistent : p.Consistent)
    (aligned : p.effectiveColumn = p.indent) :
    ((Layout.lined items).run cfg p).output.toList = p.output.toList ++ p.pending ++
      ('\n' :: List.replicate p.indent ' ').intercalate
        (items.map (Layout.rendering cfg p.indent)) := by
  induction items generalizing p with
  | nil => exact absurd rfl nonempty
  | cons item rest ih =>
    have first := (h item (by simp)).output_eq cfg consistent aligned
    cases rest with
    | nil =>
      rw [List.map_singleton, List.intercalate_singleton]
      exact first
    | cons second rest =>
      have base : (item.run cfg p).indent = p.indent := by
        obtain ⟨text, emitted⟩ := item.run_emits cfg consistent
        rw [emitted, emit_indent]
      have more : ((Layout.lined (second :: rest)).run cfg (item.run cfg p).newline).output.toList =
          (item.run cfg p).newline.output.toList ++ List.replicate (item.run cfg p).indent ' ' ++
            ('\n' :: List.replicate (item.run cfg p).indent ' ').intercalate
              ((second :: rest).map (Layout.rendering cfg (item.run cfg p).indent)) :=
        ih (by simp) (fun other mem => h other (List.mem_cons_of_mem _ mem)) (fun _ => rfl) rfl
      show ((Layout.lined (second :: rest)).run cfg (item.run cfg p).newline).output.toList = _
      rw [more, base, List.map_cons, List.map_cons (l := second :: rest)]
      simp [Printer.newline, first]

end Opens

/-- A part that depends on a text is run inside the line, at the column behind that text. -/
theorem depend_text_run {P : Char → Prop} {content : String} (hc : Leads P content) (right : Layout)
    (cfg : Config) {p : Printer} (consistent : p.Consistent) :
    ∃ q : Printer, q.atLineStart = false ∧ q.indent = p.effectiveColumn + content.length ∧
      q.column = q.indent ∧ q.output.toList = p.output.toList ++ p.pending ++ content.toList ∧
      ((Layout.depend (.text content) right).run cfg p).output = (right.run cfg q).output := by
  have width : 0 < content.length := by
    rw [Nat.pos_iff_ne_zero, ne_eq, String.length_eq_zero_iff]
    exact hc.ne_empty
  have written : p.write content = { p.settle with
      output := p.settle.output ++ content, column := p.settle.column + content.length } := by
    rw [write_settle p hc.ne_empty hc.1, write_of_inLine p.settle_atLineStart hc.1]
  have column : (p.write content).column = p.effectiveColumn + content.length := by
    rw [written, settle_column]
  have moved : ¬((p.write content).line = p.line ∧ (p.write content).column = p.column) := by
    rintro ⟨-, same⟩
    rw [column] at same
    unfold effectiveColumn at same
    split at same
    · next start => rw [consistent start] at same; omega
    · omega
  refine ⟨(p.write content).setIndent (p.write content).column, ?_, column, rfl, ?_, ?_⟩
  · rw [written]
    exact p.settle_atLineStart
  · rw [written]
    show (p.settle.output ++ content).toList = _
    rw [String.toList_append, settle_output]
  · rw [run, depend_of_moved moved]
    rfl

end Layout

/-! ## Trees -/

/-- An expression opens from whichever side it is looked at. -/
structure Forms.Opens (P : Char → Prop) (forms : Forms) : Prop where
  whole : forms.whole.Opens P
  statement : forms.statement.Opens P
  head : forms.head.Opens P

namespace Forms.Opens

variable {P : Char → Prop}

theorem uniform {l : Layout} (h : l.Opens P) : (Forms.uniform l).Opens P := ⟨h, h, h⟩

theorem apply {func : Forms} (h : func.Opens P) (arg : Layout.Argument) :
    (func.apply arg).Opens P := by
  have whole : (func.apply arg).whole.Opens P := by
    rw [whole_apply]
    exact h.head.byHead _ _
  exact ⟨whole, whole, h.head⟩

theorem ofOperation {flat : Bool} {left right : Layout} {op : String} (h : left.Opens P) :
    (Forms.ofOperation flat left op right).Opens P := by
  have whole : (Layout.operation flat left op right .seq).Opens P :=
    .operation (fun hx => hx.seq _) h
  have statement : (Layout.operation flat left op right .resume).Opens P :=
    .operation (fun hx => hx.resume _) h
  exact ⟨whole, statement, whole⟩

end Forms.Opens

section Trees

variable {P : Char → Prop} {N : String → Prop}

/-- Every expression opens, with a name, a literal, a keyword or a mark. Only the leading part
of an expression matters, so the recursion goes down the leading parts. -/
theorem Expr.forms_open (hP : ∀ c, c ≠ ' ' → c ≠ '\n' → P c) (hN : ∀ s, N s → Leads P s) :
    (e : Expr) → e.EveryName N → e.forms.Opens P
  | .var name, h | .con name, h | .frac name, h => .uniform (.text (hN name h))
  | .int value, _ => .uniform (.text (.of_head hP (int_repr_oneLine value) (head_int_repr value)))
  | .char value, _ =>
      .uniform (.text (.of_head hP (charLiteral_oneLine value) (by simp [charLiteral])))
  | .string value, _ =>
      .uniform (.text (.of_head hP (stringLiteral_oneLine value) (by simp [stringLiteral])))
  | .varQuote name, h =>
      .uniform (.text (.append (.of_head hP (by decide) (by decide)) (hN name h).1))
  | .typeQuote name, h =>
      .uniform (.text (.append (.of_head hP (by decide) (by decide)) (hN name h).1))
  | .wildcard, _ => .uniform (.text (.of_head hP (by decide) (by decide)))
  | .app func _, h => (func.forms_open hP hN h.1).apply _
  | .binary left _ _, h => .ofOperation (left.forms_open hP hN h.1).whole
  | .neg _, _ => .uniform ((Layout.Opens.text (.of_head hP (by decide) (by decide))).seq _)
  | .leftSection .., _ | .paren _, _ | .lambda .., _ | .block _, _ =>
      .uniform ((Layout.Opens.text (.of_head hP (by decide) (by decide))).depend _)
  | .rightSection .., _ =>
      .uniform ((((Layout.Opens.text (.of_head hP (by decide) (by decide))).seq _).seq _).depend _)
  | .tuple boxity items, _ => by
      refine .uniform ?_
      split
      · cases boxity <;> exact .text (.of_head hP (by decide) (by decide))
      · cases boxity <;> exact (Layout.Opens.text (.of_head hP (by decide) (by decide))).depend _
  | .list items, _ => by
      refine .uniform ?_
      have bracket : (Layout.text "[").Opens P := .text (.of_head hP (by decide) (by decide))
      split
      · exact .text (.of_head hP (by decide) (by decide))
      · exact (bracket.depend _).attempt (by simp) (bracket.depend _)
  | .cond .., _ => by
      have ifs : (Layout.text "if ").Opens P := .text (.of_head hP (by decide) (by decide))
      exact .uniform ((((((ifs.seq _).seq _).seq _).seq _).seq _).attempt (by simp) (ifs.depend _))
  | .caseOf .., _ =>
      .uniform ((((Layout.Opens.text (.of_head hP (by decide) (by decide))).depend _).seq _).seq _)
  | .letIn .., _ =>
      .uniform ((((Layout.Opens.text (.of_head hP (by decide) (by decide))).depend _).seq _).seq _)
  | .record name _, h => .uniform (((Layout.Opens.text (hN name h.1)).seq _).seq _)
  | .update updated _, h => .uniform (((updated.forms_open hP hN h.1).whole.seq _).seq _)
  | .annot expr _, h => .uniform (((expr.forms_open hP hN h.1).whole.seq _).depend _)

theorem Alt.layout_opens (hP : ∀ c, c ≠ ' ' → c ≠ '\n' → P c) (hN : ∀ s, N s → Leads P s)
    {a : Alt} (h : a.EveryName N) : a.layout.Opens P := by
  cases a with
  | mk pattern rhs => exact (pattern.forms_open hP hN h.1).whole.seq _

theorem Stmt.layout_opens (hP : ∀ c, c ≠ ' ' → c ≠ '\n' → P c) (hN : ∀ s, N s → Leads P s)
    {s : Stmt} (h : s.EveryName N) : s.layout.Opens P := by
  cases s with
  | bind pattern expr => exact (pattern.forms_open hP hN h.1).whole.seq _
  | expr expr => exact (expr.forms_open hP hN h).statement
  | decls decls => exact (Layout.Opens.text (.of_head hP (by decide) (by decide))).depend _

theorem Decl.layout_opens (hP : ∀ c, c ≠ '\n' → P c) (hN : ∀ s, N s → Leads P s)
    {d : Decl} (h : d.EveryName N) : d.layout.Opens P := by
  cases d with
  | signature names type =>
    -- without names a signature begins with the space before its colons
    have left : Leads P (", ".intercalate names ++ " :: ") := by
      refine .of_ne_empty hP ?_ ?_
      · exact (OneLine.intercalate (by decide) fun name mem => (hN name (h.1 name mem)).1).append
          (by decide)
      · simp
    exact (Layout.Opens.text left).depend _
  | function name params rhs => exact ((Layout.Opens.text (hN name h.1)).seq _).seq _
  | pattern pattern rhs =>
    exact (pattern.forms_open (fun c _ hc => hP c hc) hN h.1).whole.seq _

end Trees

end TrialLayout
