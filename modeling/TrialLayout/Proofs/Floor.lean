import TrialLayout.Proofs.Hanging
import TrialLayout.Proofs.Opening

/-!
# Blocks over a floor

The building blocks of layouts hang from whatever floor their parts hang from. The rules for
collections dedent a part, but never further than the text that they wrote before, so they
ask for that much room between the floor and the base.

`Layout.Solid floor l` says that the layout begins with a character and hangs from the floor.
Then it may be put behind a text or on a line of its own.
-/

namespace TrialLayout

open Printer Text

/-! ## Definitions -/

/-- A name that is neither empty nor ends a line. -/
def Text.Plain (text : String) : Prop := text ≠ "" ∧ OneLine text

instance (text : String) : Decidable (Plain text) := inferInstanceAs (Decidable (_ ∧ _))

/-- A layout that begins with a character and hangs from the floor. -/
structure Layout.Solid (floor : Nat) (l : Layout) : Prop where
  opens : l.Opens (· ≠ '\n')
  hangs : l.Hangs floor floor floor

theorem Text.Plain.leads {text : String} (h : Plain text) : Leads (· ≠ '\n') text :=
  .of_ne_empty (fun _ hc => hc) h.2 h.1

theorem Text.Plain.length_pos {text : String} (h : Plain text) : 0 < text.length := by
  rw [Nat.pos_iff_ne_zero, ne_eq, String.length_eq_zero_iff]
  exact h.1

/-! ## After a newline -/

namespace Layout

variable {floor column base : Nat} {l left right : Layout}

namespace Starts

theorem mono {base' : Nat} (h : l.Starts floor base) (hb : base ≤ base') : l.Starts floor base' :=
  fun cfg valid p inLine hbase => h cfg valid p inLine (Nat.le_trans hb hbase)

theorem shift_one (h : l.Starts floor base) : (Layout.shift 1 l).Starts floor base := by
  rintro cfg valid p inLine hbase ⟨room, range⟩
  exact (h cfg valid (p.setIndent (shifted p.indent 1)) inLine
    (Nat.le_of_succ_le (shifted_one_ge hbase room)) range).scope

theorem shift_neg {width : Nat} (h : l.Starts floor base) :
    (Layout.shift (-(width : Int)) l).Starts floor (base + width) := by
  rintro cfg valid p inLine hbase ⟨room, range⟩
  exact (h cfg valid (p.setIndent (shifted p.indent (-(width : Int)))) inLine
    (shifted_neg_ge hbase room) range).scope

theorem step (h : l.Starts floor (base + 1)) : (Layout.step l).Starts floor base := by
  rintro cfg valid p inLine hbase ⟨room, range⟩
  exact (h cfg valid (p.setIndent (cfg.stepFrom p.indent)) inLine
    (Config.succ_le_stepFrom valid hbase room) range).scope

end Starts

/-- A layout that opens may start a line wherever the base is not left of the floor. -/
theorem Opens.starts {P : Char → Prop} (opens : l.Opens P) (h : l.Hangs floor base base)
    (hf : floor ≤ base) : l.Starts floor base := by
  intro cfg valid p inLine hbase range
  rw [opens.settle cfg p.newline fun _ => rfl]
  have line : p.Hangs floor p.newline.settle := .newline (Nat.le_trans hf hbase)
  have settled := opens.range cfg p.newline (fun _ => rfl) range
  refine line.trans (h cfg valid _ line.inLine ?_ ?_ settled)
  · rw [settle_column]
    exact hbase
  · rw [settle_indent]
    exact hbase

namespace Solid

theorem starts (h : l.Solid floor) : l.Starts floor floor :=
  h.opens.starts h.hangs (Nat.le_refl floor)

theorem text {content : String} (h : Plain content) : (Layout.text content).Solid floor :=
  ⟨.text h.leads, .text h.2⟩

theorem seq (hl : left.Solid floor) (hr : right.Hangs floor floor floor) :
    (left ++ right).Solid floor :=
  ⟨hl.opens.seq right, hl.hangs.seq (by rwa [Nat.min_self])⟩

theorem depend_text {content : String} (hc : Plain content) (hr : right.Hangs floor floor floor) :
    (Layout.depend (.text content) right).Solid floor :=
  ⟨(Opens.text hc.leads).depend right,
    .depend_text hc.2 hc.1 (hr.mono (Nat.le_add_right ..) (Nat.le_add_right ..))⟩

end Solid

namespace Hangs

theorem seq_self (hl : left.Hangs floor floor base) (hr : right.Hangs floor floor base) :
    (left ++ right).Hangs floor floor base :=
  hl.seq (by rwa [Nat.min_self])

/-- A part that depends on what opens, behind a last text. -/
theorem depend_opened {P : Char → Prop} {content : String} (opens : left.Opens P)
    (oneLine : OneLine content) (hl : left.Hangs floor column base)
    (hr : right.Hangs floor (min floor column + content.length)
      (min floor column + content.length)) :
    (Layout.depend (left ++ .text content) right).Hangs floor column base := by
  rintro cfg valid p inLine hcol hbase ⟨⟨rangel, -⟩, ranger⟩
  have first := hl cfg valid p inLine hcol hbase rangel
  have reached := first.column
  have written : (left.run cfg p).Hangs floor ((left.run cfg p).write content) :=
    .write first.inLine oneLine
  have moved : ((left.run cfg p).write content).column =
      (left.run cfg p).column + content.length := by
    rw [write_of_inLine first.inLine oneLine]
  have elsewhere := (opens.seq (.text content)).moves cfg (.of_inLine inLine)
  have start : p.effectiveColumn = p.column := by simp [effectiveColumn, inLine]
  have away : ¬(((left ++ .text content).run cfg p).line = p.line ∧
      ((left ++ .text content).run cfg p).column = p.column) :=
    fun same => elsewhere ⟨same.1, Nat.le_of_eq (same.2.trans start.symm)⟩
  rw [dependBase, if_neg away] at ranger
  rw [run, depend_of_moved away]
  have wide : min floor column + content.length ≤ ((left.run cfg p).write content).column := by
    omega
  exact (first.trans written).trans
    (hr cfg valid (((left.run cfg p).write content).setIndent
      ((left.run cfg p).write content).column) written.inLine wide wide ranger).scope

/-- No base matters for a part that never ends a line. -/
theorem shift_any {delta : Int} (h : l.Hangs floor column 0) :
    (Layout.shift delta l).Hangs floor column base :=
  fun cfg valid p inLine hcol _ range =>
    (h cfg valid (p.setIndent (shifted p.indent delta)) inLine hcol (Nat.zero_le _) range.2).scope

end Hangs

/-- What hangs continues right of the floor wherever it starts at its base. -/
theorem Hangs.rendering {P : Char → Prop} {cfg : Config} (valid : cfg.Valid) {p : Printer}
    (consistent : p.Consistent) (aligned : p.effectiveColumn = p.indent) (opens : l.Opens P)
    (range : l.InRange cfg p) (h : l.Hangs floor p.indent p.indent) :
    ContinuesFrom floor (l.rendering cfg p.indent) := by
  have settled := opens.output_eq cfg consistent aligned
  obtain ⟨text, appended, continues⟩ :=
    (h cfg valid p.settle p.settle_atLineStart (Nat.le_of_eq (by rw [settle_column, aligned]))
      (Nat.le_of_eq p.settle_indent.symm) (opens.range cfg p consistent range)).text
  rw [opens.settle cfg p consistent, appended, settle_output] at settled
  exact List.append_cancel_left settled ▸ continues

/-! ## Sequences of items -/

variable {items : List Layout}

theorem Hangs.joined_text {separator : String} (oneLine : OneLine separator)
    (h : ∀ item ∈ items, item.Hangs floor floor floor) :
    (joined (.text separator) items).Hangs floor floor floor := by
  induction items with
  | nil => exact .empty
  | cons item rest ih =>
    cases rest with
    | nil => exact h item (by simp)
    | cons second rest =>
      have more : (joined (.text separator) (second :: rest)).Hangs floor floor floor :=
        ih fun other mem => h other (List.mem_cons_of_mem _ mem)
      exact ((h item (by simp)).seq_self (.text oneLine)).seq_self more

theorem Hangs.lined (h : ∀ item ∈ items, item.Solid floor) :
    (Layout.lined items).Hangs floor floor floor := by
  induction items with
  | nil => exact .empty
  | cons item rest ih =>
    cases rest with
    | nil => exact (h item (by simp)).hangs
    | cons second rest =>
      have more : ∀ other ∈ second :: rest, other.Solid floor :=
        fun other mem => h other (List.mem_cons_of_mem _ mem)
      have opens : (Layout.lined (second :: rest)).Opens (· ≠ '\n') :=
        .joined (by simp) fun other mem => (more other mem).opens
      exact (h item (by simp)).hangs.break_seq (opens.starts (ih more) (Nat.le_refl floor))

theorem Solid.lined (h : ∀ item ∈ items, item.Solid floor) (nonempty : items ≠ []) :
    (Layout.lined items).Solid floor :=
  ⟨.joined nonempty fun item mem => (h item mem).opens, .lined h⟩

theorem Hangs.underneath (h : ∀ item ∈ items, item.Solid floor) :
    (Layout.underneath items).Hangs floor column floor := by
  induction items generalizing column with
  | nil => exact .empty
  | cons item rest ih =>
    have line : (Layout.newline ++ item).Hangs floor column floor :=
      .newline_seq (h item (by simp)).starts
    exact line.seq (ih fun other mem => h other (List.mem_cons_of_mem _ mem))

theorem Hangs.concat_space (h : ∀ item ∈ items, item.Hangs floor floor base) :
    (concat (items.map (Layout.space ++ ·))).Hangs floor floor base := by
  induction items with
  | nil => exact .empty
  | cons item rest ih =>
    exact (Hangs.space.seq_self (h item (by simp))).seq_self
      (ih fun other mem => h other (List.mem_cons_of_mem _ mem))

/-- A lead is moved left by its own width, so the base has to leave room for it. -/
theorem Hangs.stacked {lead : String} (hl : Plain lead)
    (h : ∀ item ∈ items, item.Solid floor) :
    (Layout.stacked lead items).Hangs floor floor (floor + lead.length) := by
  cases items with
  | nil => exact .empty
  | cons item rest =>
    have lines : (Layout.underneath (rest.map (Layout.depend (.text lead)))).Hangs
        floor floor floor := by
      refine .underneath fun line mem => ?_
      obtain ⟨other, inRest, rfl⟩ := List.mem_map.mp mem
      exact .depend_text hl (h other (List.mem_cons_of_mem _ inRest)).hangs
    exact ((h item (by simp)).hangs.mono (Nat.le_refl _) (Nat.le_add_right ..)).seq_self
      lines.shift_neg

theorem Hangs.stacked_comma (h : ∀ item ∈ items, item.Solid floor) :
    (Layout.stacked "," items).Hangs floor floor (floor + 1) :=
  Hangs.stacked (show Plain "," by decide) h

/-- A single item needs no room for a lead. -/
theorem Hangs.stacked_single {lead : String} (h : ∀ item ∈ items, item.Solid floor)
    (single : items.length ≤ 1) : (Layout.stacked lead items).Hangs floor floor floor := by
  match items with
  | [] => exact .empty
  | [item] => exact (h item (by simp)).hangs.seq_self (.shift_any .empty)

/-! ## Collections -/

/-- How much room a collection has between the floor and its items. With a single item no
comma is written. -/
def Roomy (floor column : Nat) (opening : String) (items : List Layout) : Prop :=
  floor + 1 ≤ column + opening.length ∨ items.length ≤ 1 ∧ floor ≤ column + opening.length

theorem Hangs.bracketed {opening closing : String} (ho : Plain opening) (hc : OneLine closing)
    (h : ∀ item ∈ items, item.Solid floor)
    (roomy : Roomy floor column opening items) :
    (Layout.bracketed opening closing items).Hangs floor column base := by
  refine .depend_text ho.2 ho.1 ?_
  rcases roomy with wide | ⟨single, wide⟩
  · have row : (Layout.row items).Hangs floor floor (floor + 1) :=
      .attempt_line (.stacked_comma h)
    exact (row.seq_self (.text hc)).mono (by omega) wide
  · have row : (Layout.row items).Hangs floor floor floor :=
      .attempt_line (.stacked_single h single)
    exact (row.seq_self (.text hc)).mono wide wide

theorem Hangs.bracketedWhole {opening closing : String} (ho : Plain opening) (hc : OneLine closing)
    (h : ∀ item ∈ items, item.Solid floor)
    (roomy : Roomy floor column opening items) :
    (Layout.bracketedWhole opening closing items).Hangs floor column base := by
  refine .attempt_line (.depend_text ho.2 ho.1 ?_)
  rcases roomy with wide | ⟨single, wide⟩
  · exact ((Hangs.stacked_comma h).seq_self (.text hc)).mono (by omega) wide
  · exact ((Hangs.stacked_single h single).seq_self (.text hc)).mono wide wide

/-! ## Bodies, applications, operators -/

theorem Hangs.attach {separator : String} (hs : Plain separator) (flat : Bool)
    (h : l.Hangs floor floor floor) (starts : l.Starts floor base)
    (width : floor ≤ column + separator.length) :
    (Layout.attach separator flat l).Hangs floor column base := by
  have behind : (Layout.depend (.text separator) l).Hangs floor column base :=
    .depend_text hs.2 hs.1 (h.mono width width)
  unfold Layout.attach
  split
  · exact behind
  · exact .attempt .small behind ((Hangs.text hs.2).break_seq starts)

/-- A body that is moved right by one column. -/
theorem Hangs.attach_shifted {separator : String} (hs : Plain separator) (flat : Bool)
    (h : l.Solid floor) : (Layout.attach separator flat (.shift 1 l)).Hangs floor floor floor :=
  .attach hs flat h.hangs.shift_one h.starts.shift_one (Nat.le_add_right ..)

/-- What follows a pattern or a binding: a body behind its separator or one step below. -/
theorem Hangs.body {separator : String} (hs : Plain separator) (flat : Bool) (h : l.Solid floor)
    (hc : floor ≤ column + 1) (hb : floor ≤ base + 1) :
    (Layout.step (.attach separator flat l)).Hangs floor column base := by
  have width := hs.length_pos
  exact .step (.attach hs flat h.hangs (h.starts.mono hb) (by omega))

/-- The arguments stand behind the head or below it, one step further right than the base. -/
theorem Hangs.application {head : Layout} {args : List Argument}
    (hh : head.Hangs floor column base) (h : ∀ arg ∈ args, arg.layout.Solid floor)
    (nonempty : args ≠ []) (hc : floor ≤ column + 1) (hb : floor ≤ base + 1) :
    (Layout.application head args).Hangs floor column base := by
  have layouts : ∀ item ∈ args.map (·.layout), item.Solid floor := by
    intro item mem
    obtain ⟨arg, inArgs, rfl⟩ := List.mem_map.mp mem
    exact h arg inArgs
  have lines : (Layout.lined (args.map (·.layout))).Solid floor :=
    .lined layouts (by simpa using nonempty)
  have hanging : (Layout.hang (.lined (args.map (·.layout)))).Hangs floor (min floor column) base :=
    .hang (lines.hangs.mono (by omega) (by omega))
  have block : (Layout.newline ++ .step (.lined (args.map (·.layout)))).Hangs
      floor (min floor column) base :=
    .newline_seq (.step (lines.starts.mono hb))
  refine hh.byHead ?_ ?_
  · split
    · exact .attempt_line hanging
    · exact hanging
  · split
    · exact .attempt_line (.attempt _ hanging block)
    · exact .attempt _ hanging block

/-- The right operand stands behind the operator, or the broken form places it. -/
theorem Hangs.operation {op : String} {flat : Bool} {broken : Layout → Layout → Layout}
    (ho : OneLine op) (opens : left.Opens (· ≠ '\n')) (hl : left.Hangs floor column base)
    (hr : right.Solid floor) (hc : floor ≤ column + 1)
    (hbroken : ∀ {x : Layout}, x.Hangs floor column base →
      (broken (x ++ .newline) right).Hangs floor column base) :
    (Layout.operation flat left op right broken).Hangs floor column base := by
  have head : (left ++ Layout.space ++ .text op).Hangs floor column base :=
    (hl.seq .space).seq (.text ho)
  unfold Layout.operation
  split
  · refine .attempt .within ?_ (hbroken head)
    exact .depend_opened ((opens.seq _).seq _) (by decide) head
      (hr.hangs.mono (show floor ≤ min floor column + 1 by omega)
        (show floor ≤ min floor column + 1 by omega))
  · exact hbroken head

end Layout

end TrialLayout
