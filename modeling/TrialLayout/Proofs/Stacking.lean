import TrialLayout.Proofs.Closing
import TrialLayout.Proofs.Weaving

/-!
# Items one below the other

The items of a collection, the guards of a branch and the components of an arrow are stacked: each
item after the first stands on a line of its own, behind a lead that is moved left by its own width.
So all items start at one column, and each comes out as its rendering at that column, whatever the
items before it came out as. This holds for any items and any names.

* `Layout.stackText`: the text of a stack, put together from the renderings of its items.
* `Layout.stacked_output`: a stack that is run where the column is the base comes out as this text.
  Each line goes left by the width of the lead and comes back by writing it.
* `Collection`: tuples, lists and records with what stands before them, their delimiters and their
  items.

Result: `collections_stack`. A closing delimiter follows the last item at once, unless that item
ended its line. Then the indentation stands before the delimiter, as before all else that is
written at the start of a line; this takes an empty name (`empty_operand_indents_closing`).
-/

namespace TrialLayout

open Printer Text

/-! ## Definitions -/

/-- The text of items one below the other from `column`, with `lead` in front of all but the
first, left of that column. -/
def Layout.stackText (cfg : Config) (lead : String) (column : Nat) (items : List Layout) :
    List Char :=
  ('\n' :: List.replicate (column - lead.length) ' ' ++ lead.toList).intercalate
    (items.map (rendering cfg column))

/-- The indentation that is pending behind a text, under `base`. -/
def Text.indentationAfter (base : Nat) (text : List Char) : List Char :=
  if text.getLast? = some '\n' then List.replicate base ' ' else []

/-- Stacked items between delimiters. What is written at the start of a line, the closing
delimiter not excepted, stands behind the indentation. -/
def Layout.enclosedStack (cfg : Config) (opening closing : String) (column : Nat)
    (items : List Layout) : List Char :=
  opening.toList ++ (stackText cfg "," column items ++
    indentationAfter column (stackText cfg "," column items) ++ closing.toList)

/-- A collection: what stands before it, its delimiters and its items. Its line is measured up to
and with `measured`, which is the closing delimiter or nothing. -/
structure Collection where
  front : Layout
  opening : String
  closing : String
  measured : String
  items : List Layout
deriving DecidableEq, Repr

namespace Collection

/-- The line that is tried before the items are stacked. -/
def inline (c : Collection) : Layout := .listed c.items ++ .text c.measured

/-- The collection with its items stacked from `column`. -/
def stackedText (c : Collection) (cfg : Config) (column : Nat) : List Char :=
  Layout.enclosedStack cfg c.opening c.closing column c.items

end Collection

/-- The collection that an expression is. -/
def Expr.collection? : Expr → Option Collection
  | .tuple boxity items =>
      some ⟨.empty, boxity.opening, boxity.closing, "", items.map Expr.layout⟩
  | .list items => some ⟨.empty, "[", "]", "]", items.map Expr.layout⟩
  | .record name fields =>
      some ⟨.text name ++ .space, "\x7b", "\x7d", "", fields.map Field.layout⟩
  | .update updated fields =>
      some ⟨updated.layout ++ .space, "\x7b", "\x7d", "", fields.map Field.layout⟩
  | _ => none

/-! ## Printers -/

namespace Printer

/-- Inside a line, a text leads to the start of a line exactly if it ends in a newline. -/
theorem emit_atLineStart {p : Printer} (inLine : p.atLineStart = false) (text : List Char) :
    (p.emit text).atLineStart = decide (text.getLast? = some '\n') := by
  rcases List.eq_nil_or_concat text with rfl | ⟨init, c, rfl⟩
  · exact inLine
  · rw [List.concat_eq_append, emit_append, List.getLast?_concat]
    show ((p.emit init).emitChar c).atLineStart = _
    unfold emitChar
    split
    · next newline => simp [Printer.newline, newline]
    · next other => simp [other]

theorem pending_emit {p : Printer} (inLine : p.atLineStart = false) (text : List Char) :
    (p.emit text).pending = indentationAfter p.indent text := by
  rw [pending, emit_atLineStart inLine, emit_indent]
  simp [indentationAfter]

/-- What stands on the line, and what is pending, reaches up to the next character. -/
theorem lineWidth_add_pending (p : Printer) :
    p.lineWidth + p.pending.length = p.effectiveColumn := by
  unfold lineWidth pending effectiveColumn
  split <;> simp

end Printer

/-! ## Stacks -/

namespace Layout

variable {lead : String} {items : List Layout}

/-- Items that open, each on a line of its own: each comes out as its rendering at the base. -/
theorem underneath_output {P : Char → Prop} (h : ∀ item ∈ items, item.Opens P) (cfg : Config)
    (p : Printer) :
    ((underneath items).run cfg p).output.toList = p.output.toList ++
      (items.map fun item => '\n' :: List.replicate p.indent ' ' ++
        item.rendering cfg p.indent).flatten := by
  induction items generalizing p with
  | nil => simp [underneath, concat, empty, run]
  | cons item rest ih =>
    rw [List.forall_mem_cons] at h
    have first : (item.run cfg p.newline).output.toList =
        p.output.toList ++
          ('\n' :: List.replicate p.indent ' ' ++ item.rendering cfg p.indent) := by
      rw [h.1.output_eq cfg (p := p.newline) (fun _ => rfl) rfl]
      simp [Printer.newline, pending]
    have more := ih h.2 (item.run cfg p.newline)
    rw [first, item.run_indent cfg p.newline] at more
    refine more.trans ?_
    rw [List.map_cons, List.flatten_cons, List.append_assoc]
    rfl

/-- What stands behind an opening delimiter is run where the column is the base. -/
theorem depend_text_output {opening : String} (ho : Plain opening) (right : Layout) (cfg : Config)
    {p : Printer} (consistent : p.Consistent) {text : List Char}
    (h : ∀ q : Printer, q.atLineStart = false → q.column = q.indent →
      q.indent = p.effectiveColumn + opening.length →
      (right.run cfg q).output.toList = q.output.toList ++ text) :
    ((depend (.text opening) right).run cfg p).output.toList =
      p.output.toList ++ p.pending ++ (opening.toList ++ text) := by
  obtain ⟨q, inLine, base, aligned, written, output⟩ :=
    depend_text_run ho.leads right cfg consistent
  rw [output, h q inLine aligned base, written, List.append_assoc]

/-- Behind a lead, an item is rendered where the lead ends. -/
theorem rendering_depend_text (plain : Plain lead) (item : Layout) (cfg : Config) (column : Nat) :
    (depend (text lead) item).rendering cfg column =
      lead.toList ++ item.rendering cfg (column + lead.length) :=
  depend_text_output plain item cfg (p := .inside column) (.of_inLine rfl)
    fun _ inLine aligned base => base ▸ item.output_of_aligned cfg inLine aligned

/-- A stack that starts where the column is the base, with room for the lead left of it. -/
theorem stacked_output (plain : Plain lead) (items : List Layout) (cfg : Config) {p : Printer}
    (inLine : p.atLineStart = false) (aligned : p.column = p.indent)
    (fits : lead.length ≤ p.indent) (room : p.indent ≤ maxWidth) :
    ((stacked lead items).run cfg p).output.toList =
      p.output.toList ++ stackText cfg lead p.indent items := by
  cases items with
  | nil => simp [stacked, stackText, empty, run]
  | cons item rest =>
    have indent : (item.run cfg p).indent = p.indent := item.run_indent cfg p
    have dedented : shifted (item.run cfg p).indent (-(lead.length : Int)) =
        p.indent - lead.length := by
      unfold shifted
      omega
    have opens : ∀ other ∈ rest.map (depend (text lead)), other.Opens (· ≠ '\n') :=
      List.forall_mem_map.mpr fun other _ => (Opens.text plain.leads).depend other
    have lines := underneath_output opens cfg
      ((item.run cfg p).setIndent (p.indent - lead.length))
    show ((underneath (rest.map (depend (text lead)))).run cfg
      ((item.run cfg p).setIndent (shifted (item.run cfg p).indent _))).output.toList = _
    rw [dedented, lines, List.map_map]
    show (item.run cfg p).output.toList ++ _ = _
    rw [item.output_of_aligned cfg inLine aligned, stackText, List.map_cons, intercalate_cons_eq,
      List.map_map, List.append_assoc]
    congr 3
    refine List.map_congr_left fun other _ => ?_
    show _ ++ (depend (text lead) other).rendering cfg (p.indent - lead.length) = _
    rw [rendering_depend_text plain, Nat.sub_add_cancel fits]
    simp [setIndent]

/-- What is written behind a stack comes behind the indentation, if that is pending. -/
theorem stacked_seq_output (plain : Plain lead) (items : List Layout) {closing : String}
    (hc : Plain closing) (cfg : Config) {p : Printer} (inLine : p.atLineStart = false)
    (aligned : p.column = p.indent) (fits : lead.length ≤ p.indent) (room : p.indent ≤ maxWidth) :
    ((stacked lead items ++ text closing).run cfg p).output.toList =
      p.output.toList ++ (stackText cfg lead p.indent items ++
        indentationAfter p.indent (stackText cfg lead p.indent items) ++ closing.toList) := by
  obtain ⟨stack, emitted⟩ := (stacked lead items).run_emits cfg (.of_inLine inLine)
  have output := stacked_output plain items cfg inLine aligned fits room
  have shape : stack = stackText cfg lead p.indent items := by
    rw [emitted, emit_output] at output
    exact List.append_cancel_left output
  show (((stacked lead items).run cfg p).write closing).output.toList = _
  rw [write_output _ hc.1 hc.2, output, emitted, pending_emit inLine, shape]
  simp

/-! ## Trials -/

/-- A line that is tried where the column is the base is kept exactly if it fits. -/
theorem accepts_line_iff_fitsFrom (l : Layout) (cfg : Config) {p : Printer}
    (inLine : p.atLineStart = false) (aligned : p.column = p.indent) :
    Fit.line.accepts cfg (p.trial (l.run cfg)) = true ↔
      l.FitsFrom cfg cfg.columnLimit p.indent := by
  obtain ⟨text, advances⟩ := l.run_advances cfg p
  have shape : text = l.rendering cfg p.indent :=
    List.append_cancel_left (advances.output.symm.trans (l.output_of_aligned cfg inLine aligned))
  rw [accepts_line_iff, stays_iff advances.output, FitsFrom, shape]
  refine and_congr_right fun oneLine => ?_
  rw [shape] at advances
  rw [← lineWidth_of_inLine (advances.inLine oneLine inLine), advances.width oneLine,
    lineWidth_of_inLine inLine, aligned]

/-- A whole collection that is tried is kept exactly if what follows its opening delimiter fits. -/
theorem accepts_line_depend_iff {opening closing : String} (ho : Plain opening)
    (hc : Plain closing) (l : Layout) (cfg : Config) {p : Printer} (consistent : p.Consistent) :
    Fit.line.accepts cfg (p.trial ((depend (text opening) (l ++ text closing)).run cfg)) = true ↔
      (l ++ text closing).FitsFrom cfg cfg.columnLimit (p.effectiveColumn + opening.length) := by
  obtain ⟨text, advances⟩ :=
    (depend (.text opening) (l ++ .text closing)).run_advances cfg p
  have output := depend_text_output ho (l ++ .text closing) cfg consistent
    fun q inLine aligned base =>
      base ▸ (l ++ Layout.text closing).output_of_aligned cfg inLine aligned
  have shape : text = p.pending ++ (opening.toList ++
      (l ++ .text closing).rendering cfg (p.effectiveColumn + opening.length)) := by
    rw [advances.output, List.append_assoc] at output
    exact List.append_cancel_left output
  have closes : (depend (.text opening) (l ++ .text closing)).Closes .inLine false :=
    .depend_right _ (.seq_right _ (.text (hc.carries fun _ => trivial)))
  rw [accepts_line_iff, stays_iff advances.output, FitsFrom, shape]
  have oneLine_iff : '\n' ∉ p.pending ++ (opening.toList ++
      (l ++ .text closing).rendering cfg (p.effectiveColumn + opening.length)) ↔
        '\n' ∉ (l ++ .text closing).rendering cfg (p.effectiveColumn + opening.length) := by
    rw [List.mem_append, List.mem_append, not_or, not_or]
    exact (and_iff_right p.newline_not_mem_pending).trans (and_iff_right ho.2)
  rw [oneLine_iff]
  refine and_congr_right fun oneLine => ?_
  rw [shape] at advances
  rw [← lineWidth_of_inLine (closes cfg p nofun), advances.width (oneLine_iff.mpr oneLine),
    List.length_append, List.length_append, ← p.lineWidth_add_pending, String.length_toList]
  omega

/-! ## Brackets -/

section

variable {opening closing : String} (ho : Plain opening) (hc : Plain closing) (items : List Layout)
  (cfg : Config) {p : Printer} (consistent : p.Consistent)
  (room : p.effectiveColumn + opening.length ≤ maxWidth)

include ho hc consistent room

/-- The stack behind an opening delimiter and the closing delimiter behind it. -/
theorem enclosed_stack_output :
    ((depend (text opening) (stacked "," items ++ text closing)).run cfg p).output.toList =
      p.output.toList ++ p.pending ++
        enclosedStack cfg opening closing (p.effectiveColumn + opening.length) items := by
  refine depend_text_output ho _ cfg consistent fun q inLine aligned base => ?_
  have width : ",".length ≤ q.indent := base ▸ Nat.le_trans ho.length_pos (Nat.le_add_left _ _)
  rw [← base] at room ⊢
  exact stacked_seq_output (by decide) items hc cfg inLine aligned width room

/-- A row between brackets that does not fit. -/
theorem bracketed_output
    (refused : ¬(listed items).FitsFrom cfg cfg.columnLimit (p.effectiveColumn + opening.length)) :
    ((bracketed opening closing items).run cfg p).output.toList = p.output.toList ++ p.pending ++
      enclosedStack cfg opening closing (p.effectiveColumn + opening.length) items := by
  refine depend_text_output ho _ cfg consistent fun q inLine aligned base => ?_
  have width : ",".length ≤ q.indent := base ▸ Nat.le_trans ho.length_pos (Nat.le_add_left _ _)
  rw [← base] at room refused ⊢
  have fallback : (row items).run cfg q = (stacked "," items).run cfg q := by
    rw [row, run_attempt, if_neg]
    rwa [accepts_line_iff_fitsFrom _ cfg inLine aligned]
  show (((row items).run cfg q).write closing).output.toList = _
  rw [fallback]
  exact stacked_seq_output (by decide) items hc cfg inLine aligned width room

/-- A row that does not fit together with its closing bracket. -/
theorem bracketedWhole_output
    (refused : ¬(listed items ++ text closing).FitsFrom cfg cfg.columnLimit
      (p.effectiveColumn + opening.length)) :
    ((bracketedWhole opening closing items).run cfg p).output.toList =
      p.output.toList ++ p.pending ++
        enclosedStack cfg opening closing (p.effectiveColumn + opening.length) items := by
  rw [bracketedWhole, run_attempt, if_neg]
  · exact enclosed_stack_output ho hc items cfg consistent room
  · rwa [accepts_line_depend_iff ho hc _ cfg consistent]

end

end Layout

/-! ## Collections -/

theorem Expr.collection_plain {e : Expr} {c : Collection} (h : e.collection? = some c) :
    Plain c.opening := by
  cases e with
  | tuple boxity items =>
    cases h
    cases boxity with
    | boxed => exact (by decide : Plain "(")
    | unboxed => exact (by decide : Plain "(# ")
  | list =>
    cases h
    exact (by decide : Plain "[")
  | record | update =>
    cases h
    exact (by decide : Plain "\x7b")
  | _ => cases h

/-- Where its line does not fit, a collection that is not empty is stacked. -/
theorem Expr.collection_output {e : Expr} {c : Collection} (h : e.collection? = some c)
    (nonempty : c.items ≠ []) (cfg : Config) {p : Printer} (consistent : p.Consistent)
    (room : (c.front.run cfg p).effectiveColumn + c.opening.length ≤ maxWidth)
    (refused : ¬c.inline.FitsFrom cfg cfg.columnLimit
      ((c.front.run cfg p).effectiveColumn + c.opening.length)) :
    (e.layout.run cfg p).output.toList =
      (c.front.run cfg p).output.toList ++ (c.front.run cfg p).pending ++
        c.stackedText cfg ((c.front.run cfg p).effectiveColumn + c.opening.length) := by
  have braces : Plain "\x7b" ∧ Plain "\x7d" := by decide
  cases e with
  | tuple boxity items =>
    cases h
    have delimiters : Plain boxity.opening ∧ Plain boxity.closing := by cases boxity <;> decide
    have some : items.isEmpty = false := by simpa using nonempty
    have layout : (Expr.tuple boxity items).layout =
        .bracketed boxity.opening boxity.closing (items.map Expr.layout) := by
      rw [Expr.layout, Expr.forms, some, Expr.layouts_eq_map]
      rfl
    rw [layout]
    exact Layout.bracketed_output delimiters.1 delimiters.2 _ cfg consistent room refused
  | list items =>
    cases h
    have some : items.isEmpty = false := by simpa using nonempty
    have layout : (Expr.list items).layout = .bracketedWhole "[" "]" (items.map Expr.layout) := by
      rw [Expr.layout, Expr.forms, some, Expr.layouts_eq_map]
      rfl
    rw [layout]
    exact Layout.bracketedWhole_output (by decide) (by decide) _ cfg consistent room refused
  | record name fields =>
    cases h
    have layout : (Expr.record name fields).layout =
        .text name ++ .space ++ .bracketed "\x7b" "\x7d" (fields.map Field.layout) := by
      rw [Expr.layout, Expr.forms, Field.layouts_eq_map]
      rfl
    rw [layout]
    exact Layout.bracketed_output braces.1 braces.2 _ cfg
      (Layout.run_consistent cfg _ consistent) room refused
  | update updated fields =>
    cases h
    have layout : (Expr.update updated fields).layout =
        updated.layout ++ .space ++ .bracketed "\x7b" "\x7d" (fields.map Field.layout) := by
      rw [Expr.layout, Expr.forms, Field.layouts_eq_map]
      rfl
    rw [layout]
    exact Layout.bracketed_output braces.1 braces.2 _ cfg
      (Layout.run_consistent cfg _ consistent) room refused
  | _ => cases h

/-- Items that close leave nothing pending behind their stack. -/
theorem Layout.indentationAfter_stackText {lead : String} (plain : Plain lead)
    {items : List Layout} (nonempty : items ≠ [])
    (closes : ∀ item ∈ items, item.Closes .inLine false) (cfg : Config) {column : Nat}
    (fits : lead.length ≤ column) (room : column ≤ maxWidth) :
    indentationAfter column (stackText cfg lead column items) = [] := by
  obtain ⟨stack, emitted⟩ := (stacked lead items).run_emits cfg
    (.of_inLine (rfl : (Printer.inside column).atLineStart = false))
  have output := stacked_output plain items cfg (p := .inside column) rfl rfl fits room
  rw [emitted, emit_output] at output
  have shape : stack = stackText cfg lead column items := output
  have closed : (stacked lead items).Closes .inLine false := .stacked nonempty closes
  have ends := closed cfg (.inside column) nofun
  have indentation : ((Printer.inside column).emit stack).pending = indentationAfter column stack :=
    pending_emit rfl stack
  rw [emitted] at ends
  rw [← shape, ← indentation, pending, ends]
  rfl

/-- The items of a collection close if none of its names is empty. -/
theorem Expr.collection_closes {e : Expr} {c : Collection} (h : e.collection? = some c)
    (names : e.EveryName Plain) : ∀ item ∈ c.items, item.Closes .inLine false := by
  cases e with
  | tuple boxity items =>
    cases h
    exact Expr.layouts_eq_map items ▸ Expr.layouts_close_plain names
  | list items =>
    cases h
    exact Expr.layouts_eq_map items ▸ Expr.layouts_close_plain names
  | record name fields =>
    cases h
    exact Field.layouts_eq_map fields ▸ Field.layouts_close_plain names.2
  | update updated fields =>
    cases h
    exact Field.layouts_eq_map fields ▸ Field.layouts_close_plain names.2
  | _ => cases h

/-! ## Guards -/

/-- The bars of guarded branches stand one step inside the base, one below the other. -/
theorem Rhs.guarded_output (separator : String) (branches : List Branch) (cfg : Config)
    (p : Printer) :
    (((Rhs.guarded branches).layout separator).run cfg p).output.toList = p.output.toList ++
      (branches.map fun branch => '\n' :: List.replicate (cfg.stepFrom p.indent) ' ' ++
        (branch.layout separator).rendering cfg (cfg.stepFrom p.indent)).flatten := by
  have opens : ∀ item ∈ Branch.layouts separator branches, item.Opens (· ≠ '\n') := by
    rw [Branch.layouts_eq_map]
    refine List.forall_mem_map.mpr fun branch _ => ?_
    cases branch with
    | mk guards body => exact (Layout.Opens.text (show Plain "|" by decide).leads).seq _
  have lines := Layout.underneath_output opens cfg (p.setIndent (cfg.stepFrom p.indent))
  rw [Branch.layouts_eq_map, List.map_map] at lines
  rw [Rhs.layout, Branch.layouts_eq_map]
  exact lines

/-- Behind its bar, a branch stacks its guards, each behind a space, and goes on with its body. -/
theorem Branch.rendering_eq (separator : String) (guards : List Expr) (body : Expr) (cfg : Config)
    {column : Nat} (room : column + 1 ≤ maxWidth) :
    ∃ q : Printer, q.indent = column + 1 ∧
      q.output.toList = '|' :: Layout.stackText cfg "," (column + 1)
        (guards.map fun guard => .space ++ guard.layout) ∧
      ((Branch.mk guards body).layout separator).rendering cfg column =
        ((Layout.attach separator body.isFlat (.shift 1 body.layout)).run cfg q).output.toList := by
  have items : (Expr.layouts guards).map (Layout.space ++ ·) =
      guards.map fun guard => .space ++ guard.layout := by
    rw [Expr.layouts_eq_map, List.map_map]
    rfl
  have shifted_one : shifted column 1 = column + 1 := by
    unfold shifted
    omega
  obtain ⟨bar, written⟩ : ∃ bar : Printer,
      bar = ((Printer.inside column).write "|").setIndent (shifted column 1) := ⟨_, rfl⟩
  have shape : bar = ⟨"|", 0, column + 1, column + 1, false⟩ := by
    rw [written, write_of_inLine rfl (by decide), shifted_one]
    rfl
  have output := Layout.stacked_output (show Plain "," by decide)
    (guards.map fun guard => .space ++ guard.layout) cfg (p := bar) (by rw [shape])
    (by rw [shape]) (by rw [shape]; exact Nat.le_add_left 1 column) (by rw [shape]; exact room)
  refine ⟨(Layout.stacked "," (guards.map fun guard => .space ++ guard.layout)).run cfg bar,
    ?_, ?_, ?_⟩
  · rw [Layout.run_indent, shape]
  · rw [output, shape]
    simp
  · rw [written, ← items]
    rfl

/-! ## Main statement -/

/-- Stacked collections are aligned, and so are stacked guards, whatever their names are.

* Where the line of a collection that is not empty does not fit, what is appended behind its front
  is the opening delimiter, which ends at `column`, the renderings of the items at that column, with
  a comma in front of all but the first, left of the column, and the closing delimiter, behind the
  pending indentation if the last item ended its line. If no name is empty, no item does so.
* Guarded branches come out as their renderings one step inside the base, the sum of the two as
  long as it can be represented. Each of them is its bar, the stack of its guards behind that bar,
  each guard behind a space, and its body. -/
theorem collections_stack (cfg : Config) :
    (∀ (e : Expr) (c : Collection) (p : Printer), e.collection? = some c → c.items ≠ [] →
      p.Consistent →
      let q := c.front.run cfg p
      let column := q.effectiveColumn + c.opening.length
      column ≤ maxWidth → ¬c.inline.FitsFrom cfg cfg.columnLimit column →
        (e.layout.run cfg p).output.toList =
            q.output.toList ++ q.pending ++ c.stackedText cfg column ∧
          (e.EveryName Plain → c.stackedText cfg column =
            c.opening.toList ++ Layout.stackText cfg "," column c.items ++ c.closing.toList)) ∧
    ∀ (separator : String) (branches : List Branch) (p : Printer),
      let bar := cfg.stepFrom p.indent
      (p.indent + cfg.indentSpaces ≤ maxWidth → bar = p.indent + cfg.indentSpaces) ∧
        (((Rhs.guarded branches).layout separator).run cfg p).output.toList = p.output.toList ++
          (branches.map fun branch => '\n' :: List.replicate bar ' ' ++
            (branch.layout separator).rendering cfg bar).flatten ∧
        (bar + 1 ≤ maxWidth → ∀ guards body, Branch.mk guards body ∈ branches →
          ∃ q : Printer, q.indent = bar + 1 ∧
            q.output.toList = '|' :: Layout.stackText cfg "," (bar + 1)
              (guards.map fun guard => .space ++ guard.layout) ∧
            ((Branch.mk guards body).layout separator).rendering cfg bar =
              ((Layout.attach separator body.isFlat (.shift 1 body.layout)).run cfg
                q).output.toList) := by
  constructor
  · intro e c p shape nonempty consistent q column room refused
    refine ⟨Expr.collection_output shape nonempty cfg consistent room refused, fun names => ?_⟩
    have width : ",".length ≤ column :=
      Nat.le_trans (Expr.collection_plain shape).length_pos (Nat.le_add_left _ _)
    have closed := Layout.indentationAfter_stackText (show Plain "," by decide) nonempty
      (Expr.collection_closes shape names) cfg width room
    simp [Collection.stackedText, Layout.enclosedStack, closed]
  · intro separator branches p bar
    exact ⟨Config.stepFrom_eq, Rhs.guarded_output separator branches cfg p,
      fun room guards body _ => Branch.rendering_eq separator guards body cfg room⟩

/-- A pair whose first item takes two lines. -/
def steppedPair : Expr := .tuple .boxed [.block [.expr (.var "a"), .expr (.var "b")], .var "c"]

/-- Behind two spaces of pending indentation, the second item stands under the first one, two
lines further down; and two guards stand behind the bar of their branch. -/
theorem collections_stack_pair :
    (steppedPair.layout.run {} ⟨"", 0, 0, 2, true⟩).output.toList =
        "  ".toList ++ ("(".toList ++ Layout.stackText {} "," 3
          [(Expr.block [.expr (.var "a"), .expr (.var "b")]).layout, (Expr.var "c").layout] ++
            ")".toList) ∧
      (steppedPair.layout.run {} ⟨"", 0, 0, 2, true⟩).output = "  (do a\n      b\n  ,c)" ∧
      ∃ q : Printer, q.indent = 3 ∧
        q.output.toList = '|' :: Layout.stackText {} "," 3
          [.space ++ (Expr.var "a").layout, .space ++ (Expr.var "b").layout] ∧
        ((Branch.mk [.var "a", .var "b"] (.var "c")).layout " = ").rendering {} 2 =
          ((Layout.attach " = " true (.shift 1 (Expr.var "c").layout)).run {} q).output.toList := by
  have a : Plain "a" := by decide
  have b : Plain "b" := by decide
  have c : Plain "c" := by decide
  have wide : ¬(Layout.listed [(Expr.block [.expr (.var "a"), .expr (.var "b")]).layout,
      (Expr.var "c").layout] ++ .text "").FitsFrom {} 80 3 :=
    fun fits => absurd fits.1 (by decide +kernel)
  obtain ⟨output, closed⟩ := (collections_stack {}).1 steppedPair _ ⟨"", 0, 0, 2, true⟩ rfl nofun
    (fun _ => rfl) (by decide) wide
  refine ⟨?_, by decide +kernel, ?_⟩
  · rw [output, closed ⟨⟨a, b, trivial⟩, c, trivial⟩]
    rfl
  · exact ((collections_stack {}).2 " = " [.mk [.var "a", .var "b"] (.var "c")] .start).2.2
      (by decide) _ _ (.head _)

/-- A tuple of one operation, whose right operand has an empty name. -/
def emptyOperand : Expr :=
  .tuple .boxed [.binary (.tuple .boxed []) (.symbol "+") (.var "")]

/-- With an empty name an item can end its line, and then the closing delimiter does not follow
it at once. -/
theorem empty_operand_indents_closing :
    emptyOperand.EveryName OneLine ∧
      ¬(Layout.listed [(Expr.binary (.tuple .boxed []) (.symbol "+") (.var "")).layout]).FitsFrom
        {} 80 1 ∧
      (emptyOperand.layout.run {} .start).output = "(() +\n )" ∧
      (emptyOperand.layout.run {} .start).output.toList ≠
        "(".toList ++ Layout.stackText {} "," 1
          [(Expr.binary (.tuple .boxed []) (.symbol "+") (.var "")).layout] ++ ")".toList := by
  have plus : OneLine "+" := by decide
  have empty : OneLine "" := by decide
  exact ⟨⟨⟨trivial, plus, empty⟩, trivial⟩, fun fits => absurd fits.1 (by decide +kernel),
    by decide +kernel, by decide +kernel⟩

end TrialLayout
