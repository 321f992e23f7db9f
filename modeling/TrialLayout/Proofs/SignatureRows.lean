import TrialLayout.Proofs.Breaking
import TrialLayout.Proofs.Stacking

/-!
# Rows of a signature

The type of a signature comes out in rows. The contents of all rows start at one column, the one
behind the double colon; what leads a row, an arrow, stands left of that column, under the colons.

* `Row`: a lead and a content, with the line that they come out as.
* `Ty.rows`: the rows of a type: the quantifier, the context, and the body, on one row if that is
  small, else with one arrow component a row.
* `Layout.Rows`: a layout comes out as given rows. A row is put above others by ending its line
  (`Rows.above`); the arrow of a context goes left by its width and comes back by writing it.

Result: `signature_aligned`.
-/

namespace TrialLayout

open Printer Text

/-! ## Definitions -/

/-- A text that is neither empty nor contains white space. -/
def Text.Word (text : String) : Prop := text ≠ "" ∧ ∀ c ∈ text.toList, isBlank c = false

instance (text : String) : Decidable (Word text) :=
  decidable_of_iff (text ≠ "" ∧ text.toList.all (!isBlank ·) = true) (by simp [Word])

/-- A text that begins with a character other than a space. -/
def Text.Flush (text : String) : Prop := text.toList.head?.any (· != ' ') = true

instance (text : String) : Decidable (Flush text) := inferInstanceAs (Decidable (_ = _))

/-- What stands left of a content. -/
inductive Lead where
  | none
  | implies
  | arrow
deriving DecidableEq, Repr

def Lead.text : Lead → String
  | none => ""
  | implies => "=> "
  | arrow => "-> "

/-- What stands on a line: a content, and what leads it. -/
structure Row where
  lead : Lead
  content : String
deriving DecidableEq, Repr

namespace Row

/-- The line of a row whose content starts at `column`. -/
def line (column : Nat) (r : Row) : List Char :=
  List.replicate (column - r.lead.text.length) ' ' ++ r.lead.text.toList ++ r.content.toList

/-- Contents one below the other, with an arrow in front of all but the first. -/
def stack (lead : Lead) : List String → List Row
  | [] => []
  | first :: rest => ⟨lead, first⟩ :: rest.map (mk .arrow)

end Row

namespace Ty

/-- The explicit binders of a type. -/
def binders : Ty → List String
  | quantified binders _ _ => binders
  | _ => []

/-- The class context of a type. -/
def context : Ty → List Ty
  | quantified _ context _ => context
  | _ => []

/-- The type without its binders and its context. -/
def body : Ty → Ty
  | quantified _ _ body => body
  | t => t

def quantifierText (binders : List String) : String := "forall " ++ " ".intercalate binders ++ "."

/-- The row of the quantifier, if there is one. -/
def quantifierRows (binders : List String) : List Row :=
  if binders.isEmpty then [] else [⟨.none, quantifierText binders⟩]

/-- The row of the context, if there is one. -/
def contextRows (context : List Ty) : List Row :=
  if context.isEmpty then [] else [⟨.none, contextText context⟩]

/-- The contents of the rows of a body: the body, or its arrow components. -/
def bodyTexts (cfg : Config) (column : Nat) (t : Ty) : List String :=
  if column + t.inline.length < cfg.smallColumnLimit then [t.inline] else t.arrows.map inline

/-- The rows above the body. -/
def above (t : Ty) : List Row := quantifierRows t.binders ++ contextRows t.context

/-- The rows of the type of a signature. -/
def rows (cfg : Config) (column : Nat) (t : Ty) : List Row :=
  t.above ++ Row.stack (if t.context.isEmpty then .none else .implies) (t.body.bodyTexts cfg column)

/-- The lines of the rows. -/
def lines (cfg : Config) (column : Nat) (t : Ty) : List (List Char) :=
  (t.rows cfg column).map (Row.line column)

end Ty

/-- Rendered at `column`, behind as many spaces, the layout comes out as the lines of `rows`. -/
def Layout.Rows (cfg : Config) (column : Nat) (rows : List Row) (l : Layout) : Prop :=
  List.replicate column ' ' ++ l.rendering cfg column = joinLines (rows.map (Row.line column))

/-! ## Texts -/

namespace Text

theorem Word.plain {text : String} (h : Word text) : Plain text := by
  refine ⟨h.1, fun mem => ?_⟩
  exact absurd (h.2 '\n' mem) (by decide)

theorem Flush.exists_cons {text : String} (h : Flush text) :
    ∃ c rest, text.toList = c :: rest ∧ c ≠ ' ' := by
  unfold Flush at h
  cases shape : text.toList with
  | nil => simp [shape] at h
  | cons c rest => exact ⟨c, rest, rfl, by simpa [shape] using h⟩

theorem Word.flush {text : String} (h : Word text) : Flush text := by
  obtain ⟨-, c, rest, shape, -⟩ := h.plain.leads
  have other : c ≠ ' ' := by
    rintro rfl
    exact absurd (h.2 ' ' (shape ▸ List.mem_cons_self)) (by decide)
  simpa [Flush, shape] using other

theorem Flush.append {a : String} (h : Flush a) (b : String) : Flush (a ++ b) := by
  obtain ⟨c, rest, shape, other⟩ := h.exists_cons
  simpa [Flush, shape] using other

theorem joinLines_cons (line : List Char) {lines : List (List Char)} (nonempty : lines ≠ []) :
    joinLines (line :: lines) = line ++ '\n' :: joinLines lines := by
  have single : joinLines [line] = line := List.intercalate_singleton
  rw [← List.singleton_append, joinLines_append (by simp) nonempty, single]

end Text

/-! ## Types on one line -/

namespace Ty

mutual

/-- A type on one line begins with a name, a delimiter or a keyword. -/
theorem inline_flush : (t : Ty) → t.EveryName Flush → Flush t.inline
  | con _, h | var _, h => h
  | app func _, h => ((func.inline_flush h.1).append _).append _
  | arrow arg _, h => ((arg.inline_flush h.1).append _).append _
  | tuple boxity items, _ => by
      have delimiters : Flush boxity.unit ∧ Flush boxity.opening := by cases boxity <;> decide
      rw [inline]
      split
      · exact delimiters.1
      · exact (delimiters.2.append _).append _
  | list _, _ => .append (.append (by decide) _) _
  | paren _, _ => .append (.append (by decide) _) _
  | quantified binders context body, h => by
      have last := body.inline_flush h.2.2
      have assertions := inlineAll_flush context h.2.1
      rw [inline]
      split
      · next none =>
        -- without binders, the context or the body comes first
        rw [String.empty_append]
        split
        · rwa [String.empty_append]
        · next single shape => exact ((assertions single (by simp [shape])).append _).append _
        · exact .append (.append (.append (by decide) _) _) _
      · exact .append (.append (.append (.append (by decide) _) _) _) _

theorem inlineAll_flush : (ts : List Ty) → EveryNameIn Flush ts →
    ∀ text ∈ inlineAll ts, Flush text
  | [], _ => List.forall_mem_nil _
  | t :: rest, h => List.forall_mem_cons.mpr ⟨t.inline_flush h.1, inlineAll_flush rest h.2⟩

end

end Ty

/-! ## Stacks of rows -/

theorem Lead.length_text {lead : Lead} (arrow : lead ≠ .none) : lead.text.length = 3 := by
  cases lead with
  | none => exact absurd rfl arrow
  | implies | arrow => rfl

theorem Row.line_of_no_lead (column : Nat) (content : String) :
    Row.line column ⟨.none, content⟩ = List.replicate column ' ' ++ content.toList := by
  simp [line, Lead.text]

theorem Row.stack_ne_nil (lead : Lead) {contents : List String} (nonempty : contents ≠ []) :
    stack lead contents ≠ [] := by
  cases contents with
  | nil => exact absurd rfl nonempty
  | cons first rest => simp [stack]

/-- A stack of rows: its lines are the contents with an arrow between each two. -/
theorem Row.join_stack (column : Nat) (lead : Lead) {contents : List String}
    (nonempty : contents ≠ []) :
    joinLines ((stack lead contents).map (line column)) =
      List.replicate (column - lead.text.length) ' ' ++ lead.text.toList ++
        ('\n' :: List.replicate (column - 3) ' ' ++ "-> ".toList).intercalate
          (contents.map String.toList) := by
  cases contents with
  | nil => exact absurd rfl nonempty
  | cons first rest =>
    have width : "-> ".length = 3 := rfl
    simp [stack, joinLines, intercalate_cons_eq, line, Lead.text, Function.comp_def, width]

/-- In a stack only the first row has the given lead. -/
theorem Row.lead_of_stack {lead : Lead} {contents : List String} {i : Nat} {row : Row}
    (h : (stack lead contents)[i]? = some row) : row.lead = lead ∧ i = 0 ∨ row.lead = .arrow := by
  cases contents with
  | nil => simp [stack] at h
  | cons first rest =>
    cases i with
    | zero => exact .inl ⟨by rw [← Option.some.inj h], rfl⟩
    | succ i =>
      rw [stack, List.getElem?_cons_succ, List.getElem?_map, Option.map_eq_some_iff] at h
      obtain ⟨content, -, rfl⟩ := h
      exact .inr rfl

theorem Row.content_of_stack {lead : Lead} {contents : List String} :
    (stack lead contents).map content = contents := by
  cases contents with
  | nil => rfl
  | cons first rest => simp [stack, Function.comp_def]

/-! ## Lines of rows -/

namespace Row

variable {row : Row} {column : Nat}

theorem newline_not_mem_line (leads : Leads (· ≠ ' ') row.content) : '\n' ∉ row.line column := by
  have lead : OneLine row.lead.text := by cases row.lead <;> decide
  have blank : '\n' ∉ List.replicate (column - row.lead.text.length) ' ' := by
    simp [List.mem_replicate]
  rw [line, List.mem_append, List.mem_append, not_or, not_or]
  exact ⟨⟨blank, lead⟩, leads.1⟩

/-- A line starts with its lead, or with its content if there is no lead. -/
theorem leadingSpaces_line (leads : Leads (· ≠ ' ') row.content) :
    leadingSpaces (row.line column) = column - row.lead.text.length := by
  have first : ∃ c rest, row.lead.text.toList ++ row.content.toList = c :: rest ∧ c ≠ ' ' := by
    cases row.lead with
    | none => exact leads.2
    | implies | arrow => exact ⟨_, _, rfl, by decide⟩
  obtain ⟨c, rest, shape, other⟩ := first
  rw [line, List.append_assoc, shape]
  exact BreaksAt.leadingSpaces_replicate_cons other rest

/-- The line of a row with an arrow starts with it, three columns left of the content. -/
theorem arrow_line (column : Nat) (leads : Leads (· ≠ ' ') row.content)
    (arrow : row.lead ≠ .none) :
    leadingSpaces (row.line column) = column - 3 ∧
      row.lead.text.toList <+: (row.line column).drop (column - 3) := by
  have width : row.lead.text.length = 3 := Lead.length_text arrow
  refine ⟨width ▸ leadingSpaces_line leads, row.content.toList, ?_⟩
  rw [line, width, List.append_assoc, List.drop_left' List.length_replicate]

/-- The content of a row starts at the column. -/
theorem drop_line (wide : 3 ≤ column) : (row.line column).drop column = row.content.toList := by
  have width : row.lead.text.length ≤ 3 := by cases row.lead <;> decide
  refine List.drop_left' ?_
  rw [List.length_append, List.length_replicate, String.length_toList]
  omega

end Row

/-! ## Rows of layouts -/

theorem Printer.inside_write {content : String} (oneLine : OneLine content) (column : Nat) :
    (Printer.inside column).write content =
      ⟨content, 0, column + content.length, column, false⟩ := by
  rw [write_of_inLine rfl oneLine]
  simp [Printer.inside]

namespace Layout

variable {P : Char → Prop} {cfg : Config} {column : Nat} {l : Layout} {content : String}

/-- What opens below the end of a line comes out as its rendering at the base. -/
theorem Opens.newline_output (h : l.Opens P) (cfg : Config) (q : Printer) (base : Nat) :
    (l.run cfg (q.newline.setIndent base)).output.toList =
      q.output.toList ++ '\n' :: (List.replicate base ' ' ++ l.rendering cfg base) := by
  rw [h.output_eq cfg (p := q.newline.setIndent base) (fun _ => rfl) rfl]
  simp [Printer.newline, pending, setIndent]

theorem rendering_text (oneLine : OneLine content) (column : Nat) :
    (text content).rendering cfg column = content.toList := by
  rw [rendering, run, inside_write oneLine]

/-- A text on a line of its own, and below it a part under the same base. -/
theorem rendering_above (oneLine : OneLine content) (opens : l.Opens P) :
    (text content ++ newline ++ l).rendering cfg column =
      content.toList ++ '\n' :: (List.replicate column ' ' ++ l.rendering cfg column) := by
  show (l.run cfg ((Printer.inside column).write content).newline).output.toList = _
  rw [inside_write oneLine]
  exact opens.newline_output cfg ⟨content, 0, column + content.length, column, false⟩ column

/-- A text on a line of its own, and below it a part under a moved base. -/
theorem rendering_above_shift (oneLine : OneLine content) (opens : l.Opens P) (delta : Int) :
    (text content ++ newline ++ shift delta l).rendering cfg column =
      content.toList ++ '\n' :: (List.replicate (shifted column delta) ' ' ++
        l.rendering cfg (shifted column delta)) := by
  show (l.run cfg (((Printer.inside column).write content).newline.setIndent
    (shifted ((Printer.inside column).write content).indent delta))).output.toList = _
  rw [inside_write oneLine]
  exact opens.newline_output cfg _ _

/-- A row above others. -/
theorem Rows.above {rows : List Row} (h : l.Rows cfg column rows) (nonempty : rows ≠ [])
    (oneLine : OneLine content) (opens : l.Opens P) :
    (text content ++ newline ++ l).Rows cfg column (⟨.none, content⟩ :: rows) := by
  have some : rows.map (Row.line column) ≠ [] := by simpa using nonempty
  rw [Rows, rendering_above oneLine opens, h, List.map_cons, joinLines_cons _ some,
    Row.line_of_no_lead, List.append_assoc]

/-- How parts are grouped does not matter. -/
theorem Rows.regroup {a b c d : Layout} {rows : List Row}
    (h : (a ++ (b ++ c ++ d)).Rows cfg column rows) : (a ++ b ++ c ++ d).Rows cfg column rows := h

end Layout

/-! ## Rows of types -/

namespace Ty

variable {cfg : Config} {column : Nat}

theorem arrows_ne_nil (t : Ty) : t.arrows ≠ [] := by
  cases t <;> simp [arrows]

theorem bodyTexts_ne_nil (t : Ty) : t.bodyTexts cfg column ≠ [] := by
  unfold bodyTexts
  split
  · simp
  · simpa using t.arrows_ne_nil

/-- At the column of the base, a body comes out as its contents with an arrow between each two. -/
theorem chain_rendering {t : Ty} (names : t.EveryName Plain) (wide : 3 ≤ column)
    (room : column ≤ maxWidth) :
    t.chain.rendering cfg column =
      ('\n' :: List.replicate (column - 3) ' ' ++ "-> ".toList).intercalate
        ((t.bodyTexts cfg column).map String.toList) := by
  have inline := inline_plain names
  have small : Fit.small.accepts cfg
      ((Printer.inside column).trial ((Layout.text t.inline).run cfg)) = true ↔
        column + t.inline.length < cfg.smallColumnLimit := by
    rw [Layout.accepts_small_iff, Layout.Stays, Layout.run, inside_write inline.2]
    simp [Printer.inside]
  rw [Layout.rendering, chain, Layout.run_attempt, bodyTexts]
  simp only [small]
  split
  · rw [Layout.run, inside_write inline.2]
    simp
  · have stacked := Layout.stacked_output (show Plain "-> " by decide)
      (t.arrows.map fun c => .text c.inline) cfg (p := .inside column) rfl rfl wide room
    have components : t.arrows.map (Layout.rendering cfg column ∘ fun c => .text c.inline) =
        t.arrows.map (String.toList ∘ Ty.inline) := by
      refine List.map_congr_left fun c mem => Layout.rendering_text ?_ column
      exact (inline_plain (t.arrows_everyName names c mem)).2
    refine stacked.trans ?_
    rw [Layout.stackText, List.map_map, List.map_map, ← components]
    rfl

/-- A body by itself: its first row has no lead. -/
theorem chain_rows {t : Ty} (names : t.EveryName Plain) (wide : 3 ≤ column)
    (room : column ≤ maxWidth) :
    t.chain.Rows cfg column (Row.stack .none (t.bodyTexts cfg column)) := by
  rw [Layout.Rows, chain_rendering names wide room, Row.join_stack _ _ t.bodyTexts_ne_nil]
  simp [Lead.text]

/-- A body below its context: the arrow in front of it stands where the other arrows do. -/
theorem context_rows {t : Ty} {content : String} (plain : Plain content)
    (names : t.EveryName Plain) (wide : 3 ≤ column) (room : column ≤ maxWidth) :
    (Layout.text content ++ .newline ++ .shift (-3) (.depend (.text "=> ") t.chain)).Rows cfg column
      (⟨.none, content⟩ :: Row.stack .implies (t.bodyTexts cfg column)) := by
  have arrow : Plain "=> " := by decide
  have opens : (Layout.depend (.text "=> ") t.chain).Opens (· ≠ '\n') :=
    (Layout.Opens.text arrow.leads).depend _
  have moved : shifted column (-3) = column - 3 := by
    unfold shifted
    omega
  have back : column - 3 + "=> ".length = column := Nat.sub_add_cancel wide
  have some : (Row.stack .implies (t.bodyTexts cfg column)).map (Row.line column) ≠ [] := by
    simpa using Row.stack_ne_nil _ t.bodyTexts_ne_nil
  rw [Layout.Rows, Layout.rendering_above_shift plain.2 opens, moved,
    Layout.rendering_depend_text arrow, back, chain_rendering names wide room, List.map_cons,
    joinLines_cons _ some, Row.join_stack _ _ t.bodyTexts_ne_nil, Row.line_of_no_lead]
  simp
  rfl

theorem quantifierText_oneLine {binders : List String} (hb : ∀ binder ∈ binders, Plain binder) :
    OneLine (quantifierText binders) :=
  OneLine.append (OneLine.append (by decide)
    (.intercalate (by decide) fun binder mem => (hb binder mem).2)) (by decide)

theorem quantifier_rows {binders : List String} (hb : ∀ binder ∈ binders, Plain binder)
    {P : Char → Prop} {l : Layout} {rows : List Row} (h : l.Rows cfg column rows)
    (nonempty : rows ≠ []) (opens : l.Opens P) :
    (binderLine binders ++ l).Rows cfg column (quantifierRows binders ++ rows) := by
  unfold binderLine quantifierRows
  split
  · exact h
  · exact h.above nonempty (quantifierText_oneLine hb) opens

/-- The type of a signature comes out as its rows. -/
theorem signatureLayout_rows {t : Ty} (names : t.EveryName Plain) (wide : 3 ≤ column)
    (room : column ≤ maxWidth) : t.signatureLayout.Rows cfg column (t.rows cfg column) := by
  match t, names with
  | quantified binders [] body, ⟨hb, _, hbody⟩ =>
    rw [Ty.rows, above, List.append_assoc]
    exact quantifier_rows hb (chain_rows hbody wide room)
      (Row.stack_ne_nil _ body.bodyTexts_ne_nil) (chain_opens hbody)
  | quantified binders (first :: rest) body, ⟨hb, hc, hbody⟩ =>
    have plain := contextText_plain hc
    rw [Ty.rows, above, List.append_assoc]
    exact (quantifier_rows hb (context_rows plain hbody wide room) (by simp)
      (((Layout.Opens.text plain.leads).seq _).seq _)).regroup
  | con _, h | var _, h | app .., h | arrow .., h | tuple .., h | list _, h | paren _, h =>
    exact chain_rows h wide room

/-! ## What the rows are -/

theorem contextText_flush {context : List Ty} (h : EveryNameIn Flush context) :
    Flush (contextText context) := by
  match context, h with
  | [single], h => exact single.inline_flush h.1
  | [], _ | _ :: _ :: _, _ => exact .append (.append (by decide) _) _

theorem inline_leads {t : Ty} (words : t.EveryName Word) : Leads (· ≠ ' ') t.inline :=
  .of_head (fun _ other _ => other) (inline_plain (words.mono fun _ => Word.plain)).2
    (t.inline_flush (words.mono fun _ => Word.flush))

theorem bodyTexts_lead {t : Ty} (words : t.EveryName Word) :
    ∀ text ∈ t.bodyTexts cfg column, Leads (· ≠ ' ') text := by
  unfold bodyTexts
  split
  · exact List.forall_mem_singleton.mpr (inline_leads words)
  · exact List.forall_mem_map.mpr fun c mem => inline_leads (t.arrows_everyName words c mem)

theorem parts_everyName {P : String → Prop} {t : Ty} (h : t.EveryName P) :
    (∀ binder ∈ t.binders, P binder) ∧ EveryNameIn P t.context ∧ t.body.EveryName P := by
  cases t with
  | quantified binders context body => exact h
  | con | var | app | arrow | tuple | list | paren => exact ⟨List.forall_mem_nil _, trivial, h⟩

theorem rows_lead {t : Ty} (words : t.EveryName Word) :
    ∀ row ∈ t.rows cfg column, Leads (· ≠ ' ') row.content := by
  obtain ⟨binders, context, body⟩ := parts_everyName words
  have notSpace : ∀ c, c ≠ ' ' → c ≠ '\n' → c ≠ ' ' := fun _ other _ => other
  rw [rows, above, List.forall_mem_append, List.forall_mem_append]
  refine ⟨⟨?_, ?_⟩, fun row mem => ?_⟩
  · unfold quantifierRows
    split
    · exact List.forall_mem_nil _
    · refine List.forall_mem_singleton.mpr (.of_head notSpace ?_ ?_)
      · exact quantifierText_oneLine fun binder mem => (binders binder mem).plain
      · exact Flush.append (.append (by decide) _) _
  · unfold contextRows
    split
    · exact List.forall_mem_nil _
    · exact List.forall_mem_singleton.mpr (.of_head notSpace
        (contextText_plain (context.mono fun _ => Word.plain)).2
        (contextText_flush (context.mono fun _ => Word.flush)))
  · have inBody := List.mem_map_of_mem (f := Row.content) mem
    rw [Row.content_of_stack] at inBody
    exact bodyTexts_lead body _ inBody

/-- Below the first row stands a row with an arrow, or the first row is the quantifier. -/
theorem rows_succ {t : Ty} {i : Nat} {row : Row} (h : (t.rows cfg column)[i + 1]? = some row) :
    row.lead = .implies ∨ row.lead = .arrow ∨ row.lead = .none ∧ i = 0 ∧ t.binders ≠ [] := by
  rw [rows, above] at h
  generalize t.binders = binders at h ⊢
  generalize t.context = context at h
  cases binders with
  | nil =>
    cases context with
    | nil =>
      rcases Row.lead_of_stack h with ⟨-, first⟩ | arrow
      · cases first
      · exact .inr (.inl arrow)
    | cons =>
      rcases Row.lead_of_stack (i := i) h with ⟨implies, -⟩ | arrow
      · exact .inl implies
      · exact .inr (.inl arrow)
  | cons =>
    cases context with
    | nil =>
      rcases Row.lead_of_stack (i := i) h with ⟨none, first⟩ | arrow
      · exact .inr (.inr ⟨none, first, by simp⟩)
      · exact .inr (.inl arrow)
    | cons =>
      cases i with
      | zero => exact .inr (.inr ⟨by rw [← Option.some.inj h], rfl, by simp⟩)
      | succ i =>
        rcases Row.lead_of_stack (i := i) h with ⟨implies, -⟩ | arrow
        · exact .inl implies
        · exact .inr (.inl arrow)

/-- The first row is the quantifier, if there is one. -/
theorem rows_zero {t : Ty} (some : t.binders ≠ []) :
    (t.rows cfg column)[0]? = .some ⟨.none, quantifierText t.binders⟩ := by
  rw [rows, above, quantifierRows, if_neg (by simpa using some)]
  rfl

/-- The row above the body is the context, if there is one, and then an arrow leads the body. -/
theorem rows_context {t : Ty} (some : t.context ≠ []) :
    ∃ i content, i + 1 = t.above.length ∧
      (t.rows cfg column)[i]? = .some ⟨.none, contextText t.context⟩ ∧
      (t.rows cfg column)[i + 1]? = .some ⟨.implies, content⟩ := by
  have isContext : t.context.isEmpty = false := by simpa using some
  obtain ⟨first, rest, texts⟩ : ∃ first rest, t.body.bodyTexts cfg column = first :: rest :=
    List.exists_cons_of_ne_nil t.body.bodyTexts_ne_nil
  have shape : t.rows cfg column = quantifierRows t.binders ++
      ⟨.none, contextText t.context⟩ :: ⟨.implies, first⟩ :: rest.map (Row.mk .arrow) := by
    simp [rows, above, contextRows, isContext, texts, Row.stack]
  refine ⟨(quantifierRows t.binders).length, first, ?_, ?_, ?_⟩
  · simp [above, contextRows, isContext]
  · rw [shape, List.getElem?_append_right (Nat.le_refl _), Nat.sub_self]
    rfl
  · rw [shape, List.getElem?_append_right (Nat.le_add_right _ 1), Nat.add_sub_cancel_left]
    rfl

/-- What stands below is the body. -/
theorem rows_body (t : Ty) :
    ((t.rows cfg column).drop t.above.length).map Row.content = t.body.bodyTexts cfg column := by
  rw [rows, List.drop_left, Row.content_of_stack]

/-! ## Where the lines start -/

theorem lines_succ {t : Ty} (words : t.EveryName Word) {i : Nat} {line : List Char}
    (h : (t.lines cfg column)[i + 1]? = some line) :
    leadingSpaces line = column - 3 ∧ ("=> ".toList <+: line.drop (column - 3) ∨
        "-> ".toList <+: line.drop (column - 3)) ∨
      leadingSpaces line = column ∧ i = 0 ∧ t.binders ≠ [] ∧ (t.lines cfg column)[0]? =
        some (List.replicate column ' ' ++ (quantifierText t.binders).toList) := by
  rw [lines, List.getElem?_map, Option.map_eq_some_iff] at h
  obtain ⟨row, atRow, rfl⟩ := h
  have content := rows_lead words row (List.mem_of_getElem? atRow)
  rcases rows_succ atRow with implies | arrow | ⟨none, second, quantified⟩
  · have starts := Row.arrow_line column content (by simp [implies])
    rw [implies] at starts
    exact .inl ⟨starts.1, .inl starts.2⟩
  · have starts := Row.arrow_line column content (by simp [arrow])
    rw [arrow] at starts
    exact .inl ⟨starts.1, .inr starts.2⟩
  · refine .inr ⟨?_, second, quantified, ?_⟩
    · rw [Row.leadingSpaces_line content, none]
      rfl
    · rw [lines, List.getElem?_map, rows_zero quantified, Option.map_some, Row.line_of_no_lead]

theorem lines_context {t : Ty} (words : t.EveryName Word) (some : t.context ≠ []) :
    ∃ i line, i + 1 = t.above.length ∧ (t.lines cfg column)[i]? =
        .some (List.replicate column ' ' ++ (contextText t.context).toList) ∧
      (t.lines cfg column)[i + 1]? = .some line ∧ leadingSpaces line = column - 3 ∧
      "=> ".toList <+: line.drop (column - 3) := by
  obtain ⟨i, content, above, atContext, atBody⟩ := rows_context some
  have starts :=
    Row.arrow_line column (rows_lead words _ (List.mem_of_getElem? atBody)) nofun
  refine ⟨i, _, above, ?_, ?_, starts⟩
  · rw [lines, List.getElem?_map, atContext, Option.map_some, Row.line_of_no_lead]
  · rw [lines, List.getElem?_map, atBody, Option.map_some]

theorem lines_body (t : Ty) (wide : 3 ≤ column) :
    ((t.lines cfg column).drop t.above.length).map (·.drop column) =
      (t.body.bodyTexts cfg column).map String.toList := by
  have contents : ((t.rows cfg column).drop t.above.length).map
      (List.drop column ∘ Row.line column) =
        ((t.rows cfg column).drop t.above.length).map (String.toList ∘ Row.content) :=
    List.map_congr_left fun row _ => Row.drop_line wide
  rw [lines, ← List.map_drop, List.map_map, contents, ← List.map_map, rows_body]

end Ty

/-- Behind the colons, the lines of a signature are the rows of its type. -/
theorem Decl.signature_lines {names : List String} {type : Ty}
    (words : (Decl.signature names type).EveryName Word) (cfg : Config) {p : Printer}
    (consistent : p.Consistent) {colons : String}
    (shape : colons = ", ".intercalate names ++ " :: ") {column : Nat}
    (behind : column = p.effectiveColumn + colons.length) (room : column ≤ maxWidth) :
    3 ≤ column ∧ ∃ text, ((Decl.signature names type).layout.run cfg p).output.toList =
        p.output.toList ++ p.pending ++ (colons.toList ++ text) ∧
      splitLines (List.replicate column ' ' ++ text) = type.lines cfg column := by
  have oneLine : OneLine colons :=
    shape ▸ OneLine.append (.intercalate (by decide) fun name mem => (words.1 name mem).plain.2)
      (by decide)
  have width : colons.length = (", ".intercalate names).length + 4 := by
    rw [shape, String.length_append]
    rfl
  have wide : 3 ≤ column := by omega
  have plain : Plain colons := ⟨by rintro rfl; simp at width, oneLine⟩
  have rows : type.signatureLayout.Rows cfg column (type.rows cfg column) :=
    Ty.signatureLayout_rows (words.2.mono fun _ => Word.plain) wide room
  refine ⟨wide, type.signatureLayout.rendering cfg column, ?_, ?_⟩
  · rw [layout, signatureLayout, ← shape]
    refine Layout.depend_text_output plain _ cfg consistent fun q inLine aligned base => ?_
    rw [behind, ← base]
    exact type.signatureLayout.output_of_aligned cfg inLine aligned
  · rw [rows]
    refine splitLines_joinLines ?_ (List.forall_mem_map.mpr fun row mem => ?_)
    · simp [Ty.rows, Row.stack_ne_nil _ (Ty.bodyTexts_ne_nil _)]
    · exact Row.newline_not_mem_line (Ty.rows_lead words.2 row mem)

/-! ## Main statement -/

/-- A signature is aligned under its double colon. Let `column` be the column behind the colons,
and read the type with spaces in place of what stands before it.

* Every line but the first starts three columns left of `column`, with an arrow; or it starts at
  `column`, and then it is the second line and the first one is the quantifier.
* A context is followed by a line that starts with `=> `.
* From `column` on, the lines below quantifier and context are the body, if it ends before the
  small column limit, or else its arrow components, in order and one a line.

Every reachable printer is consistent. Columns are machine words; past the last of them a base that
is moved left would be cut off. -/
theorem signature_aligned {names : List String} {type : Ty}
    (words : (Decl.signature names type).EveryName Word) (cfg : Config) {p : Printer}
    (consistent : p.Consistent) :
    let colons := ", ".intercalate names ++ " :: "
    let column := p.effectiveColumn + colons.length
    column ≤ maxWidth →
      ∃ text, ((Decl.signature names type).layout.run cfg p).output.toList =
          p.output.toList ++ p.pending ++ (colons.toList ++ text) ∧
        let lines := splitLines (List.replicate column ' ' ++ text)
        (∀ i line, lines[i + 1]? = some line →
          leadingSpaces line = column - 3 ∧ ("=> ".toList <+: line.drop (column - 3) ∨
              "-> ".toList <+: line.drop (column - 3)) ∨
            leadingSpaces line = column ∧ i = 0 ∧ type.binders ≠ [] ∧ lines[0]? =
              some (List.replicate column ' ' ++ (Ty.quantifierText type.binders).toList)) ∧
        (type.context ≠ [] → ∃ i line, i + 1 = type.above.length ∧
          lines[i]? =
            some (List.replicate column ' ' ++ (Ty.contextText type.context).toList) ∧
          lines[i + 1]? = some line ∧ leadingSpaces line = column - 3 ∧
          "=> ".toList <+: line.drop (column - 3)) ∧
        (lines.drop type.above.length).map (·.drop column) =
          if column + type.body.inline.length < cfg.smallColumnLimit then
            [type.body.inline.toList]
          else type.body.arrows.map (·.inline.toList) := by
  intro colons column room
  obtain ⟨wide, text, output, cut⟩ := Decl.signature_lines words cfg consistent
    (show colons = _ from rfl) (show column = _ from rfl) room
  refine ⟨text, output, ?_⟩
  rw [cut]
  refine ⟨fun i line h => Ty.lines_succ words.2 h, Ty.lines_context words.2, ?_⟩
  rw [Ty.lines_body type wide, Ty.bodyTexts, apply_ite (List.map String.toList),
    List.map_singleton, List.map_map]
  rfl

/-- A type with binders, a context and an arrow. -/
def showType : Ty :=
  .quantified ["a"] [.app (.con "Show") (.var "a")] (.arrow (.var "a") (.con "Int"))

/-- Behind two spaces of pending indentation, with nothing small: quantifier, context and both
components start at column 10, the arrows under the colons at column 7. -/
theorem signature_aligned_broken :
    let cfg : Config := { smallColumnLimit := 0 }
    let text := "forall a.\n          Show a\n       => a\n       -> Int".toList
    let lines := splitLines (List.replicate 10 ' ' ++ text)
    ((Decl.signature ["f", "g"] showType).layout.run cfg ⟨"", 0, 0, 2, true⟩).output.toList =
        "  f, g :: ".toList ++ text ∧
      (∃ i line, i + 1 = 2 ∧ lines[i]? = some "          Show a".toList ∧
        lines[i + 1]? = some line ∧ leadingSpaces line = 7 ∧ "=> ".toList <+: line.drop 7) ∧
      (lines.drop 2).map (·.drop 10) = ["a".toList, "Int".toList] := by
  intro cfg text lines
  have names : Word "f" ∧ Word "g" := by decide
  have a : Word "a" := by decide
  have types : Word "Show" ∧ Word "Int" := by decide
  have words : (Decl.signature ["f", "g"] showType).EveryName Word :=
    ⟨List.forall_mem_cons.mpr ⟨names.1, List.forall_mem_singleton.mpr names.2⟩,
      List.forall_mem_singleton.mpr a, ⟨⟨types.1, a⟩, trivial⟩, a, types.2⟩
  have written : ((Decl.signature ["f", "g"] showType).layout.run cfg
      ⟨"", 0, 0, 2, true⟩).output.toList = "  f, g :: ".toList ++ text := by decide +kernel
  obtain ⟨text', output, -, context, body⟩ :=
    signature_aligned words cfg (p := ⟨"", 0, 0, 2, true⟩) (fun _ => rfl) (by decide +kernel)
  have same : text' = text :=
    List.append_cancel_left (show "  f, g :: ".toList ++ text' = "  f, g :: ".toList ++ text from
      output.symm.trans written)
  subst same
  exact ⟨written, context nofun, body⟩

end TrialLayout
