import TrialLayout.Proofs.Floor
import TrialLayout.Proofs.TokenPreservation

/-!
# Which shapes hang

Started at the floor or to the right of it, under a base that is not left of the floor
either, no rule of the formatter starts a line left of the floor. Arrows, commas and the `=>`
of a context are moved left, but only back over the `::`, the bracket or the bar in front of
them.

An item of a block starts at the column `c` of the block, under a base that is `c` too, and
all its other lines have to start right of `c`: the floor is `c + 1`, one column past the
start. Then the shape of the item matters. These start a line at `c` itself:

* an operator, when its line breaks after it;
* `let`, whose `in` starts a line;
* a collection that begins at `c`, whose commas stand under its bracket;
* whatever begins with one of these. A minus sign in front moves a collection off the
  column `c`, but does not move the base.

`Expr.hangs`, `Stmt.hangs`, `Alt.hangs` and `Decl.hangs` tell these shapes from the others.
`Expr.Clears` and `ItemClears` put both cases together: there is room for every shape, or the
shape hangs. `Expr.lays` and the statements with it go through all trees.
-/

namespace TrialLayout

open Printer Text

/-! ## Shapes -/

/-- Shapes that start no line at the base, wherever their lines break; `flush` says whether
the expression begins at the base itself. -/
def Expr.hangs (flush : Bool) : Expr → Bool
  | .app func _ => func.hangs flush
  | .binary .. | .letIn .. => false
  | .neg operand => operand.hangs false
  | .tuple .boxed items | .list items => !flush || items.length ≤ 1
  | .update updated _ => updated.hangs flush
  | .annot expr _ => expr.hangs flush
  | _ => true

/-- Statements that start only their first line at the column of the block. An operator of
the statement itself continues past that column, so only its left operand matters. -/
def Stmt.hangs : Stmt → Bool
  | .bind pattern _ => pattern.hangs true
  | .expr (.binary left _ _) => left.hangs true
  | .expr e => e.hangs true
  | .decls _ => true

/-- Alternatives that start only their first line at the column of the block. -/
def Alt.hangs : Alt → Bool
  | .mk pattern _ => pattern.hangs true

/-- Declarations that start only their first line at the column of the block. -/
def Decl.hangs : Decl → Bool
  | .signature .. => true
  | .function _ params _ => params.all (·.hangs false)
  | .pattern bound _ => bound.hangs true

/-- What starts at `column` under `base` keeps clear of the columns left of the floor: there
is room for every shape, or it hangs and lacks a single column. -/
def ItemClears (hangs : Bool) (floor column base : Nat) : Prop :=
  floor ≤ column ∧ floor ≤ base ∨ hangs = true ∧ floor ≤ column + 1 ∧ floor ≤ base + 1

/-- The same for an expression, which may lack that column for its base only. -/
inductive Expr.Clears (e : Expr) (floor column base : Nat) : Prop
  | room : floor ≤ column → floor ≤ base → Clears e floor column base
  | shape (flush : Bool) : e.hangs flush = true → (flush = false → floor ≤ column) →
      floor ≤ column + 1 → floor ≤ base + 1 → Clears e floor column base

/-! ## Types -/

namespace Ty

variable {floor column base : Nat}

theorem inline_ne_empty : (t : Ty) → t.EveryName Plain → t.inline ≠ ""
  | con _, h | var _, h => h.1
  | app .., _ | arrow .., _ | list _, _ | paren _, _ => by simp [inline]
  | tuple boxity items, _ => by
      rw [inline]
      split <;> cases boxity <;> simp [Boxity.unit, Boxity.opening]
  | quantified _ _ body, h => by
      have last := body.inline_ne_empty h.2.2
      simp [inline, last]

theorem inline_plain {t : Ty} (h : t.EveryName Plain) : Plain t.inline :=
  ⟨t.inline_ne_empty h, (t.inline_spells (h.mono fun _ plain => plain.2)).1⟩

theorem chain_opens {t : Ty} (h : t.EveryName Plain) : t.chain.Opens (· ≠ '\n') := by
  refine .attempt (by simp) (.text (inline_plain h).leads) ?_
  have components := t.arrows_everyName h
  cases shape : t.arrows with
  | nil => cases t <;> simp [arrows] at shape
  | cons first rest =>
    exact (Layout.Opens.text (inline_plain (components first (by simp [shape]))).leads).seq _

theorem chain_hangs {t : Ty} (h : t.EveryName Plain) :
    t.chain.Hangs floor floor (floor + 3) := by
  refine .attempt .small (.text (inline_plain h).2) ?_
  refine Layout.Hangs.stacked (show Plain "-> " by decide) fun item mem => ?_
  obtain ⟨c, inArrows, rfl⟩ := List.mem_map.mp mem
  exact .text (inline_plain (t.arrows_everyName h c inArrows))

theorem binderLine_seq_hangs {binders : List String} (hb : ∀ binder ∈ binders, Plain binder)
    {l : Layout} (opens : l.Opens (· ≠ '\n')) (h : l.Hangs floor floor (floor + 3)) :
    (binderLine binders ++ l).Hangs floor floor (floor + 3) := by
  have oneLine : OneLine ("forall " ++ " ".intercalate binders ++ ".") :=
    OneLine.append (OneLine.append (by decide)
      (.intercalate (by decide) fun binder mem => (hb binder mem).2)) (by decide)
  unfold binderLine
  split
  · exact Layout.Hangs.empty.seq_self h
  · exact (Layout.Hangs.text oneLine).break_seq
      (opens.starts (h.mono (Nat.le_add_right ..) (Nat.le_refl _)) (Nat.le_add_right ..))

theorem contextText_plain {context : List Ty} (h : EveryNameIn Plain context) :
    Plain (contextText context) := by
  refine ⟨?_, (contextText_spells (h.mono fun _ plain => plain.2)).1⟩
  match context, h with
  | [single], h => exact single.inline_ne_empty h.1
  | [], _ | _ :: _ :: _, _ => simp [contextText]

/-- The arrows of a type stand three columns left of it, and so does the one of its context. -/
theorem signatureLayout_hangs (t : Ty) (h : t.EveryName Plain) :
    t.signatureLayout.Hangs floor floor (floor + 3) := by
  match t, h with
  | quantified binders [] body, ⟨hb, _, hbody⟩ =>
    exact binderLine_seq_hangs hb (chain_opens hbody) (chain_hangs hbody)
  | quantified binders (first :: rest) body, ⟨hb, hc, hbody⟩ =>
    have arrow : (Layout.depend (.text "=> ") body.chain).Solid floor :=
      ⟨(Layout.Opens.text (show Plain "=> " by decide).leads).depend _,
        .depend_text (by decide) (by decide)
          ((chain_hangs hbody).mono (Nat.le_add_right ..) (Nat.le_refl _))⟩
    have context := contextText_plain hc
    exact (binderLine_seq_hangs hb (.text context.leads) (.text context.2)).break_seq
      arrow.starts.shift_neg
  | con _, h | var _, h | app .., h | arrow .., h | tuple .., h | list _, h | paren _, h =>
    exact chain_hangs h

end Ty

theorem Decl.signatureLayout_hangs {floor column base : Nat} {names : List String} {type : Ty}
    (hn : ∀ name ∈ names, Plain name) (ht : type.EveryName Plain)
    (hc : floor ≤ column + 1) : (signatureLayout names type).Hangs floor column base := by
  have oneLine : OneLine (", ".intercalate names ++ " :: ") :=
    OneLine.append (.intercalate (by decide) fun name mem => (hn name mem).2) (by decide)
  have width : (", ".intercalate names ++ " :: ").length = (", ".intercalate names).length + 4 := by
    rw [String.length_append]
    rfl
  exact .depend_text oneLine (by simp)
    ((type.signatureLayout_hangs ht).mono (by omega) (by omega))

/-! ## Clearance -/

theorem ItemClears.level (hangs : Bool) (floor : Nat) : ItemClears hangs floor floor floor :=
  .inl ⟨Nat.le_refl _, Nat.le_refl _⟩

theorem ItemClears.column_le {hangs : Bool} {floor column base : Nat}
    (h : ItemClears hangs floor column base) : floor ≤ column + 1 := by
  rcases h with ⟨hc, _⟩ | ⟨_, hc, _⟩ <;> omega

theorem ItemClears.base_le {hangs : Bool} {floor column base : Nat}
    (h : ItemClears hangs floor column base) : floor ≤ base + 1 := by
  rcases h with ⟨_, hb⟩ | ⟨_, _, hb⟩ <;> omega

theorem Expr.length_layouts (es : List Expr) : (Expr.layouts es).length = es.length := by
  induction es with
  | nil => rfl
  | cons e rest ih => rw [Expr.layouts, List.length_cons, List.length_cons, ih]

namespace Expr.Clears

variable {e e' : Expr} {floor column base : Nat}

theorem level : e.Clears floor floor floor := .room (Nat.le_refl _) (Nat.le_refl _)

theorem column_le (h : e.Clears floor column base) : floor ≤ column + 1 := by
  cases h with
  | room hc _ => omega
  | shape _ _ _ hc _ => exact hc

theorem base_le (h : e.Clears floor column base) : floor ≤ base + 1 := by
  cases h with
  | room _ hb => omega
  | shape _ _ _ _ hb => exact hb

/-- An item of a block that begins with the expression. -/
theorem of_item {hangs : Bool} (h : ItemClears hangs floor column base)
    (lead : hangs = true → e.hangs true = true) : e.Clears floor column base := by
  rcases h with ⟨hc, hb⟩ | ⟨shape, hc, hb⟩
  · exact .room hc hb
  · exact .shape true (lead shape) nofun hc hb

/-- The leading part of an expression. -/
theorem lead (h : e.Clears floor column base)
    (hangs : ∀ flush, e.hangs flush = true → e'.hangs flush = true) :
    e'.Clears floor column base := by
  cases h with
  | room hc hb => exact .room hc hb
  | shape flush shape off hc hb => exact .shape flush (hangs flush shape) off hc hb

/-- The operand of a minus sign starts one column further right. -/
theorem operand (h : (Expr.neg e).Clears floor column base) :
    e.Clears floor (column + 1) base := by
  cases h with
  | room hc hb => exact .room (Nat.le_succ_of_le hc) hb
  | shape _ shape _ hc hb => exact .shape false shape (fun _ => hc) (Nat.le_succ_of_le hc) hb

/-- A shape that never hangs needs room. -/
theorem needs_room (h : e.Clears floor column base) (never : ∀ flush, e.hangs flush = false) :
    floor ≤ column ∧ floor ≤ base := by
  cases h with
  | room hc hb => exact ⟨hc, hb⟩
  | shape flush shape _ _ _ => rw [never flush] at shape; cases shape

/-- A bracket at the base leaves no room for the commas below it. -/
theorem roomy {items : List Expr} (h : e.Clears floor column base) {opening : String}
    (wide : 1 ≤ opening.length)
    (collection : ∀ flush, e.hangs flush = (!flush || items.length ≤ 1)) :
    Layout.Roomy floor column opening (Expr.layouts items) := by
  cases h with
  | room hc _ => exact .inl (by omega)
  | shape flush shape off hc _ =>
    rw [collection] at shape
    cases flush with
    | false => exact .inl (by have := off rfl; omega)
    | true => exact .inr ⟨by rw [Expr.length_layouts]; simpa using shape, by omega⟩

end Expr.Clears

theorem Op.spelling_oneLine {op : Op String} (h : Plain op.name) : OneLine op.spelling :=
  (Op.spelling_spells h.2).1

/-- A part that depends on a text may start one column left of the floor. -/
theorem Layout.Hangs.behind {floor column base : Nat} {content : String} {right : Layout}
    (hc : Plain content) (wide : floor ≤ column + 1) (hr : right.Hangs floor floor floor) :
    (Layout.depend (.text content) right).Hangs floor column base := by
  have width := hc.length_pos
  exact .depend_text hc.2 hc.1 (hr.mono (by omega) (by omega))

/-- The fields of a record stand behind its name. -/
theorem Layout.Hangs.braces {floor column base : Nat} {l : Layout} {fields : List Layout}
    (hl : l.Hangs floor column base) (wide : floor ≤ column + 1)
    (hf : ∀ field ∈ fields, field.Solid floor) :
    (l ++ .space ++ .bracketed "\x7b" "\x7d" fields).Hangs floor column base := by
  refine .seq_text (show OneLine " " by decide) hl ?_
  have behind : floor + 1 ≤ min floor column + 1 + 1 := by omega
  exact .bracketed (by decide) (by decide) hf (.inl behind)

/-! ## Expressions, statements, declarations -/

/-- An expression hangs by itself and as the head of an application. -/
structure Forms.Hangs (floor column base : Nat) (forms : Forms) : Prop where
  whole : forms.whole.Hangs floor column base
  head : forms.head.Hangs floor column base

theorem Expr.forms_open_plain {e : Expr} (h : e.EveryName Plain) : e.forms.Opens (· ≠ '\n') :=
  e.forms_open (fun _ _ hc => hc) (fun _ plain => plain.leads) h

theorem Alt.layout_opens_plain {a : Alt} (h : a.EveryName Plain) : a.layout.Opens (· ≠ '\n') :=
  Alt.layout_opens (fun _ _ hc => hc) (fun _ plain => plain.leads) h

theorem Stmt.layout_opens_plain {s : Stmt} (h : s.EveryName Plain) : s.layout.Opens (· ≠ '\n') :=
  Stmt.layout_opens (fun _ _ hc => hc) (fun _ plain => plain.leads) h

theorem Decl.layout_opens_plain {d : Decl} (h : d.EveryName Plain) : d.layout.Opens (· ≠ '\n') :=
  Decl.layout_opens (fun _ hc => hc) (fun _ plain => plain.leads) h

/-- What the layouts of an expression promise over a floor. -/
structure Expr.Lays (floor : Nat) (e : Expr) : Prop where
  opens : e.forms.Opens (· ≠ '\n')
  args : ∀ arg ∈ e.forms.args, arg.layout.Solid floor
  hangs : ∀ {column base : Nat}, e.Clears floor column base → e.forms.Hangs floor column base
  statement : ∀ {column base : Nat}, ItemClears (Stmt.expr e).hangs floor column base →
    e.forms.statement.Hangs floor column base

/-- Only an operator hangs differently as a statement. -/
theorem Stmt.hangs_expr {e : Expr} (h : ∀ left op right, e ≠ .binary left op right) :
    (Stmt.expr e).hangs = e.hangs true := by
  cases e with
  | binary left op right => exact absurd rfl (h left op right)
  | _ => rfl

namespace Expr.Lays

variable {floor : Nat} {e : Expr}

theorem solid (h : e.Lays floor) : e.forms.whole.Solid floor :=
  ⟨h.opens.whole, (h.hangs .level).whole⟩

theorem uniform {l : Layout} (forms : e.forms = .uniform l) (names : e.EveryName Plain)
    (h : ∀ {column base : Nat}, e.Clears floor column base → l.Hangs floor column base) :
    e.Lays floor := by
  refine ⟨Expr.forms_open_plain names, ?_, ?_, ?_⟩
  · rw [forms]
    exact fun _ mem => absurd mem List.not_mem_nil
  · rw [forms]
    exact fun clears => ⟨h clears, h clears⟩
  · intro column base clears
    have other : ∀ left op right, e ≠ .binary left op right := by
      rintro left op right rfl
      cases forms
    rw [Stmt.hangs_expr other] at clears
    rw [forms]
    exact h (.of_item clears id)

theorem app {func arg : Expr} (names : (Expr.app func arg).EveryName Plain)
    (hf : func.Lays floor) (ha : arg.Lays floor) : (Expr.app func arg).Lays floor := by
  have args : ∀ other ∈ func.forms.args ++ [⟨arg.forms.whole, arg.isFlat⟩],
      other.layout.Solid floor := by
    intro other mem
    rw [List.mem_append, List.mem_singleton] at mem
    rcases mem with inFunc | rfl
    · exact hf.args other inFunc
    · exact ha.solid
  have hangs {column base : Nat} (clears : (Expr.app func arg).Clears floor column base) :
      (Expr.app func arg).forms.Hangs floor column base := by
    have head := (hf.hangs (clears.lead fun _ shape => shape)).head
    refine ⟨?_, head⟩
    rw [forms, Forms.whole_apply]
    exact .application head args (by simp) clears.column_le clears.base_le
  refine ⟨Expr.forms_open_plain names, ?_, hangs, ?_⟩
  · rwa [forms, Forms.args_apply]
  · exact fun clears => (hangs (.of_item clears id)).whole

theorem binary {left right : Expr} {op : Op String}
    (names : (Expr.binary left op right).EveryName Plain) (hl : left.Lays floor)
    (hr : right.Lays floor) : (Expr.binary left op right).Lays floor := by
  have oneLine := Op.spelling_oneLine names.2.1
  refine ⟨Expr.forms_open_plain names, ?_, ?_, ?_⟩
  · exact fun _ mem => absurd mem List.not_mem_nil
  · intro column base clears
    obtain ⟨hc, hb⟩ := clears.needs_room fun _ => rfl
    have whole : (Expr.binary left op right).forms.whole.Hangs floor column base :=
      .operation oneLine hl.opens.whole (hl.hangs (.room hc hb)).whole hr.solid clears.column_le
        fun hx => hx.break_seq (hr.solid.starts.mono hb)
    exact ⟨whole, whole⟩
  -- the right operand of a statement starts a step past the column of the statement
  · intro column base clears
    exact .operation oneLine hl.opens.whole (hl.hangs (.of_item clears id)).whole hr.solid
      clears.column_le fun hx => hx.resume_newline (hr.solid.starts.mono clears.column_le)

end Expr.Lays

section Trees

variable {floor : Nat}

mutual

/-- The layouts of every expression keep their promises. Where a part is put behind a text
that moves the base, the floor suffices; the leading part is left under the old base. -/
theorem Expr.lays : (e : Expr) → e.EveryName Plain → e.Lays floor
  | .var _, h | .con _, h | .frac _, h => .uniform rfl h fun _ => .text h.2
  | .int value, h => .uniform rfl h fun _ => .text (int_repr_oneLine value)
  | .char value, h => .uniform rfl h fun _ => .text (charLiteral_oneLine value)
  | .string value, h => .uniform rfl h fun _ => .text (stringLiteral_oneLine value)
  | .varQuote _, h => .uniform rfl h fun _ => .text (OneLine.append (by decide) h.2)
  | .typeQuote _, h => .uniform rfl h fun _ => .text (OneLine.append (by decide) h.2)
  | .wildcard, h => .uniform rfl h fun _ => .text (by decide)
  | .app func arg, h => .app h (func.lays h.1) (arg.lays h.2)
  | .binary left _ right, h => .binary h (left.lays h.1) (right.lays h.2.2)
  | .neg operand, h => .uniform rfl h fun clears =>
      .text_seq (by decide) ((operand.lays h).hangs clears.operand).whole
  | .leftSection operand op, h => .uniform rfl h fun clears => by
      have inner := (((operand.lays h.1).solid.hangs.seq_self .space).seq_self
        (.text (Op.spelling_oneLine h.2))).seq_self (.text (show OneLine ")" by decide))
      exact .behind (by decide) clears.column_le inner
  | .rightSection op operand, h => .uniform rfl h fun {column base} clears => by
      have opens : (Layout.text "(" ++ .text op.spelling).Opens (· ≠ '\n') :=
        (Layout.Opens.text (show Plain "(" by decide).leads).seq _
      have front : (Layout.text "(" ++ .text op.spelling).Hangs floor column base :=
        (Layout.Hangs.text (by decide)).seq (.text (Op.spelling_oneLine h.1))
      have back := (operand.lays h.2).solid.hangs.seq_self
        (.text (show OneLine ")" by decide))
      have wide : floor ≤ min floor column + 1 := by
        have := clears.column_le
        omega
      exact .depend_opened opens (by decide) front (back.mono wide wide)
  | .lambda params body, h => .uniform rfl h fun clears => by
      have bound : (Layout.spaced (Expr.layouts params)).Hangs floor floor floor :=
        .joined_text (by decide) fun item mem => (Expr.layouts_solid params h.1 item mem).hangs
      have result := Layout.Hangs.attach_shifted (show Plain " -> " by decide) body.isFlat
        (body.lays h.2).solid
      exact .behind (by decide) clears.column_le (bound.seq_self result)
  | .tuple boxity items, h => .uniform rfl h fun clears => by
      have hi := Expr.layouts_solid items h
      have column_le := clears.column_le
      split
      · cases boxity <;> exact .text (by decide)
      · cases boxity with
        | boxed =>
          exact .bracketed (by decide) (by decide) hi
            (clears.roomy (by decide) fun _ => rfl)
        | unboxed =>
          -- a comma under the last column of this bracket is still past the base
          have wide : Boxity.unboxed.opening.length = 3 := rfl
          exact .bracketed (by decide) (by decide) hi (.inl (by omega))
  | .list items, h => .uniform rfl h fun clears => by
      split
      · exact .text (by decide)
      · exact .bracketedWhole (by decide) (by decide)
          (Expr.layouts_solid items h) (clears.roomy (by decide) fun _ => rfl)
  | .paren inner, h => .uniform rfl h fun clears =>
      .behind (by decide) clears.column_le
        ((inner.lays h).solid.hangs.seq_self (.text (by decide)))
  | .cond condition yes no, h => .uniform rfl h fun clears => by
      -- under the old base, but kept only if it ends no line: the one-line form needs no bound
      have hc := (condition.lays h.1).solid.hangs
      have yesLine : (Layout.depend (.text "then ") yes.forms.whole).Solid floor :=
        .depend_text (by decide) (yes.lays h.2.1).solid.hangs
      have noLine : (Layout.depend (.text "else ") no.forms.whole).Solid floor :=
        .depend_text (by decide) (no.lays h.2.2).solid.hangs
      exact .attempt_line (.behind (by decide) clears.column_le
        ((hc.break_seq yesLine.starts).break_seq noLine.starts))
  | .caseOf scrutinee alts, h => .uniform rfl h fun {column base} clears => by
      have front : (Layout.depend (.text "case ") scrutinee.forms.whole).Hangs floor column base :=
        .behind (by decide) clears.column_le (scrutinee.lays h.1).solid.hangs
      have lines : (Layout.underneath (Alt.layouts alts)).Hangs floor (min floor column) floor :=
        .underneath (Alt.layouts_solid alts h.2)
      exact (front.seq (.text (by decide))).seq (.step (lines.mono (Nat.le_refl _) clears.base_le))
  | .block stmts, h => .uniform rfl h fun clears =>
      .behind (by decide) clears.column_le (.lined (Stmt.layouts_solid stmts h))
  | .letIn decls body, h => .uniform rfl h fun {column base} clears => by
      -- `in` starts its line at the base
      obtain ⟨hc, hb⟩ := clears.needs_room fun _ => rfl
      have front : (Layout.depend (.text "let ") (.lined (Decl.layouts decls))).Hangs
          floor column base :=
        .behind (by decide) clears.column_le (.lined (Decl.layouts_solid decls h.1))
      have back := Layout.Solid.depend_text (show Plain "in " by decide)
        (body.lays h.2).solid.hangs
      exact front.break_seq (back.starts.mono hb)
  | .record _ fields, h => .uniform rfl h fun clears =>
      .braces (.text h.1.2) clears.column_le (Field.layouts_solid fields h.2)
  | .update updated fields, h => .uniform rfl h fun clears => by
      have front := ((updated.lays h.1).hangs (clears.lead fun _ shape => shape)).whole
      exact .braces front clears.column_le (Field.layouts_solid fields h.2)
  | .annot expr _, h => .uniform rfl h fun clears => by
      have front := ((expr.lays h.1).hangs (clears.lead fun _ shape => shape)).whole
      exact (front.seq (.text (by decide))).depend (.text (Ty.inline_plain h.2).2)

theorem Expr.layouts_solid : (es : List Expr) →
    Expr.EveryNameIn Plain es → ∀ item ∈ Expr.layouts es, item.Solid floor
  | [], _ => nofun
  | e :: rest, h =>
      List.forall_mem_cons.mpr ⟨(e.lays h.1).solid, Expr.layouts_solid rest h.2⟩

/-- What follows a pattern or a binding may start one column left of the floor. -/
theorem Rhs.layout_hangs {separator : String} (hs : Plain separator)
    {column base : Nat} (hc : floor ≤ column + 1) (hb : floor ≤ base + 1) :
    (rhs : Rhs) → rhs.EveryName Plain → (rhs.layout separator).Hangs floor column base
  | .plain body, h => .body hs body.isFlat (body.lays h).solid hc hb
  | .guarded branches, h =>
      .step ((Layout.Hangs.underneath (Branch.layouts_solid hs branches h)).mono
        (Nat.zero_le _) hb)

/-- The commas between guards stand under the bar. -/
theorem Branch.layout_solid {separator : String} (hs : Plain separator) :
    (b : Branch) → b.EveryName Plain → (b.layout separator).Solid floor
  | .mk guards body, h => by
      have spaced : ∀ item ∈ (Expr.layouts guards).map (Layout.space ++ ·), item.Solid floor := by
        intro item mem
        obtain ⟨guard, inGuards, rfl⟩ := List.mem_map.mp mem
        exact (Layout.Solid.text (by decide)).seq
          (Expr.layouts_solid guards h.1 guard inGuards).hangs
      have result := Layout.Hangs.attach_shifted hs body.isFlat (body.lays h.2).solid
      -- behind the bar the base is moved right by one, and the commas are moved back
      have guarded := (Layout.Hangs.stacked_comma spaced).seq_self
        (result.mono (Nat.le_refl _) (Nat.le_add_right ..))
      exact (Layout.Solid.text (by decide)).seq (guarded.shift_one_succ)

theorem Branch.layouts_solid {separator : String}
    (hs : Plain separator) : (bs : List Branch) → Branch.EveryNameIn Plain bs →
      ∀ item ∈ Branch.layouts separator bs, item.Solid floor
  | [], _ => nofun
  | b :: rest, h =>
      List.forall_mem_cons.mpr ⟨b.layout_solid hs h.1, Branch.layouts_solid hs rest h.2⟩

theorem Alt.layout_hangs {column base : Nat} : (a : Alt) →
    a.EveryName Plain → ItemClears a.hangs floor column base → a.layout.Hangs floor column base
  | .mk pattern rhs, h, clears => by
      have column_le := clears.column_le
      have front := ((pattern.lays h.1).hangs (.of_item clears id)).whole
      exact front.seq (rhs.layout_hangs (by decide) (by omega) clears.base_le h.2)

theorem Alt.layouts_solid : (as : List Alt) →
    Alt.EveryNameIn Plain as → ∀ item ∈ Alt.layouts as, item.Solid floor
  | [], _ => nofun
  | a :: rest, h => by
      have first : a.layout.Solid floor :=
        ⟨Alt.layout_opens_plain h.1,
          a.layout_hangs h.1 (.level a.hangs floor)⟩
      exact List.forall_mem_cons.mpr ⟨first, Alt.layouts_solid rest h.2⟩

theorem Stmt.layout_hangs {column base : Nat} : (s : Stmt) →
    s.EveryName Plain → ItemClears s.hangs floor column base → s.layout.Hangs floor column base
  | .bind pattern expr, h, clears => by
      have column_le := clears.column_le
      have front := ((pattern.lays h.1).hangs (.of_item clears id)).whole
      exact front.seq (.body (by decide) expr.isFlat (expr.lays h.2).solid (by omega)
        clears.base_le)
  | .expr e, h, clears => (e.lays h).statement clears
  | .decls decls, h, clears =>
      .behind (by decide) clears.column_le (.lined (Decl.layouts_solid decls h))

theorem Stmt.layouts_solid : (ss : List Stmt) →
    Stmt.EveryNameIn Plain ss → ∀ item ∈ Stmt.layouts ss, item.Solid floor
  | [], _ => nofun
  | s :: rest, h => by
      have first : s.layout.Solid floor :=
        ⟨Stmt.layout_opens_plain h.1,
          s.layout_hangs h.1 (.level s.hangs floor)⟩
      exact List.forall_mem_cons.mpr ⟨first, Stmt.layouts_solid rest h.2⟩

theorem Decl.layout_hangs {column base : Nat} : (d : Decl) →
    d.EveryName Plain → ItemClears d.hangs floor column base → d.layout.Hangs floor column base
  | .signature _ _, h, clears =>
      Decl.signatureLayout_hangs h.1 h.2 clears.column_le
  | .function name params rhs, h, clears => by
      have column_le := clears.column_le
      have width := h.1.length_pos
      -- the parameters stand behind the name, past the base that they are under
      have bound : (Layout.concat ((Expr.layouts params).map (Layout.space ++ ·))).Hangs
          floor floor base := by
        refine .concat_space (Expr.layouts_hang params h.2.1 fun e mem => ?_)
        rcases clears with ⟨_, hb⟩ | ⟨shape, _, hb⟩
        · exact .room (Nat.le_refl _) hb
        · exact .shape false (List.all_eq_true.mp shape e mem) (fun _ => Nat.le_refl _)
            (Nat.le_succ _) hb
      have front := Layout.Hangs.text_seq h.1.2 (bound.mono (show floor ≤ column + name.length by
        omega) (Nat.le_refl _))
      exact front.seq (rhs.layout_hangs (by decide) (by omega) clears.base_le h.2.2)
  | .pattern bound rhs, h, clears => by
      have column_le := clears.column_le
      have front := ((bound.lays h.1).hangs (.of_item clears id)).whole
      exact front.seq (rhs.layout_hangs (by decide) (by omega) clears.base_le h.2)

theorem Expr.layouts_hang {column base : Nat} : (es : List Expr) →
    Expr.EveryNameIn Plain es → (∀ e ∈ es, e.Clears floor column base) →
      ∀ item ∈ Expr.layouts es, item.Hangs floor column base
  | [], _, _ => nofun
  | e :: rest, h, clears => by
      rw [List.forall_mem_cons] at clears
      exact List.forall_mem_cons.mpr
        ⟨((e.lays h.1).hangs clears.1).whole, Expr.layouts_hang rest h.2 clears.2⟩

theorem Decl.layouts_solid : (ds : List Decl) →
    Decl.EveryNameIn Plain ds → ∀ item ∈ Decl.layouts ds, item.Solid floor
  | [], _ => nofun
  | d :: rest, h => by
      have first : d.layout.Solid floor :=
        ⟨Decl.layout_opens_plain h.1,
          d.layout_hangs h.1 (.level d.hangs floor)⟩
      exact List.forall_mem_cons.mpr ⟨first, Decl.layouts_solid rest h.2⟩

theorem Field.layout_solid : (f : Field) → f.EveryName Plain →
    f.layout.Solid floor
  | .mk _ value, h => by
      have value := (value.lays h.2).solid
      exact (Layout.Solid.text h.1).seq
        (.attach (by decide) _ value.hangs value.starts (Nat.le_add_right ..))

theorem Field.layouts_solid : (fs : List Field) →
    Field.EveryNameIn Plain fs → ∀ item ∈ Field.layouts fs, item.Solid floor
  | [], _ => nofun
  | f :: rest, h =>
      List.forall_mem_cons.mpr ⟨f.layout_solid h.1, Field.layouts_solid rest h.2⟩

end

end Trees

end TrialLayout
