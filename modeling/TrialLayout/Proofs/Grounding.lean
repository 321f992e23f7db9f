import TrialLayout.Proofs.Advance
import TrialLayout.Proofs.Offside

/-!
# Grounded layouts

Parts of a layout are moved left: commas by one column, arrows by three. Whether that leads past
a column that has to be kept can be read off the layout, without running it. The judgement
`Layout.Grounded room start stop l` does so. It says of a printer over a floor, wherever that is:

* `room`: the base stands at least so many columns right of the floor, and `l` moves its parts left
  by no more than that;
* `start`: the printer is at the start of a line, else it is inside a line, not left of the floor;
* `stop`: the same for the printer that `l` leads to.

What is written at the start of a line comes behind the base. What is hung behind a text has room
for as many columns as the text is wide: this is where the commas and arrows go.

`Layout.Firm l`: grounded without room, from the start of a line or inside one, and ending inside
a line. This is what every expression, statement, alternative, field and declaration is, as long
as no name is empty or contains a newline (`Expr.forms_firm`).
-/

namespace TrialLayout

open Printer Text

/-! ## Definitions -/

namespace Layout

/-- What a layout needs, and where it leads.

* `text`, `inside`: a text that is not empty can be written anywhere, any other inside a line.
* `indent`, `dedent`: one more column of room, and as many columns less as a part is moved left.
* `depend`: the column that `left` ends at may be the floor itself, so that there is no room.
* `dependText`: behind a text there is room for its width.
* `hang`: behind a space there is room for one column.
* `resume`: the column at which the first part starts may be the floor itself.
* `widen`: room that is not needed. -/
inductive Grounded : Nat → Bool → Bool → Layout → Prop
  | text {room : Nat} {start : Bool} {content : String} : Plain content →
      Grounded room start false (text content)
  | inside {room : Nat} {content : String} : OneLine content →
      Grounded room false false (text content)
  | newline {room : Nat} : Grounded room false true newline
  | seq {room : Nat} {start middle stop : Bool} {first second : Layout} :
      Grounded room start middle first → Grounded room middle stop second →
      Grounded room start stop (seq first second)
  | indent {start stop : Bool} {body : Layout} : Grounded 1 start stop body →
      Grounded 0 start stop (shift 1 body)
  | dedent {width : Nat} {start stop : Bool} {body : Layout} : width = 1 ∨ width = 3 →
      Grounded 0 start stop body → Grounded width start stop (shift (-(width : Int)) body)
  | step {room : Nat} {start stop : Bool} {body : Layout} : Grounded room start stop body →
      Grounded room start stop (step body)
  | depend {room : Nat} {start stop : Bool} {left right : Layout} :
      Grounded room start false left → Grounded 0 false stop right →
      Grounded room start stop (depend left right)
  | dependText {room : Nat} {start stop : Bool} {content : String} {right : Layout} :
      Plain content → Grounded content.length false stop right →
      Grounded room start stop (depend (.text content) right)
  | attempt {room : Nat} {start stop : Bool} (fit : Fit) {trial fallback : Layout} :
      Grounded room start stop trial → Grounded room start stop fallback →
      Grounded room start stop (attempt fit trial fallback)
  | byHead {room : Nat} {start stop : Bool} {head short long : Layout} :
      Grounded room start false head → Grounded room false stop short →
      Grounded room false stop long → Grounded room start stop (byHead head short long)
  | hang {room : Nat} {stop : Bool} {body : Layout} : Grounded 1 false stop body →
      Grounded room false stop (hang body)
  | resume {room : Nat} {start middle stop : Bool} {first rest : Layout} :
      Grounded room start middle first → Grounded 0 middle stop rest →
      Grounded room start stop (resume first rest)
  | widen {room wider : Nat} {start stop : Bool} {l : Layout} : room ≤ wider →
      Grounded room start stop l → Grounded wider start stop l

/-- Grounded without room, wherever it starts, and ending inside a line. -/
def Firm (l : Layout) : Prop := ∀ start, Grounded 0 start false l

/-! ## Sequences of items -/

variable {l left right : Layout} {items : List Layout} {room : Nat} {start middle stop : Bool}

namespace Grounded

theorem append (hl : left.Grounded room start middle) (hr : right.Grounded room middle stop) :
    (left ++ right).Grounded room start stop := seq hl hr

theorem empty : Layout.empty.Grounded room false false := inside (by decide)

theorem space : Layout.space.Grounded room start false := text (by decide)

/-- Items after one another, each with something before it. -/
theorem concat_map {before : Layout} (hb : before.Grounded 0 false middle)
    (h : ∀ item ∈ items, item.Firm) :
    (concat (items.map (before ++ ·))).Grounded 0 false false := by
  induction items with
  | nil => exact empty
  | cons item rest ih =>
    rw [List.forall_mem_cons] at h
    exact (hb.append (h.1 middle)).append (ih h.2)

theorem underneath (h : ∀ item ∈ items, item.Firm) :
    (Layout.underneath items).Grounded 0 false false := concat_map newline h

/-- At the start of a line there has to be an item. -/
theorem joined {separator : Layout} (hs : separator.Grounded 0 false middle)
    (some : start = true → items ≠ []) (h : ∀ item ∈ items, item.Firm) :
    (Layout.joined separator items).Grounded 0 start false := by
  induction items generalizing start with
  | nil =>
    cases start with
    | false => exact empty
    | true => exact absurd rfl (some rfl)
  | cons item rest ih =>
    rw [List.forall_mem_cons] at h
    cases rest with
    | nil => exact h.1 start
    | cons second more => exact ((h.1 start).append hs).append (ih (by simp) h.2)

/-- A lead is moved left by its own width, and the item behind it is moved back. -/
theorem stacked {lead : String} (plain : Plain lead) (width : lead.length = 1 ∨ lead.length = 3)
    (some : start = true → items ≠ []) (h : ∀ item ∈ items, item.Firm) :
    (Layout.stacked lead items).Grounded lead.length start false := by
  cases items with
  | nil =>
    cases start with
    | false => exact empty
    | true => exact absurd rfl (some rfl)
  | cons item rest =>
    rw [List.forall_mem_cons] at h
    have lines : ∀ line ∈ rest.map (Layout.depend (.text lead)), line.Firm :=
      List.forall_mem_map.mpr fun other mem _ =>
        dependText plain (widen (Nat.zero_le _) (h.2 other mem false))
    exact (widen (Nat.zero_le _) (h.1 start)).append (dedent width (underneath lines))

theorem stacked_comma (h : ∀ item ∈ items, item.Firm) :
    (Layout.stacked "," items).Grounded 1 false false :=
  stacked (show Plain "," by decide) (.inl rfl) nofun h

end Grounded

/-! ## Collections, bodies, applications, operators -/

namespace Firm

theorem text {content : String} (plain : Plain content) : (Layout.text content).Firm :=
  fun _ => .text plain

theorem append (hl : left.Firm) (hr : right.Grounded 0 false false) : (left ++ right).Firm :=
  fun start => (hl start).append hr

/-- A part behind a text, in the room that the text gives it. -/
theorem behind_wide {content : String} (plain : Plain content) (width : room ≤ content.length)
    (hr : right.Grounded room false false) : (Layout.depend (.text content) right).Firm :=
  fun _ => .dependText plain (.widen width hr)

theorem behind {content : String} (plain : Plain content) (hr : right.Grounded 0 false false) :
    (Layout.depend (.text content) right).Firm := behind_wide plain (Nat.zero_le _) hr

theorem shift_one (h : l.Firm) : (Layout.shift 1 l).Firm :=
  fun start => .indent (.widen (Nat.zero_le _) (h start))

theorem attempt (fit : Fit) (ht : left.Firm) (hf : right.Firm) :
    (Layout.attempt fit left right).Firm := fun start => .attempt fit (ht start) (hf start)

theorem bracketed {opening closing : String} (ho : Plain opening) (hc : OneLine closing)
    (h : ∀ item ∈ items, item.Firm) : (Layout.bracketed opening closing items).Firm := by
  have listed : (listed items).Grounded 1 false false :=
    .widen (Nat.zero_le _) (.joined (.text (by decide)) nofun h)
  exact behind_wide ho ho.length_pos
    ((Grounded.attempt .line listed (.stacked_comma h)).append (.inside hc))

theorem bracketedWhole {opening closing : String} (ho : Plain opening) (hc : OneLine closing)
    (h : ∀ item ∈ items, item.Firm) : (Layout.bracketedWhole opening closing items).Firm := by
  have listed : (listed items).Grounded 0 false false := .joined (.text (by decide)) nofun h
  exact attempt .line (behind ho (listed.append (.inside hc)))
    (behind_wide ho ho.length_pos ((Grounded.stacked_comma h).append (.inside hc)))

end Firm

namespace Grounded

/-- A body behind its separator, or on the next line at the base. -/
theorem attach {separator : String} (plain : Plain separator) (flat : Bool) (h : l.Firm) :
    (Layout.attach separator flat l).Grounded 0 false false := by
  have behind := Firm.behind plain (h false)
  unfold Layout.attach
  split
  · exact behind false
  · exact .attempt .small (behind false) ((append (.inside plain.2) newline).append (h true))

end Grounded

/-- The arguments stand behind the head or below it. -/
theorem Firm.application {head : Layout} {args : List Argument} (hh : head.Firm)
    (some : args ≠ []) (h : ∀ arg ∈ args, arg.layout.Firm) : (application head args).Firm := by
  have layouts : ∀ item ∈ args.map (·.layout), item.Firm := List.forall_mem_map.mpr h
  have lines (start : Bool) : (lined (args.map (·.layout))).Grounded 0 start false :=
    .joined .newline (fun _ => by simpa using some) layouts
  have hanging : (hang (lined (args.map (·.layout)))).Grounded 0 false false :=
    .hang (.widen (Nat.zero_le _) (lines false))
  have block : (newline ++ step (lined (args.map (·.layout)))).Grounded 0 false false :=
    Grounded.newline.append (.step (lines true))
  have onLine {fallback : Layout} (hf : fallback.Grounded 0 false false) :
      (onHeadLine (args.map (·.layout)) fallback).Grounded 0 false false :=
    .attempt .line (.hang (.widen (Nat.zero_le _) (.joined .space nofun layouts))) hf
  intro start
  refine .byHead (hh start) ?_ ?_
  · split
    · exact onLine hanging
    · exact hanging
  · split
    · exact onLine (.attempt _ hanging block)
    · exact .attempt _ hanging block

/-- The right operand stands behind the operator, or the broken form places it. -/
theorem Firm.operation {flat : Bool} {op : String} {broken : Layout → Layout → Layout}
    (ho : OneLine op) (hl : left.Firm) (hr : right.Firm)
    (hbroken : ∀ {x : Layout} {start : Bool}, x.Grounded 0 start true →
      (broken x right).Grounded 0 start false) :
    (Layout.operation flat left op right broken).Firm := by
  have front : (left ++ Layout.space ++ Layout.text op).Firm :=
    (hl.append .space).append (.inside ho)
  have breaking : (broken (left ++ Layout.space ++ Layout.text op ++ newline) right).Firm :=
    fun start => hbroken ((front start).append .newline)
  unfold Layout.operation
  split
  · exact .attempt .within (fun start => .depend (front.append .space start) (hr false)) breaking
  · exact breaking

end Layout

open Layout (Grounded Firm)

/-! ## Types -/

namespace Ty

theorem inline_firm {t : Ty} (names : t.EveryName Plain) : (Layout.text t.inline).Firm :=
  .text (inline_plain names)

/-- The arrows of a type stand three columns left of its components. -/
theorem chain_grounded {t : Ty} (names : t.EveryName Plain) (start : Bool) :
    t.chain.Grounded 3 start false := by
  have components : ∀ item ∈ t.arrows.map fun c => Layout.text c.inline, item.Firm :=
    List.forall_mem_map.mpr fun c mem => inline_firm (t.arrows_everyName names c mem)
  have some : (t.arrows.map fun c => Layout.text c.inline) ≠ [] := by
    cases t <;> simp [arrows]
  exact .attempt .small (.text (inline_plain names))
    (.stacked (show Plain "-> " by decide) (.inr rfl) (fun _ => some) components)

/-- A quantifier ends its line, and without binders it leaves the line as it is. -/
theorem binderLine_grounded {binders : List String} (names : ∀ binder ∈ binders, Plain binder) :
    ∃ stop, (binderLine binders).Grounded 3 false stop := by
  have oneLine : OneLine ("forall " ++ " ".intercalate binders ++ ".") :=
    OneLine.append (OneLine.append (by decide)
      (.intercalate (by decide) fun binder mem => (names binder mem).2)) (by decide)
  unfold binderLine
  split
  · exact ⟨false, .empty⟩
  · exact ⟨true, .append (.inside oneLine) .newline⟩

theorem signatureLayout_grounded {t : Ty} (names : t.EveryName Plain) :
    t.signatureLayout.Grounded 3 false false := by
  match t, names with
  | quantified binders [] body, ⟨hb, _, hbody⟩ =>
    obtain ⟨stop, front⟩ := binderLine_grounded hb
    exact front.append (chain_grounded hbody stop)
  | quantified binders (first :: rest) body, ⟨hb, hc, hbody⟩ =>
    obtain ⟨stop, front⟩ := binderLine_grounded hb
    -- the arrow of the context is moved left, and the type behind it is moved back
    have implied : (Layout.shift (-3) (.depend (.text "=> ") body.chain)).Grounded 3 true false :=
      .dedent (.inr rfl) (.dependText (by decide) (chain_grounded hbody false))
    exact ((front.append (.text (contextText_plain hc))).append .newline).append implied
  | con _, h | var _, h | app .., h | arrow .., h | tuple .., h | list _, h | paren _, h =>
    exact chain_grounded h false

end Ty

theorem Decl.signatureLayout_firm {names : List String} {type : Ty}
    (hn : ∀ name ∈ names, Plain name) (ht : type.EveryName Plain) :
    (signatureLayout names type).Firm := by
  have oneLine : OneLine (", ".intercalate names ++ " :: ") :=
    OneLine.append (.intercalate (by decide) fun name mem => (hn name mem).2) (by decide)
  refine .behind_wide ⟨by simp, oneLine⟩ ?_ (Ty.signatureLayout_grounded ht)
  rw [String.length_append, show " :: ".length = 4 from rfl]
  omega

/-! ## Forms -/

/-- An expression is firm from whichever side it is looked at. -/
structure Forms.Firm (forms : Forms) : Prop where
  whole : forms.whole.Firm
  statement : forms.statement.Firm
  head : forms.head.Firm
  args : ∀ arg ∈ forms.args, arg.layout.Firm

namespace Forms.Firm

theorem uniform {l : Layout} (h : l.Firm) : (Forms.uniform l).Firm :=
  ⟨h, h, h, fun _ mem => absurd mem List.not_mem_nil⟩

theorem apply {func : Forms} {arg : Layout} {flat : Bool} (hf : func.Firm) (ha : arg.Firm) :
    (func.apply ⟨arg, flat⟩).Firm := by
  have args : ∀ other ∈ func.args ++ [⟨arg, flat⟩], other.layout.Firm := by
    rw [List.forall_mem_append, List.forall_mem_singleton]
    exact ⟨hf.args, ha⟩
  have whole : (func.apply ⟨arg, flat⟩).whole.Firm := by
    rw [whole_apply]
    exact .application hf.head (by simp) args
  exact ⟨whole, whole, hf.head, args_apply func _ ▸ args⟩

theorem ofOperation {flat : Bool} {left right : Layout} {op : String} (ho : OneLine op)
    (hl : left.Firm) (hr : right.Firm) : (Forms.ofOperation flat left op right).Firm := by
  have whole : (Layout.operation flat left op right .seq).Firm :=
    .operation ho hl hr fun hx => hx.append (hr true)
  have statement : (Layout.operation flat left op right .resume).Firm :=
    .operation ho hl hr fun hx => .resume hx (hr true)
  exact ⟨whole, statement, whole, fun _ mem => absurd mem List.not_mem_nil⟩

end Forms.Firm

/-! ## Trees -/

mutual

/-- Every expression is firm. A part that stands behind a text starts inside the line, a part on a
line of its own at the start of one. -/
theorem Expr.forms_firm : (e : Expr) → e.EveryName Plain → e.forms.Firm
  | .var _, h | .con _, h | .frac _, h => .uniform (.text h)
  | .int value, _ => by
      have leads : Leads (· ≠ '\n') value.repr :=
        .of_head (fun _ _ hc => hc) (int_repr_oneLine value) (head_int_repr value)
      exact .uniform (.text ⟨leads.ne_empty, leads.1⟩)
  | .char value, _ => .uniform (.text ⟨by simp [charLiteral], charLiteral_oneLine value⟩)
  | .string value, _ => .uniform (.text ⟨by simp [stringLiteral], stringLiteral_oneLine value⟩)
  | .varQuote _, h | .typeQuote _, h =>
      .uniform (.text ⟨by simp [h.1], OneLine.append (by decide) h.2⟩)
  | .wildcard, _ => .uniform (.text (by decide))
  | .app func arg, h => (func.forms_firm h.1).apply (arg.forms_firm h.2).whole
  | .binary left op right, h =>
      .ofOperation (op.spelling_oneLine h.2.1) (left.forms_firm h.1).whole
        (right.forms_firm h.2.2).whole
  | .neg operand, h =>
      .uniform (Firm.append (.text (by decide)) ((operand.forms_firm h).whole false))
  | .leftSection operand op, h => by
      have inner := (((operand.forms_firm h.1).whole false).append .space).append
        (.inside (op.spelling_oneLine h.2))
      exact .uniform (.behind (by decide) (inner.append (.text (by decide))))
  | .rightSection op operand, h => by
      have front : (Layout.text "(" ++ .text op.spelling ++ .space).Firm :=
        ((Firm.text (by decide)).append (.inside (op.spelling_oneLine h.1))).append .space
      have back := ((operand.forms_firm h.2).whole false).append (.text (show Plain ")" by decide))
      exact .uniform fun start => .depend (front start) back
  | .lambda params body, h => by
      have bound : (Layout.spaced (Expr.layouts params)).Grounded 0 false false :=
        .joined .space nofun (Expr.layouts_firm params h.1)
      have result := Grounded.attach (show Plain " -> " by decide) body.isFlat
        (body.forms_firm h.2).whole.shift_one
      exact .uniform (.behind (by decide) (bound.append result))
  | .tuple boxity items, h => by
      refine .uniform ?_
      split
      · exact .text (by cases boxity <;> decide)
      · exact .bracketed (by cases boxity <;> decide) (by cases boxity <;> decide)
          (Expr.layouts_firm items h)
  | .list items, h => by
      refine .uniform ?_
      split
      · exact .text (by decide)
      · exact .bracketedWhole (by decide) (by decide) (Expr.layouts_firm items h)
  | .paren inner, h =>
      .uniform (.behind (by decide)
        (((inner.forms_firm h).whole false).append (.text (by decide))))
  | .cond condition yes no, h => by
      have hc := (condition.forms_firm h.1).whole false
      have hy := (yes.forms_firm h.2.1).whole false
      have hn := (no.forms_firm h.2.2).whole false
      have yesInline := ((Firm.text (show Plain "if " by decide)).append hc).append
        (.text (show Plain " then " by decide))
      have inline := ((yesInline.append hy).append
        (.text (show Plain " else " by decide))).append hn
      have yesLine := Firm.behind (show Plain "then " by decide) hy true
      have noLine := Firm.behind (show Plain "else " by decide) hn true
      have lines := (((hc.append .newline).append yesLine).append .newline).append noLine
      exact .uniform (.attempt .line inline (.behind (by decide) lines))
  | .caseOf scrutinee alts, h => by
      have front := Firm.behind (show Plain "case " by decide)
        ((scrutinee.forms_firm h.1).whole false)
      exact .uniform ((front.append (.text (by decide))).append
        (.step (.underneath (Alt.layouts_firm alts h.2))))
  | .block stmts, h =>
      .uniform (.behind (by decide)
        (.joined .newline nofun (Stmt.layouts_firm stmts h)))
  | .letIn decls body, h => by
      have front := Firm.behind (show Plain "let " by decide)
        (.joined .newline nofun (Decl.layouts_firm decls h.1))
      have back := Firm.behind (show Plain "in " by decide)
        ((body.forms_firm h.2).whole false)
      exact .uniform fun start => ((front start).append .newline).append (back true)
  | .record _ fields, h =>
      .uniform (((Firm.text h.1).append .space).append
        (Firm.bracketed (by decide) (by decide) (Field.layouts_firm fields h.2) false))
  | .update updated fields, h =>
      .uniform (((updated.forms_firm h.1).whole.append .space).append
        (Firm.bracketed (by decide) (by decide) (Field.layouts_firm fields h.2) false))
  | .annot expr _, h => by
      have front := (expr.forms_firm h.1).whole.append (.text (show Plain " :: " by decide))
      exact .uniform fun start => .depend (front start) (.text (Ty.inline_plain h.2))

theorem Expr.layouts_firm : (es : List Expr) → Expr.EveryNameIn Plain es →
    ∀ l ∈ Expr.layouts es, l.Firm
  | [], _ => List.forall_mem_nil _
  | e :: rest, h => List.forall_mem_cons.mpr
      ⟨(e.forms_firm h.1).whole, Expr.layouts_firm rest h.2⟩

theorem Rhs.layout_grounded {separator : String} (hs : Plain separator) :
    (r : Rhs) → r.EveryName Plain → (r.layout separator).Grounded 0 false false
  | .plain body, h => .step (.attach hs body.isFlat (body.forms_firm h).whole)
  | .guarded branches, h => .step (.underneath (Branch.layouts_firm hs branches h))

/-- Behind the bar of a branch there is room for a comma. -/
theorem Branch.layouts_firm {separator : String} (hs : Plain separator) :
    (bs : List Branch) → Branch.EveryNameIn Plain bs →
      ∀ l ∈ Branch.layouts separator bs, l.Firm
  | [], _ => List.forall_mem_nil _
  | .mk guards body :: rest, h => by
      have spaced : ∀ l ∈ (Expr.layouts guards).map (Layout.space ++ ·), l.Firm :=
        List.forall_mem_map.mpr fun l mem =>
          (Firm.text (by decide)).append (Expr.layouts_firm guards h.1.1 l mem false)
      have result := Grounded.attach hs body.isFlat (body.forms_firm h.1.2).whole.shift_one
      have guarded := (Grounded.stacked_comma spaced).append (.widen (Nat.zero_le _) result)
      exact List.forall_mem_cons.mpr
        ⟨(Firm.text (by decide)).append (.indent guarded), Branch.layouts_firm hs rest h.2⟩

theorem Alt.layouts_firm : (as : List Alt) → Alt.EveryNameIn Plain as →
    ∀ l ∈ Alt.layouts as, l.Firm
  | [], _ => List.forall_mem_nil _
  | .mk pattern rhs :: rest, h => List.forall_mem_cons.mpr
      ⟨(pattern.forms_firm h.1.1).whole.append (rhs.layout_grounded (by decide) h.1.2),
        Alt.layouts_firm rest h.2⟩

theorem Stmt.layouts_firm : (ss : List Stmt) → Stmt.EveryNameIn Plain ss →
    ∀ l ∈ Stmt.layouts ss, l.Firm
  | [], _ => List.forall_mem_nil _
  | s :: rest, h => List.forall_mem_cons.mpr ⟨s.layout_firm h.1, Stmt.layouts_firm rest h.2⟩

theorem Stmt.layout_firm : (s : Stmt) → s.EveryName Plain → s.layout.Firm
  | .bind pattern expr, h =>
      (pattern.forms_firm h.1).whole.append
        (.step (.attach (by decide) expr.isFlat (expr.forms_firm h.2).whole))
  | .expr expr, h => (expr.forms_firm h).statement
  | .decls decls, h =>
      .behind (by decide) (.joined .newline nofun (Decl.layouts_firm decls h))

theorem Decl.layouts_firm : (ds : List Decl) → Decl.EveryNameIn Plain ds →
    ∀ l ∈ Decl.layouts ds, l.Firm
  | [], _ => List.forall_mem_nil _
  | d :: rest, h => List.forall_mem_cons.mpr ⟨d.layout_firm h.1, Decl.layouts_firm rest h.2⟩

theorem Decl.layout_firm : (d : Decl) → d.EveryName Plain → d.layout.Firm
  | .signature _ _, h => Decl.signatureLayout_firm h.1 h.2
  | .function _ params rhs, h =>
      ((Firm.text h.1).append (.concat_map .space (Expr.layouts_firm params h.2.1))).append
        (rhs.layout_grounded (by decide) h.2.2)
  | .pattern pattern rhs, h =>
      (pattern.forms_firm h.1).whole.append (rhs.layout_grounded (by decide) h.2)

theorem Field.layouts_firm : (fs : List Field) → Field.EveryNameIn Plain fs →
    ∀ l ∈ Field.layouts fs, l.Firm
  | [], _ => List.forall_mem_nil _
  | .mk _ value :: rest, h => List.forall_mem_cons.mpr
      ⟨(Firm.text h.1.1).append (.attach (by decide) value.isFlat (value.forms_firm h.1.2).whole),
        Field.layouts_firm rest h.2⟩

end

end TrialLayout
