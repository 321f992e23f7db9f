import TrialLayout.Proofs.Advance
import TrialLayout.Proofs.Offside

/-!
# How a rendering ends

A layout closes when it ends inside a line, with a character of its own behind the last newline.
What is written next then stands right behind it, and the column that a head reached is the
column at which it ends. Every expression, statement, alternative, field and declaration closes,
as long as no name is empty; with an empty name the end of a line may be the last thing written.

* `Printer.Ending`: what can be said of the printer at the end. That it is inside a line
  (`Ending.inLine`) is one such thing, and it takes a character, whichever it is.
* `Layout.Closes E inside l`: wherever `l` is run, it ends as `E` says; if `inside`, this is said
  only of printers that are there already. Such a layout may write nothing: a right-hand side
  without branches ends where its pattern does.

Result: `Expr.forms_close`, for every column limit and all other thresholds.
-/

namespace TrialLayout

open Printer Text

/-! ## Definitions -/

/-- A text without newlines in which a character of a kind stands. -/
def Text.Carries (K : Char → Prop) (text : String) : Prop :=
  OneLine text ∧ ∃ c ∈ text.toList, K c

/-- Where a rendering may end. Texts with a character of some kind lead there, visible characters
at least being of that kind; scopes do not matter, and more text on the same line neither. -/
structure Printer.Ending where
  kind : Char → Prop
  place : Printer → Prop
  visible : ∀ c, c ≠ ' ' → kind c
  scope : ∀ {p : Printer} (indent : Nat), place p → place (p.setIndent indent)
  write : ∀ {content : String}, Carries kind content → ∀ p : Printer, place (p.write content)
  more : ∀ {content : String}, OneLine content → ∀ {p : Printer}, place p → place (p.write content)

/-- The layout ends at a place, wherever it is run or wherever it is run from such a place. -/
def Layout.Closes (E : Ending) (inside : Bool) (l : Layout) : Prop :=
  ∀ cfg p, (inside = true → E.place p) → E.place (l.run cfg p)

/-! ## Texts -/

namespace Text

variable {K : Char → Prop} {a b : String}

theorem Carries.ne_empty (h : Carries K a) : a ≠ "" := by
  obtain ⟨-, c, mem, -⟩ := h
  rintro rfl
  exact absurd mem List.not_mem_nil

theorem Carries.append (h : Carries K a) (oneLine : OneLine b) : Carries K (a ++ b) := by
  obtain ⟨oneLine', c, mem, kind⟩ := h
  exact ⟨oneLine'.append oneLine, c, by simp [mem], kind⟩

theorem Carries.prepend (oneLine : OneLine a) (h : Carries K b) : Carries K (a ++ b) := by
  obtain ⟨oneLine', c, mem, kind⟩ := h
  exact ⟨oneLine.append oneLine', c, by simp [mem], kind⟩

theorem any_of_head {text : String} (head : text.toList.head?.any (· != ' ') = true) :
    text.toList.any (· != ' ') = true := by
  cases shape : text.toList with
  | nil => simp [shape] at head
  | cons c rest =>
    rw [shape] at head
    exact List.any_eq_true.mpr ⟨c, List.mem_cons_self, head⟩

theorem Plain.carries (h : Plain a) (all : ∀ c, K c) : Carries K a := by
  cases shape : a.toList with
  | nil => exact absurd (String.toList_eq_nil_iff.mp shape) h.1
  | cons c rest => exact ⟨h.2, c, shape ▸ List.mem_cons_self, all c⟩

end Text

/-- Inside a line. -/
def Printer.Ending.inLine : Ending where
  kind _ := True
  place p := p.atLineStart = false
  visible _ _ := trivial
  scope _ h := h
  write carries p := write_inLine p carries.ne_empty carries.1
  more oneLine p inLine := by
    rw [write_of_inLine inLine oneLine]
    exact inLine

theorem Printer.Ending.carries (E : Ending) {content : String} (oneLine : OneLine content)
    (visible : content.toList.any (· != ' ') = true) : Carries E.kind content := by
  obtain ⟨c, mem, notSpace⟩ := List.any_eq_true.mp visible
  exact ⟨oneLine, c, mem, E.visible c (by simpa using notSpace)⟩

/-! ## Layouts -/

namespace Layout.Closes

variable {E : Ending} {inside : Bool} {l left right : Layout} {items : List Layout}

theorem mono (h : l.Closes E false) : l.Closes E inside := fun cfg p _ => h cfg p nofun

theorem text {content : String} (carries : Carries E.kind content) :
    (Layout.text content).Closes E inside :=
  fun _ p _ => E.write carries p

/-- Delimiters and words. -/
theorem mark {content : String} (oneLine : OneLine content)
    (visible : content.toList.any (· != ' ') = true) : (Layout.text content).Closes E inside :=
  text (E.carries oneLine visible)

/-- A text that may be empty leaves the line as it is. -/
theorem text_inside {content : String} (oneLine : OneLine content) :
    (Layout.text content).Closes E true :=
  fun _ _ start => E.more oneLine (start rfl)

theorem seq (hl : left.Closes E inside) (hr : right.Closes E true) :
    (left ++ right).Closes E inside :=
  fun cfg p start => hr cfg (left.run cfg p) fun _ => hl cfg p start

theorem seq_right (left : Layout) (hr : right.Closes E false) : (left ++ right).Closes E inside :=
  fun cfg p _ => hr cfg (left.run cfg p) nofun

theorem shift (delta : Int) (h : l.Closes E inside) : (Layout.shift delta l).Closes E inside :=
  fun cfg p start => E.scope p.indent
    (h cfg (p.setIndent (shifted p.indent delta)) fun inside => E.scope _ (start inside))

theorem step (h : l.Closes E inside) : (Layout.step l).Closes E inside :=
  fun cfg p start => E.scope p.indent
    (h cfg (p.setIndent (cfg.stepFrom p.indent)) fun inside => E.scope _ (start inside))

theorem depend (hl : left.Closes E inside) (hr : right.Closes E true) :
    (Layout.depend left right).Closes E inside := by
  intro cfg p start
  obtain ⟨base, based⟩ := dependBase_eq_setIndent p (left.run cfg p)
  rw [run_depend, based]
  exact E.scope _
    (hr cfg ((left.run cfg p).setIndent base) fun _ => E.scope base (hl cfg p start))

theorem depend_right (left : Layout) (hr : right.Closes E false) :
    (Layout.depend left right).Closes E inside := by
  intro cfg p _
  rw [run_depend]
  exact E.scope _ (hr cfg (p.dependBase (left.run cfg p)) nofun)

theorem attempt (fit : Fit) (ht : left.Closes E inside) (hf : right.Closes E inside) :
    (Layout.attempt fit left right).Closes E inside := by
  intro cfg p start
  rw [run_attempt]
  split
  · exact ht cfg p start
  · exact hf cfg p start

theorem byHead (head : Layout) (hs : left.Closes E false) (hl : right.Closes E false) :
    (Layout.byHead head left right).Closes E inside := by
  intro cfg p _
  rw [run_byHead]
  split
  · exact hs cfg (head.run cfg p) nofun
  · exact hl cfg (head.run cfg p) nofun

theorem hang (h : l.Closes E false) : (Layout.hang l).Closes E inside :=
  fun cfg p _ => E.scope _ (h cfg (p.space.setIndent (p.column + 1)) nofun)

theorem resume (first : Layout) (h : right.Closes E false) :
    (Layout.resume first right).Closes E inside :=
  fun cfg p _ => E.scope _
    (h cfg ((first.run cfg p).setIndent (cfg.stepFrom p.effectiveColumn)) nofun)

/-- The last item closes what is put together from several. -/
theorem joined (separator : Layout) (nonempty : items ≠ [])
    (h : ∀ item ∈ items, item.Closes E false) :
    (Layout.joined separator items).Closes E inside := by
  induction items generalizing inside with
  | nil => exact absurd rfl nonempty
  | cons item rest ih =>
    rw [List.forall_mem_cons] at h
    cases rest with
    | nil => exact h.1.mono
    | cons second more => exact seq_right _ (ih (by simp) h.2)

/-- Inside a line there may be no item at all. -/
theorem lined (h : ∀ item ∈ items, item.Closes E false) : (Layout.lined items).Closes E true := by
  cases items with
  | nil => exact text_inside (by decide)
  | cons item rest => exact joined _ (by simp) h

/-- Items after one another, each with something before it. -/
theorem concat_map (before : Layout) (h : ∀ item ∈ items, item.Closes E false) :
    (Layout.concat (items.map (before ++ ·))).Closes E true := by
  induction items with
  | nil => exact text_inside (by decide)
  | cons item rest ih =>
    rw [List.forall_mem_cons] at h
    exact (seq_right _ h.1).seq (ih h.2)

theorem underneath (h : ∀ item ∈ items, item.Closes E false) :
    (Layout.underneath items).Closes E true := concat_map _ h

theorem stacked {lead : String} (nonempty : items ≠ []) (h : ∀ item ∈ items, item.Closes E false) :
    (Layout.stacked lead items).Closes E inside := by
  cases items with
  | nil => exact absurd rfl nonempty
  | cons item rest =>
    rw [List.forall_mem_cons] at h
    refine h.1.mono.seq (shift _ (underneath (List.forall_mem_map.mpr fun other mem => ?_)))
    exact depend_right _ (h.2 other mem)

/-! ## Collections, bodies, applications, operators -/

theorem bracketed {opening closing : String} (h : (Layout.text closing).Closes E false)
    (items : List Layout) : (Layout.bracketed opening closing items).Closes E inside :=
  depend_right _ (seq_right _ h)

theorem bracketedWhole {opening closing : String} (h : (Layout.text closing).Closes E false)
    (items : List Layout) : (Layout.bracketedWhole opening closing items).Closes E inside :=
  attempt _ (depend_right _ (seq_right _ h)) (depend_right _ (seq_right _ h))

theorem attach {separator : String} (flat : Bool) (h : l.Closes E false) :
    (Layout.attach separator flat l).Closes E inside := by
  unfold Layout.attach
  split
  · exact depend_right _ h
  · exact attempt _ (depend_right _ h) (seq_right _ h)

theorem application {head : Layout} {args : List Argument} (nonempty : args ≠ [])
    (h : ∀ arg ∈ args, arg.layout.Closes E false) :
    (Layout.application head args).Closes E inside := by
  have layouts : ∀ item ∈ args.map (·.layout), item.Closes E false := List.forall_mem_map.mpr h
  have some : args.map (·.layout) ≠ [] := by simpa using nonempty
  have hanging : (Layout.hang (.lined (args.map (·.layout)))).Closes E false :=
    hang (joined _ some layouts)
  have block : (Layout.newline ++ .step (.lined (args.map (·.layout)))).Closes E false :=
    seq_right _ (step (joined _ some layouts))
  have onLine {fallback : Layout} (hf : fallback.Closes E false) :
      (onHeadLine (args.map (·.layout)) fallback).Closes E false :=
    attempt _ (hang (joined _ some layouts)) hf
  refine byHead head ?_ ?_
  · split
    · exact onLine hanging
    · exact hanging
  · split
    · exact onLine (attempt _ hanging block)
    · exact attempt _ hanging block

theorem operation {flat : Bool} {op : String} {broken : Layout → Layout → Layout}
    (hbroken : ∀ {x y : Layout}, y.Closes E false → (broken x y).Closes E false)
    (hr : right.Closes E false) : (Layout.operation flat left op right broken).Closes E false := by
  unfold Layout.operation
  split
  · exact attempt _ (depend_right _ hr) (hbroken hr)
  · exact hbroken hr

end Layout.Closes

open Layout (Closes)

section Trees

variable {E : Ending} {N : String → Prop}

/-! ## Types -/

namespace Ty

theorem inline_oneLine (hN : ∀ s, N s → Carries E.kind s) {t : Ty} (names : t.EveryName N) :
    OneLine t.inline :=
  (t.inline_spells (names.mono fun s hs => (hN s hs).1)).1

theorem inline_carries (hN : ∀ s, N s → Carries E.kind s) : (t : Ty) → t.EveryName N →
    Carries E.kind t.inline
  | con name, h | var name, h => hN name h
  | app func _, h | arrow func _, h =>
      ((func.inline_carries hN h.1).append (by decide)).append (inline_oneLine hN h.2)
  | quantified binders context body, h => by
      have oneLine := inline_oneLine (t := quantified binders context body) hN h
      obtain ⟨-, c, mem, kind⟩ := body.inline_carries hN h.2.2
      exact ⟨oneLine, c, by simp [inline, mem], kind⟩
  | tuple boxity items, h => by
      refine E.carries (inline_oneLine (t := tuple boxity items) hN h) ?_
      rw [inline]
      split <;> cases boxity <;> simp [Boxity.unit, Boxity.opening]
  | list element, h => E.carries (inline_oneLine (t := list element) hN h) (by simp [inline])
  | paren inner, h => E.carries (inline_oneLine (t := paren inner) hN h) (by simp [inline])

theorem chain_closes (hN : ∀ s, N s → Carries E.kind s) {t : Ty} (names : t.EveryName N) :
    t.chain.Closes E false := by
  refine .attempt _ (.text (t.inline_carries hN names)) (.stacked ?_ ?_)
  · cases t <;> simp [arrows]
  · exact List.forall_mem_map.mpr fun c mem =>
      .text (c.inline_carries hN (t.arrows_everyName names c mem))

theorem signatureLayout_closes (hN : ∀ s, N s → Carries E.kind s) {t : Ty}
    (names : t.EveryName N) : t.signatureLayout.Closes E false := by
  unfold signatureLayout
  split
  · exact .seq_right _ (chain_closes hN names.2.2)
  · exact .seq_right _ (.shift _ (.depend_right _ (chain_closes hN names.2.2)))
  · exact chain_closes hN names

end Ty

/-! ## Trees -/

/-- An expression closes from whichever side it is looked at. -/
structure Forms.Closes (E : Ending) (forms : Forms) : Prop where
  whole : forms.whole.Closes E false
  statement : forms.statement.Closes E false
  head : forms.head.Closes E false
  args : ∀ arg ∈ forms.args, arg.layout.Closes E false

namespace Forms.Closes

theorem uniform {l : Layout} (h : l.Closes E false) : (Forms.uniform l).Closes E :=
  ⟨h, h, h, fun _ mem => absurd mem List.not_mem_nil⟩

theorem apply {func : Forms} {arg : Layout} {flat : Bool} (hf : func.Closes E)
    (ha : arg.Closes E false) : (func.apply ⟨arg, flat⟩).Closes E := by
  have args : ∀ other ∈ func.args ++ [⟨arg, flat⟩], other.layout.Closes E false := by
    rw [List.forall_mem_append, List.forall_mem_singleton]
    exact ⟨hf.args, ha⟩
  have whole : (func.apply ⟨arg, flat⟩).whole.Closes E false := by
    rw [whole_apply]
    exact .application (by simp) args
  exact ⟨whole, whole, hf.head, args_apply func _ ▸ args⟩

theorem ofOperation {flat : Bool} {left right : Layout} {op : String} (hr : right.Closes E false) :
    (Forms.ofOperation flat left op right).Closes E := by
  have whole : (Layout.operation flat left op right .seq).Closes E false :=
    .operation (fun h => h.seq_right _) hr
  have statement : (Layout.operation flat left op right .resume).Closes E false :=
    .operation (fun h => h.resume _) hr
  exact ⟨whole, statement, whole, fun _ mem => absurd mem List.not_mem_nil⟩

end Forms.Closes

mutual

/-- Every expression closes, with a name, a literal or a delimiter. Only its last part matters,
and the arguments of a spine. -/
theorem Expr.forms_close (hN : ∀ s, N s → Carries E.kind s) :
    (e : Expr) → e.EveryName N → e.forms.Closes E
  | .var name, h | .con name, h | .frac name, h => .uniform (.text (hN name h))
  | .int value, _ => .uniform (.mark (int_repr_oneLine value) (any_of_head (head_int_repr value)))
  | .char value, _ => .uniform (.mark (charLiteral_oneLine value) (by simp [charLiteral]))
  | .string value, _ => .uniform (.mark (stringLiteral_oneLine value) (by simp [stringLiteral]))
  | .varQuote name, h | .typeQuote name, h => .uniform (.text ((hN name h).prepend (by decide)))
  | .wildcard, _ => .uniform (.mark (by decide) (by decide))
  | .app func arg, h => (func.forms_close hN h.1).apply (arg.forms_close hN h.2).whole
  | .binary _ _ right, h => .ofOperation (right.forms_close hN h.2.2).whole
  | .neg operand, h => .uniform (.seq_right _ (operand.forms_close hN h).whole)
  | .leftSection .., _ | .rightSection .., _ | .paren _, _ =>
      .uniform (.depend_right _ (.seq_right _ (.mark (by decide) (by decide))))
  | .lambda _ body, h =>
      .uniform (.depend_right _
        (.seq_right _ (.attach _ (.shift 1 (body.forms_close hN h.2).whole))))
  | .tuple boxity items, _ => by
      refine .uniform ?_
      split
      · cases boxity <;> exact .mark (by decide) (by decide)
      · cases boxity <;> exact .bracketed (.mark (by decide) (by decide)) _
  | .list items, _ => by
      refine .uniform ?_
      split
      · exact .mark (by decide) (by decide)
      · exact .bracketedWhole (.mark (by decide) (by decide)) _
  | .cond _ _ no, h => by
      have last := (no.forms_close hN h.2.2).whole
      exact .uniform (.attempt _ (.seq_right _ last)
        (.depend_right _ (.seq_right _ (.depend_right _ last))))
  | .caseOf _ alts, h => by
      have below := (Closes.underneath (Alt.layouts_close hN alts h.2)).step
      exact .uniform ((Closes.seq_right _ (.mark (by decide) (by decide))).seq below)
  | .block stmts, h =>
      .uniform ((Closes.mark (by decide) (by decide)).depend
        (.lined (Stmt.layouts_close hN stmts h)))
  | .letIn _ body, h => .uniform (.seq_right _ (.depend_right _ (body.forms_close hN h.2).whole))
  | .record .., _ | .update .., _ =>
      .uniform (.seq_right _ (.bracketed (.mark (by decide) (by decide)) _))
  | .annot _ type, h => .uniform (.depend_right _ (.text (type.inline_carries hN h.2)))

theorem Expr.layouts_close (hN : ∀ s, N s → Carries E.kind s) :
    (es : List Expr) → Expr.EveryNameIn N es →
      ∀ l ∈ Expr.layouts es, l.Closes E false
  | [], _ => List.forall_mem_nil _
  | e :: rest, h => List.forall_mem_cons.mpr
      ⟨(e.forms_close hN h.1).whole, Expr.layouts_close hN rest h.2⟩

theorem Rhs.layout_closes (hN : ∀ s, N s → Carries E.kind s) {separator : String} :
    (r : Rhs) → r.EveryName N → (r.layout separator).Closes E true
  | .plain body, h => .step (.attach _ (body.forms_close hN h).whole)
  | .guarded branches, h => .step (.underneath (Branch.layouts_close hN separator branches h))

theorem Branch.layouts_close (hN : ∀ s, N s → Carries E.kind s) (separator : String) :
    (bs : List Branch) → Branch.EveryNameIn N bs →
      ∀ l ∈ Branch.layouts separator bs, l.Closes E false
  | [], _ => List.forall_mem_nil _
  | .mk _ body :: rest, h => by
      have last := (body.forms_close hN h.1.2).whole
      exact List.forall_mem_cons.mpr
        ⟨.seq_right _ (.shift 1 (.seq_right _ (.attach _ (.shift 1 last)))),
          Branch.layouts_close hN separator rest h.2⟩

theorem Alt.layout_closes (hN : ∀ s, N s → Carries E.kind s) :
    (a : Alt) → a.EveryName N → a.layout.Closes E false
  | .mk pattern rhs, h => (pattern.forms_close hN h.1).whole.seq (rhs.layout_closes hN h.2)

theorem Alt.layouts_close (hN : ∀ s, N s → Carries E.kind s) :
    (as : List Alt) → Alt.EveryNameIn N as →
      ∀ l ∈ Alt.layouts as, l.Closes E false
  | [], _ => List.forall_mem_nil _
  | a :: rest, h =>
      List.forall_mem_cons.mpr ⟨a.layout_closes hN h.1, Alt.layouts_close hN rest h.2⟩

theorem Stmt.layout_closes (hN : ∀ s, N s → Carries E.kind s) :
    (s : Stmt) → s.EveryName N → s.layout.Closes E false
  | .bind _ expr, h => .seq_right _ (.step (.attach _ (expr.forms_close hN h.2).whole))
  | .expr expr, h => (expr.forms_close hN h).statement
  | .decls decls, h =>
      (Closes.mark (show OneLine "let " by decide) (by decide)).depend
        (.lined (Decl.layouts_close hN decls h))

theorem Stmt.layouts_close (hN : ∀ s, N s → Carries E.kind s) :
    (ss : List Stmt) → Stmt.EveryNameIn N ss →
      ∀ l ∈ Stmt.layouts ss, l.Closes E false
  | [], _ => List.forall_mem_nil _
  | s :: rest, h =>
      List.forall_mem_cons.mpr ⟨s.layout_closes hN h.1, Stmt.layouts_close hN rest h.2⟩

theorem Decl.layout_closes (hN : ∀ s, N s → Carries E.kind s) :
    (d : Decl) → d.EveryName N → d.layout.Closes E false
  | .signature _ _, h => .depend_right _ (Ty.signatureLayout_closes hN h.2)
  | .function name params rhs, h =>
      ((Closes.text (hN name h.1)).seq (.concat_map _ (Expr.layouts_close hN params h.2.1))).seq
        (rhs.layout_closes hN h.2.2)
  | .pattern pattern rhs, h => (pattern.forms_close hN h.1).whole.seq (rhs.layout_closes hN h.2)

theorem Decl.layouts_close (hN : ∀ s, N s → Carries E.kind s) :
    (ds : List Decl) → Decl.EveryNameIn N ds →
      ∀ l ∈ Decl.layouts ds, l.Closes E false
  | [], _ => List.forall_mem_nil _
  | d :: rest, h =>
      List.forall_mem_cons.mpr ⟨d.layout_closes hN h.1, Decl.layouts_close hN rest h.2⟩

end

theorem Field.layouts_close (hN : ∀ s, N s → Carries E.kind s) :
    (fs : List Field) → Field.EveryNameIn N fs →
      ∀ l ∈ Field.layouts fs, l.Closes E false
  | [], _ => List.forall_mem_nil _
  | .mk _ value :: rest, h => by
      have last := (value.forms_close hN h.1.2).whole
      exact List.forall_mem_cons.mpr
        ⟨.seq_right _ (.attach _ last), Field.layouts_close hN rest h.2⟩

end Trees

/-! ## Inside a line -/

theorem Expr.forms_close_plain {e : Expr} (names : e.EveryName Plain) :
    e.forms.Closes .inLine :=
  e.forms_close (fun _ plain => plain.carries fun _ => trivial) names

theorem Expr.layouts_close_plain {es : List Expr} (names : Expr.EveryNameIn Plain es) :
    ∀ l ∈ Expr.layouts es, l.Closes .inLine false :=
  Expr.layouts_close (fun _ plain => plain.carries fun _ => trivial) es names

theorem Field.layouts_close_plain {fs : List Field} (names : Field.EveryNameIn Plain fs) :
    ∀ l ∈ Field.layouts fs, l.Closes .inLine false :=
  Field.layouts_close (fun _ plain => plain.carries fun _ => trivial) fs names

end TrialLayout
