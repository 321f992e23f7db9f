import TrialLayout.Proofs.Advance
import TrialLayout.Tree.Layout

/-!
# Coherent layouts

A layout has alternatives, and which of them is taken depends on the position and on the
thresholds. Most fallbacks end a line. Some do not: one argument behind its head, one item
between brackets, an arrow with one component. This module says that a fallback that stays on
the line does exactly what the rejected trial does.

* `Layout.EndsLine`: a layout that never stays on the line.
* `Layout.Agrees`: where the fallback stays on the line, the trial does the same.
* `Layout.Coherent`: every choice inside a layout is between layouts that agree. A trial that is
  judged by the column at which it ends has to write something (`Layout.Inks`), since a printer
  at the start of a line may count any column.

Result: the layout of every tree is coherent (`Expr.forms_coherent`, `Decl.layout_coherent`),
whatever its names are.
-/

namespace TrialLayout

open Printer

/-! ## Definitions -/

/-- Whether a trial is judged by comparing the column at which it ends with the limit. -/
def Fit.isLimited : Fit → Bool
  | line | within => true
  | small | stack _ => false

namespace Layout

/-- Wherever the layout is run, it ends a line. -/
def EndsLine (l : Layout) : Prop := ∀ cfg p, ¬l.Stays cfg p

/-- Where the layout stays on the line, it has left the start of the line. -/
def Inks (l : Layout) : Prop := ∀ cfg p, l.Stays cfg p → (l.run cfg p).atLineStart = false

/-- Where `fallback` stays on the line, `trial` does the same. -/
def Agrees (trial fallback : Layout) : Prop :=
  ∀ cfg p, fallback.Stays cfg p → trial.run cfg p = fallback.run cfg p

/-- Every choice in the layout is between parts that agree.

* `attempt`: a fallback that ends a line or agrees with the trial.
* `either`: a fallback that always does what the trial does.
* `byHead`: what follows a long head agrees with what follows a short one. -/
inductive Coherent : Layout → Prop
  | text (content : String) : Coherent (text content)
  | newline : Coherent newline
  | seq {first second : Layout} : Coherent first → Coherent second → Coherent (seq first second)
  | shift (delta : Int) {body : Layout} : Coherent body → Coherent (shift delta body)
  | step {body : Layout} : Coherent body → Coherent (step body)
  | depend {left right : Layout} : Coherent left → Coherent right → Coherent (depend left right)
  | attempt {fit : Fit} {trial fallback : Layout} : Coherent trial → Coherent fallback →
      Agrees trial fallback → (fit.isLimited = true → Inks trial) →
      Coherent (attempt fit trial fallback)
  | either {fit : Fit} {trial fallback : Layout} : Coherent trial →
      (∀ cfg p, fallback.run cfg p = trial.run cfg p) → Coherent (attempt fit trial fallback)
  | byHead {head short long : Layout} : Coherent head → Coherent short → Coherent long →
      Agrees short long → Coherent (byHead head short long)
  | hang {body : Layout} : Coherent body → Coherent (hang body)
  | resume {first rest : Layout} : Coherent first → Coherent rest → Coherent (resume first rest)

/-! ## Layouts that end a line -/

variable {l left right : Layout}

namespace EndsLine

theorem newline : Layout.newline.EndsLine := fun _ p => Nat.succ_ne_self p.line

theorem seq_left (h : left.EndsLine) (right : Layout) : (left ++ right).EndsLine :=
  fun cfg p stays => h cfg p (seq_stays.mp stays).1

theorem seq_right (left : Layout) (h : right.EndsLine) : (left ++ right).EndsLine :=
  fun cfg p stays => h cfg (left.run cfg p) (seq_stays.mp stays).2

theorem shift (delta : Int) (h : l.EndsLine) : (Layout.shift delta l).EndsLine :=
  fun cfg p => h cfg (p.setIndent (shifted p.indent delta))

theorem hang (h : l.EndsLine) : (Layout.hang l).EndsLine :=
  fun cfg _ stays => h cfg _ (hang_stays.mp stays)

theorem depend_right (left : Layout) (h : right.EndsLine) : (Layout.depend left right).EndsLine :=
  fun cfg _ stays => h cfg _ (depend_stays.mp stays).2

theorem resume (h : left.EndsLine) (right : Layout) : (Layout.resume left right).EndsLine :=
  fun cfg p stays => h cfg p (resume_stays.mp stays).1

theorem lined {items : List Layout} (several : 2 ≤ items.length) :
    (Layout.lined items).EndsLine := by
  rcases items with - | ⟨first, - | ⟨second, rest⟩⟩
  · simp at several
  · simp at several
  · exact (seq_right first newline).seq_left _

theorem stacked {lead : String} {items : List Layout} (several : 2 ≤ items.length) :
    (Layout.stacked lead items).EndsLine := by
  rcases items with - | ⟨first, - | ⟨second, rest⟩⟩
  · simp at several
  · simp at several
  · exact seq_right first (((newline.seq_left _).seq_left _).shift _)

end EndsLine

/-! ## Layouts that write -/

namespace Inks

theorem text {content : String} (nonempty : content ≠ "") : (Layout.text content).Inks := by
  intro cfg p stays
  have line : (p.write content).line = p.line := stays
  rw [write_line] at line
  exact write_inLine p nonempty (List.count_eq_zero.mp (by omega))

theorem seq_left (h : left.Inks) (right : Layout) : (left ++ right).Inks := by
  intro cfg p stays
  obtain ⟨first, second⟩ := seq_stays.mp stays
  exact second.inLine (h cfg p first)

theorem seq_right (left : Layout) (h : right.Inks) : (left ++ right).Inks :=
  fun cfg p stays => h cfg (left.run cfg p) (seq_stays.mp stays).2

theorem depend_left (h : left.Inks) (right : Layout) : (Layout.depend left right).Inks := by
  intro cfg p stays
  obtain ⟨first, second⟩ := depend_stays.mp stays
  obtain ⟨base, based⟩ := dependBase_eq_setIndent p (left.run cfg p)
  rw [run_depend]
  refine second.inLine ?_
  rw [based]
  exact h cfg p first

theorem hang (l : Layout) : (Layout.hang l).Inks := by
  intro cfg p stays
  exact (hang_stays.mp stays).inLine (write_inLine p (by decide) (by decide))

end Inks

/-! ## Agreement -/

namespace Agrees

variable {trial fallback other : Layout} {fit : Fit}

theorem of_endsLine (trial : Layout) (h : fallback.EndsLine) : trial.Agrees fallback :=
  fun cfg p stays => absurd stays (h cfg p)

theorem stays {cfg : Config} {p : Printer} (h : trial.Agrees fallback)
    (stays : fallback.Stays cfg p) : trial.Stays cfg p := by
  unfold Stays
  rw [h cfg p stays]
  exact stays

theorem trans (h : trial.Agrees fallback) (h' : fallback.Agrees other) : trial.Agrees other :=
  fun cfg p stays => (h cfg p (h'.stays stays)).trans (h' cfg p stays)

/-- A choice whose fallback ends a line is its trial. -/
theorem attempt_right (trial : Layout) (h : fallback.EndsLine) :
    trial.Agrees (Layout.attempt fit trial fallback) := by
  intro cfg p stays
  unfold Stays at stays
  rw [run_attempt] at stays ⊢
  split
  · rfl
  · next rejected =>
    rw [if_neg rejected] at stays
    exact absurd stays (h cfg p)

/-- A choice between two layouts that agree with a third agrees with it. -/
theorem attempt_left (h : trial.Agrees fallback) (h' : fallback.Agrees other) :
    (Layout.attempt fit trial fallback).Agrees other := by
  intro cfg p stays
  rw [run_attempt]
  split
  · exact (h.trans h') cfg p stays
  · exact h' cfg p stays

/-- Choices with the same trial agree if their fallbacks do. -/
theorem attempt (trial : Layout) (h : fallback.Agrees other) :
    (Layout.attempt fit trial fallback).Agrees (Layout.attempt fit trial other) := by
  intro cfg p stays
  unfold Stays at stays
  rw [run_attempt] at stays ⊢
  rw [run_attempt]
  split
  · rfl
  · next rejected =>
    rw [if_neg rejected] at stays
    exact h cfg p stays

end Agrees

/-- A choice between layouts that always do the same is no choice. -/
theorem run_either {fit : Fit} {trial fallback : Layout}
    (same : ∀ cfg p, fallback.run cfg p = trial.run cfg p) (cfg : Config) (p : Printer) :
    (attempt fit trial fallback).run cfg p = trial.run cfg p := by
  rw [run_attempt]
  split
  · rfl
  · exact same cfg p

/-! ## Sequences of items -/

/-- One item is stacked as it stands. -/
theorem run_stacked_single (lead : String) (item : Layout) (cfg : Config) (p : Printer) :
    (stacked lead [item]).run cfg p = item.run cfg p := rfl

namespace Coherent

variable {items : List Layout}

theorem empty : Layout.empty.Coherent := text ""

theorem space : Layout.space.Coherent := text " "

theorem append (hl : left.Coherent) (hr : right.Coherent) : (left ++ right).Coherent :=
  seq hl hr

theorem concat (h : ∀ item ∈ items, item.Coherent) : (Layout.concat items).Coherent := by
  induction items with
  | nil => exact empty
  | cons item rest ih =>
    rw [List.forall_mem_cons] at h
    exact h.1.append (ih h.2)

theorem joined {separator : Layout} (hs : separator.Coherent)
    (h : ∀ item ∈ items, item.Coherent) : (Layout.joined separator items).Coherent := by
  induction items with
  | nil => exact empty
  | cons item rest ih =>
    rw [List.forall_mem_cons] at h
    cases rest with
    | nil => exact h.1
    | cons second more => exact (h.1.append hs).append (ih h.2)

theorem underneath (h : ∀ item ∈ items, item.Coherent) : (Layout.underneath items).Coherent := by
  refine concat (List.forall_mem_map.mpr fun item mem => ?_)
  exact newline.append (h item mem)

/-- Items after one another, each with a space before it. -/
theorem concat_space (h : ∀ item ∈ items, item.Coherent) :
    (Layout.concat (items.map (Layout.space ++ ·))).Coherent :=
  concat (List.forall_mem_map.mpr fun item mem => space.append (h item mem))

theorem stacked {lead : String} (h : ∀ item ∈ items, item.Coherent) :
    (Layout.stacked lead items).Coherent := by
  cases items with
  | nil => exact empty
  | cons item rest =>
    rw [List.forall_mem_cons] at h
    refine h.1.append (shift _ (underneath (List.forall_mem_map.mpr fun other mem => ?_)))
    exact (text lead).depend (h.2 other mem)

/-! ## Collections, bodies, applications, operators -/

theorem row (h : ∀ item ∈ items, item.Coherent) : (Layout.row items).Coherent := by
  have listed : (Layout.listed items).Coherent := joined (text ", ") h
  rcases items with - | ⟨first, - | ⟨second, rest⟩⟩
  · exact either listed fun _ _ => rfl
  · exact either listed fun _ _ => rfl
  · refine attempt listed (stacked h) (.of_endsLine _ (.stacked (by simp))) fun _ => ?_
    exact (Inks.seq_right first (.text (by decide))).seq_left _

theorem bracketed {opening closing : String} (h : ∀ item ∈ items, item.Coherent) :
    (Layout.bracketed opening closing items).Coherent :=
  (text opening).depend ((row h).append (text closing))

theorem bracketedWhole {opening closing : String} (nonempty : opening ≠ "")
    (h : ∀ item ∈ items, item.Coherent) :
    (Layout.bracketedWhole opening closing items).Coherent := by
  have listed : (Layout.listed items).Coherent := joined (text ", ") h
  have whole := (text opening).depend (listed.append (text closing))
  rcases items with - | ⟨first, - | ⟨second, rest⟩⟩
  · exact either whole fun _ _ => rfl
  · exact either whole fun _ _ => rfl
  · refine attempt whole ((text opening).depend ((stacked h).append (text closing))) ?_ fun _ => ?_
    · exact .of_endsLine _ (.depend_right _ (.seq_left (.stacked (by simp)) _))
    · exact (Inks.text nonempty).depend_left _

theorem attach {separator : String} {flat : Bool} (h : l.Coherent) :
    (Layout.attach separator flat l).Coherent := by
  have behind := (text separator).depend h
  unfold Layout.attach
  split
  · exact behind
  · refine attempt behind (((text separator).append newline).append h) ?_ nofun
    exact .of_endsLine _ ((EndsLine.seq_right _ .newline).seq_left _)

/-- Up to one item, it makes no difference what would stand between the items. -/
theorem spaced_agrees_lined (items : List Layout) :
    (Layout.hang (spaced items)).Agrees (Layout.hang (lined items)) := by
  rcases items with - | ⟨first, - | ⟨second, rest⟩⟩
  · exact fun _ _ _ => rfl
  · exact fun _ _ _ => rfl
  · exact .of_endsLine _ (.hang (.lined (by simp)))

theorem application {head : Layout} {args : List Argument} (hh : head.Coherent)
    (h : ∀ arg ∈ args, arg.layout.Coherent) : (Layout.application head args).Coherent := by
  have layouts : ∀ item ∈ args.map (·.layout), item.Coherent := List.forall_mem_map.mpr h
  have hanging := hang (joined newline layouts)
  have blockEnds : (Layout.newline ++ .step (lined (args.map (·.layout)))).EndsLine :=
    EndsLine.newline.seq_left _
  have stacked : (Layout.attempt (.stack args.length) (.hang (lined (args.map (·.layout))))
      (.newline ++ .step (lined (args.map (·.layout))))).Coherent :=
    attempt hanging (newline.append (step (joined newline layouts)))
      (.of_endsLine _ blockEnds) nofun
  have onLine {fallback : Layout} (hf : fallback.Coherent)
      (agrees : (Layout.hang (lined (args.map (·.layout)))).Agrees fallback) :
      (onHeadLine (args.map (·.layout)) fallback).Coherent :=
    attempt (hang (joined space layouts)) hf ((spaced_agrees_lined _).trans agrees)
      fun _ => .hang _
  -- behind a long head the arguments may also form a block, which ends a line
  have agrees : (Layout.hang (lined (args.map (·.layout)))).Agrees
      (.attempt (.stack args.length) (.hang (lined (args.map (·.layout))))
        (.newline ++ .step (lined (args.map (·.layout))))) :=
    Agrees.attempt_right _ blockEnds
  refine hh.byHead ?_ ?_ ?_
  · split
    · exact onLine hanging fun _ _ _ => rfl
    · exact hanging
  · split
    · exact onLine stacked agrees
    · exact stacked
  · split
    · split
      · exact agrees.attempt _
      · exact (spaced_agrees_lined _).attempt_left agrees
    · rw [if_neg (by omega)]
      exact agrees

/-- Both ways in which the broken form is arranged keep a layout coherent. -/
theorem operation {flat : Bool} {op : String} {broken : Layout → Layout → Layout}
    (hbroken : ∀ {x y : Layout}, x.Coherent → y.Coherent → (broken x y).Coherent)
    (hends : ∀ {x y : Layout}, x.EndsLine → (broken x y).EndsLine)
    (hl : left.Coherent) (hr : right.Coherent) :
    (Layout.operation flat left op right broken).Coherent := by
  have head := (hl.append space).append (text op)
  have breaking := hbroken (head.append newline) hr
  unfold Layout.operation
  split
  · refine attempt ((head.append space).depend hr) breaking (.of_endsLine _ ?_) fun _ => ?_
    · exact hends (.seq_right _ .newline)
    · exact (Inks.seq_right _ (.text (by decide))).depend_left _
  · exact breaking

end Coherent

end Layout

/-! ## Types -/

namespace Ty

/-- A type is its own and only arrow component, or there are several. -/
theorem arrows_single_or_several (t : Ty) : t.arrows = [t] ∨ 2 ≤ t.arrows.length := by
  cases t with
  | arrow arg result =>
    refine .inr ?_
    rw [arrows, List.length_cons]
    rcases result.arrows_single_or_several with single | several
    · simp [single]
    · omega
  | con | var | app | tuple | list | paren | quantified => exact .inl (by simp [arrows])

theorem chain_coherent (t : Ty) : t.chain.Coherent := by
  rcases t.arrows_single_or_several with single | several
  · rw [chain, single, List.map_singleton]
    exact .either (.text _) (Layout.run_stacked_single "-> " _)
  · have components : ∀ item ∈ t.arrows.map fun c => Layout.text c.inline, item.Coherent :=
      List.forall_mem_map.mpr fun c _ => .text c.inline
    refine .attempt (.text _) (.stacked components) (.of_endsLine _ (.stacked ?_)) nofun
    rwa [List.length_map]

theorem binderLine_coherent (binders : List String) : (binderLine binders).Coherent := by
  unfold binderLine
  split
  · exact .empty
  · exact (Layout.Coherent.text _).append .newline

theorem signatureLayout_coherent (t : Ty) : t.signatureLayout.Coherent := by
  unfold signatureLayout
  split
  · next binders body => exact (binderLine_coherent binders).append body.chain_coherent
  · next binders context body _ =>
    have implied := (Layout.Coherent.text "=> ").depend body.chain_coherent
    exact (((binderLine_coherent binders).append (.text _)).append .newline).append
      (implied.shift (-3))
  · exact t.chain_coherent

end Ty

/-! ## Forms -/

/-- An expression is coherent from whichever side it is looked at. -/
structure Forms.Coherent (forms : Forms) : Prop where
  whole : forms.whole.Coherent
  statement : forms.statement.Coherent
  head : forms.head.Coherent
  args : ∀ arg ∈ forms.args, arg.layout.Coherent

namespace Forms.Coherent

theorem uniform {l : Layout} (h : l.Coherent) : (Forms.uniform l).Coherent :=
  ⟨h, h, h, fun _ mem => absurd mem List.not_mem_nil⟩

theorem apply {func : Forms} {arg : Layout} {flat : Bool} (hf : func.Coherent)
    (ha : arg.Coherent) : (func.apply ⟨arg, flat⟩).Coherent := by
  have args : ∀ other ∈ func.args ++ [⟨arg, flat⟩], other.layout.Coherent := by
    rw [List.forall_mem_append, List.forall_mem_singleton]
    exact ⟨hf.args, ha⟩
  have whole : (func.apply ⟨arg, flat⟩).whole.Coherent := by
    rw [whole_apply]
    exact .application hf.head args
  exact ⟨whole, whole, hf.head, args_apply func _ ▸ args⟩

theorem ofOperation {flat : Bool} {left right : Layout} {op : String} (hl : left.Coherent)
    (hr : right.Coherent) : (Forms.ofOperation flat left op right).Coherent := by
  have whole : (Layout.operation flat left op right .seq).Coherent :=
    .operation (fun hx hy => hx.append hy) (fun hx => hx.seq_left _) hl hr
  have statement : (Layout.operation flat left op right .resume).Coherent :=
    .operation (fun hx hy => hx.resume hy) (fun hx => hx.resume _) hl hr
  exact ⟨whole, statement, whole, fun _ mem => absurd mem List.not_mem_nil⟩

end Forms.Coherent

/-! ## Trees -/

open Layout (Coherent)

mutual

/-- The layout of every expression is coherent. Only conditionals, collections, operators,
applications and attached bodies choose; all else passes on what its parts do. -/
theorem Expr.forms_coherent : (e : Expr) → e.forms.Coherent
  | .var _ | .con _ | .int _ | .frac _ | .char _ | .string _ | .varQuote _ | .typeQuote _ =>
      .uniform (.text _)
  | .wildcard => .uniform (.text _)
  | .app func arg => func.forms_coherent.apply arg.forms_coherent.whole
  | .binary left _ right => .ofOperation left.forms_coherent.whole right.forms_coherent.whole
  | .neg operand => .uniform ((Coherent.text "-").append operand.forms_coherent.whole)
  | .leftSection operand op =>
      .uniform ((Coherent.text "(").depend
        (((operand.forms_coherent.whole.append .space).append (.text _)).append (.text ")")))
  | .rightSection op operand =>
      .uniform ((((Coherent.text "(").append (.text _)).append .space).depend
        (operand.forms_coherent.whole.append (.text ")")))
  | .lambda params body =>
      .uniform ((Coherent.text "\\").depend
        ((Coherent.joined .space (Expr.layouts_coherent params)).append
          (.attach (body.forms_coherent.whole.shift 1))))
  | .tuple boxity items => by
      refine .uniform ?_
      split
      · exact .text _
      · exact .bracketed (Expr.layouts_coherent items)
  | .list items => by
      refine .uniform ?_
      split
      · exact .text _
      · exact .bracketedWhole (by decide) (Expr.layouts_coherent items)
  | .paren inner =>
      .uniform ((Coherent.text "(").depend (inner.forms_coherent.whole.append (.text ")")))
  | .cond condition yes no => by
      have hc := condition.forms_coherent.whole
      have hy := yes.forms_coherent.whole
      have hn := no.forms_coherent.whole
      have inline := (((((Coherent.text "if ").append hc).append (.text " then ")).append
        hy).append (.text " else ")).append hn
      have broken := (Coherent.text "if ").depend
        ((((hc.append .newline).append ((Coherent.text "then ").depend hy)).append
          .newline).append ((Coherent.text "else ").depend hn))
      refine .uniform (.attempt inline broken (.of_endsLine _ (.depend_right _ ?_)) fun _ => ?_)
      · exact (Layout.EndsLine.seq_right _ .newline).seq_left _
      · exact (Layout.Inks.seq_right _ (.text (by decide))).seq_left _
  | .caseOf scrutinee alts =>
      .uniform ((((Coherent.text "case ").depend scrutinee.forms_coherent.whole).append
        (.text " of")).append (.step (.underneath (Alt.layouts_coherent alts))))
  | .block stmts =>
      .uniform ((Coherent.text "do ").depend (.joined .newline (Stmt.layouts_coherent stmts)))
  | .letIn decls body =>
      .uniform ((((Coherent.text "let ").depend
        (.joined .newline (Decl.layouts_coherent decls))).append .newline).append
          ((Coherent.text "in ").depend body.forms_coherent.whole))
  | .record con fields =>
      .uniform (((Coherent.text con).append .space).append
        (.bracketed (Field.layouts_coherent fields)))
  | .update record fields =>
      .uniform ((record.forms_coherent.whole.append .space).append
        (.bracketed (Field.layouts_coherent fields)))
  | .annot expr _ =>
      .uniform ((expr.forms_coherent.whole.append (.text " :: ")).depend (.text _))

theorem Expr.layouts_coherent : (es : List Expr) → ∀ l ∈ Expr.layouts es, l.Coherent
  | [] => List.forall_mem_nil _
  | e :: rest => List.forall_mem_cons.mpr ⟨e.forms_coherent.whole, Expr.layouts_coherent rest⟩

theorem Rhs.layout_coherent (separator : String) : (r : Rhs) → (r.layout separator).Coherent
  | .plain body => .step (.attach body.forms_coherent.whole)
  | .guarded branches => .step (.underneath (Branch.layouts_coherent separator branches))

theorem Branch.layout_coherent (separator : String) :
    (b : Branch) → (b.layout separator).Coherent
  | .mk guards body => by
      have spaced : ∀ l ∈ (Expr.layouts guards).map (Layout.space ++ ·), l.Coherent :=
        List.forall_mem_map.mpr fun l mem =>
          Coherent.space.append (Expr.layouts_coherent guards l mem)
      have body : (Layout.attach separator body.isFlat (.shift 1 body.forms.whole)).Coherent :=
        .attach (body.forms_coherent.whole.shift 1)
      exact (Coherent.text "|").append (((Coherent.stacked spaced).append body).shift 1)

theorem Branch.layouts_coherent (separator : String) :
    (bs : List Branch) → ∀ l ∈ Branch.layouts separator bs, l.Coherent
  | [] => List.forall_mem_nil _
  | b :: rest => List.forall_mem_cons.mpr
      ⟨b.layout_coherent separator, Branch.layouts_coherent separator rest⟩

theorem Alt.layout_coherent : (a : Alt) → a.layout.Coherent
  | .mk pattern rhs => pattern.forms_coherent.whole.append (rhs.layout_coherent " -> ")

theorem Alt.layouts_coherent : (as : List Alt) → ∀ l ∈ Alt.layouts as, l.Coherent
  | [] => List.forall_mem_nil _
  | a :: rest => List.forall_mem_cons.mpr ⟨a.layout_coherent, Alt.layouts_coherent rest⟩

theorem Stmt.layout_coherent : (s : Stmt) → s.layout.Coherent
  | .bind pattern expr =>
      pattern.forms_coherent.whole.append (.step (.attach expr.forms_coherent.whole))
  | .expr expr => expr.forms_coherent.statement
  | .decls decls => (Coherent.text "let ").depend (.joined .newline (Decl.layouts_coherent decls))

theorem Stmt.layouts_coherent : (ss : List Stmt) → ∀ l ∈ Stmt.layouts ss, l.Coherent
  | [] => List.forall_mem_nil _
  | s :: rest => List.forall_mem_cons.mpr ⟨s.layout_coherent, Stmt.layouts_coherent rest⟩

theorem Decl.layout_coherent : (d : Decl) → d.layout.Coherent
  | .signature _ type => (Coherent.text _).depend type.signatureLayout_coherent
  | .function name params rhs =>
      ((Coherent.text name).append (.concat_space (Expr.layouts_coherent params))).append
        (rhs.layout_coherent " = ")
  | .pattern pattern rhs => pattern.forms_coherent.whole.append (rhs.layout_coherent " = ")

theorem Decl.layouts_coherent : (ds : List Decl) → ∀ l ∈ Decl.layouts ds, l.Coherent
  | [] => List.forall_mem_nil _
  | d :: rest => List.forall_mem_cons.mpr ⟨d.layout_coherent, Decl.layouts_coherent rest⟩

theorem Field.layout_coherent : (f : Field) → f.layout.Coherent
  | .mk name value => (Coherent.text name).append (.attach value.forms_coherent.whole)

theorem Field.layouts_coherent : (fs : List Field) → ∀ l ∈ Field.layouts fs, l.Coherent
  | [] => List.forall_mem_nil _
  | f :: rest => List.forall_mem_cons.mpr ⟨f.layout_coherent, Field.layouts_coherent rest⟩

end

end TrialLayout
