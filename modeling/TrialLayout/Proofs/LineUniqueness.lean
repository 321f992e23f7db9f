import TrialLayout.Proofs.Coherence
import TrialLayout.Proofs.Opening

/-!
# The one-line rendering of a tree is unique

Whatever trials and fallbacks lead to it, a rendering that stays on one line is always the same
line.

* `Layout.oneLine`: that line, read off a layout without thresholds and without a printer.
* `Layout.Begins`: a layout that starts with a text that is not empty, under the base at which
  it is run. At the start of a line this is what makes the pending indentation the base of the
  printer, and not the base of some inner part.
* `Layout.Coherent.run_eq_write`: where a coherent layout stays on the line, running it writes
  its line.

Result: `one_line_unique`.
-/

namespace TrialLayout

open Printer

/-! ## Definitions -/

namespace Layout

/-- The line of a layout: all trials are taken as kept, and every head as short. -/
def oneLine : Layout → String
  | text content => content
  | newline => ""
  | seq first second => first.oneLine ++ second.oneLine
  | shift _ body => body.oneLine
  | step body => body.oneLine
  | depend left right => left.oneLine ++ right.oneLine
  | attempt _ trial _ => trial.oneLine
  | byHead head short _ => head.oneLine ++ short.oneLine
  | hang body => " " ++ body.oneLine
  | resume first rest => first.oneLine ++ rest.oneLine

/-- The first thing that is written is not empty, and no inner base applies to it. -/
def Begins : Layout → Prop
  | text content => content ≠ ""
  | newline => False
  | seq first _ => first.Begins
  | shift .. => False
  | step _ => False
  | depend left _ => left.Begins
  | attempt _ trial _ => trial.Begins
  | byHead head _ _ => head.Begins
  | hang _ => True
  | resume first _ => first.Begins

end Layout

/-! ## Writing on a line -/

namespace Printer

/-- Inside a line the base does not matter for what is written on the line. -/
theorem write_under {p : Printer} {content : String} (inLine : p.atLineStart = false)
    (stays : (p.write content).line = p.line) (base : Nat) :
    ((p.setIndent base).write content).setIndent p.indent = p.write content := by
  rw [write_line] at stays
  have oneLine : '\n' ∉ content.toList := List.count_eq_zero.mp (by omega)
  rw [write_of_inLine (p := p.setIndent base) inLine oneLine, write_of_inLine inLine oneLine]
  rfl

theorem inLine_of_write {p : Printer} {content : String}
    (stays : (p.write content).line = p.line) (h : p.atLineStart = false ∨ content ≠ "") :
    (p.write content).atLineStart = false := by
  rw [write_line] at stays
  have oneLine : '\n' ∉ content.toList := List.count_eq_zero.mp (by omega)
  rcases h with inLine | nonempty
  · rw [write_of_inLine inLine oneLine]
    exact inLine
  · exact write_inLine p nonempty oneLine

end Printer

/-! ## Layouts -/

namespace Layout

theorem Begins.oneLine_ne_empty {l : Layout} (h : l.Begins) : l.oneLine ≠ "" := by
  induction l with
  | text content => exact h
  | newline | shift | step => exact h.elim
  | seq first second ih _ | depend first second ih _ | resume first second ih _ =>
    exact fun empty => ih h (String.append_eq_empty_iff.mp empty).1
  | attempt fit trial fallback ih _ => exact ih h
  | byHead head short long ih _ _ =>
    exact fun empty => ih h (String.append_eq_empty_iff.mp empty).1
  | hang body _ => exact fun empty => absurd (String.append_eq_empty_iff.mp empty).1 (by decide)

/-- What has been written on the line, if anything, has left the start of the line. -/
theorem inLine_of_run {first : Layout} {cfg : Config} {p : Printer}
    (written : first.run cfg p = p.write first.oneLine)
    (start : p.atLineStart = false ∨ first.Begins) (stays : first.Stays cfg p) :
    (first.run cfg p).atLineStart = false := by
  unfold Stays at stays
  rw [written] at stays ⊢
  exact inLine_of_write stays (start.imp_right Begins.oneLine_ne_empty)

/-- Inside a line a part writes the same line under every base. -/
theorem run_under {body : Layout} {cfg : Config} {p : Printer}
    (ih : ∀ q : Printer, q.atLineStart = false → body.Stays cfg q →
      body.run cfg q = q.write body.oneLine)
    (inLine : p.atLineStart = false) {base : Nat} (stays : body.Stays cfg (p.setIndent base)) :
    (body.run cfg (p.setIndent base)).setIndent p.indent = p.write body.oneLine := by
  have written := ih (p.setIndent base) inLine stays
  unfold Stays at stays
  rw [written, write_line] at stays
  rw [written]
  exact write_under inLine ((write_line p _).trans stays) base

/-- Where a coherent layout stays on the line, it writes its line. -/
theorem Coherent.run_eq_write {l : Layout} (h : l.Coherent) (cfg : Config) (p : Printer)
    (start : p.atLineStart = false ∨ l.Begins) (stays : l.Stays cfg p) :
    l.run cfg p = p.write l.oneLine := by
  -- inside the line the second alternative of `start` is not needed
  induction h generalizing p with
  | text content => rfl
  | newline => exact absurd stays (EndsLine.newline cfg p)
  | @seq first second _ _ ihf ihs =>
    obtain ⟨stays₁, stays₂⟩ := seq_stays.mp stays
    have head := ihf p start stays₁
    have inLine := inLine_of_run head start stays₁
    calc second.run cfg (first.run cfg p)
      _ = (first.run cfg p).write second.oneLine := ihs _ (.inl inLine) stays₂
      _ = p.write (first.oneLine ++ second.oneLine) := by rw [head, write_append]
  | shift delta _ ih =>
    rcases start with inLine | begins
    · exact run_under (fun q inLine => ih q (.inl inLine)) inLine stays
    · exact begins.elim
  | step _ ih =>
    rcases start with inLine | begins
    · exact run_under (fun q inLine => ih q (.inl inLine)) inLine stays
    · exact begins.elim
  | @depend left right _ _ ihl ihr =>
    obtain ⟨stays₁, stays₂⟩ := depend_stays.mp stays
    obtain ⟨base, based⟩ := dependBase_eq_setIndent p (left.run cfg p)
    rw [based] at stays₂
    have head := ihl p start stays₁
    have inLine := inLine_of_run head start stays₁
    rw [run_depend, based, run_under (fun q inLine => ihr q (.inl inLine)) inLine stays₂, head,
      ← write_append]
    rfl
  | attempt _ _ agrees _ iht _ =>
    unfold Stays at stays
    rw [run_attempt] at stays ⊢
    split
    · next accepted =>
      rw [if_pos accepted] at stays
      exact iht p start stays
    · next rejected =>
      rw [if_neg rejected] at stays
      rw [← agrees cfg p stays]
      exact iht p start (agrees.stays stays)
  | either _ same ih =>
    unfold Stays at stays
    rw [run_either same] at stays ⊢
    exact ih p start stays
  | @byHead head short long _ _ _ agrees ihh ihs _ =>
    obtain ⟨stays₁, stays₂⟩ := byHead_stays.mp stays
    have first := ihh p start stays₁
    have inLine := inLine_of_run first start stays₁
    -- also behind a long head what follows is what would follow a short one
    have followed : (Layout.byHead head short long).run cfg p = short.run cfg (head.run cfg p) ∧
        short.Stays cfg (head.run cfg p) := by
      rw [run_byHead]
      split at stays₂
      · next isShort => exact ⟨if_pos isShort, stays₂⟩
      · next isLong =>
        exact ⟨(if_neg isLong).trans (agrees cfg _ stays₂).symm, agrees.stays stays₂⟩
    rw [followed.1, ihs _ (.inl inLine) followed.2, first, ← write_append]
    rfl
  | @hang body _ ih =>
    have inLine : p.space.atLineStart = false := write_inLine p (by decide) (by decide)
    calc (Layout.hang body).run cfg p
      _ = p.space.write body.oneLine :=
        run_under (fun q inLine => ih q (.inl inLine)) inLine (hang_stays.mp stays)
      _ = p.write (" " ++ body.oneLine) := (write_append p " " body.oneLine).symm
  | @resume first rest _ _ ihf ihr =>
    obtain ⟨stays₁, stays₂⟩ := resume_stays.mp stays
    have head := ihf p start stays₁
    have inLine := inLine_of_run head start stays₁
    calc (Layout.resume first rest).run cfg p
      _ = (first.run cfg p).write rest.oneLine :=
        run_under (fun q inLine => ihr q (.inl inLine)) inLine stays₂
      _ = p.write (first.oneLine ++ rest.oneLine) := by rw [head, write_append]

end Layout

/-! ## Trees -/

/-- An expression begins, by itself and as the head of a spine. -/
structure Forms.Begins (forms : Forms) : Prop where
  whole : forms.whole.Begins
  head : forms.head.Begins

namespace Forms.Begins

theorem uniform {l : Layout} (h : l.Begins) : (Forms.uniform l).Begins := ⟨h, h⟩

theorem apply {func : Forms} (h : func.Begins) (arg : Layout.Argument) :
    (func.apply arg).Begins := by
  refine ⟨?_, h.head⟩
  rw [whole_apply]
  exact h.head

theorem ofOperation {flat : Bool} {left right : Layout} {op : String} (h : left.Begins) :
    (Forms.ofOperation flat left op right).Begins := by
  have begins : (Layout.operation flat left op right .seq).Begins := by
    unfold Layout.operation
    split
    · exact h
    · exact h
  exact ⟨begins, begins⟩

end Forms.Begins

/-- With names that are not empty, every expression begins with a text. -/
theorem Expr.forms_begin : (e : Expr) → e.EveryName (· ≠ "") → e.forms.Begins
  | .var _, h | .con _, h | .frac _, h => .uniform h
  | .int value, _ => by
      refine .uniform fun empty => ?_
      have head := Text.head_int_repr value
      rw [empty] at head
      exact absurd head (by decide)
  | .char value, _ => .uniform fun empty => by simp [Text.charLiteral] at empty
  | .string value, _ => .uniform fun empty => by simp [Text.stringLiteral] at empty
  | .varQuote _, _ | .typeQuote _, _ =>
      .uniform fun empty => absurd (String.append_eq_empty_iff.mp empty).1 (by decide)
  | .wildcard, _ => .uniform fun empty => absurd empty (by decide)
  | .app func _, h => (func.forms_begin h.1).apply _
  | .binary left _ _, h => .ofOperation (left.forms_begin h.1).whole
  | .neg _, _ | .leftSection .., _ | .rightSection .., _ | .lambda .., _ | .paren _, _
  | .cond .., _ | .caseOf .., _ | .block _, _ | .letIn .., _ =>
      .uniform fun empty => absurd empty (by decide)
  | .tuple boxity items, _ => by
      refine .uniform ?_
      split
      · cases boxity <;> exact fun empty => absurd empty (by decide)
      · cases boxity <;> exact fun empty => absurd empty (by decide)
  | .list items, _ => by
      refine .uniform ?_
      split
      · exact fun empty => absurd empty (by decide)
      · exact fun empty => absurd empty (by decide)
  | .record _ _, h => .uniform h.1
  | .update updated _, h => .uniform (updated.forms_begin h.1).whole
  | .annot expr _, h => .uniform (expr.forms_begin h.1).whole

theorem Decl.layout_begins {d : Decl} (h : d.EveryName (· ≠ "")) : d.layout.Begins := by
  cases d with
  | signature names type =>
    exact fun empty => absurd (String.append_eq_empty_iff.mp empty).2 (by decide)
  | function name params rhs => exact h.1
  | pattern pattern rhs => exact (pattern.forms_begin h.1).whole

/-! ## Main statement -/

/-- The line of an expression. -/
def Expr.oneLine (e : Expr) : String := e.layout.oneLine

/-- The line of a declaration. -/
def Decl.oneLine (d : Decl) : String := d.layout.oneLine

/-- Whatever the thresholds and wherever it is run, a layout that comes out on one line comes
out as `line` behind the pending indentation; so two such runs append the same text once the
pending indentation is removed. -/
def Layout.HasOneLine (l : Layout) (line : String) : Prop :=
  (∀ cfg p text, (l.run cfg p).output.toList = p.output.toList ++ text → '\n' ∉ text →
    text = p.pending ++ line.toList) ∧
  ∀ cfg cfg' p p' text text',
    (l.run cfg p).output.toList = p.output.toList ++ text → '\n' ∉ text →
    (l.run cfg' p').output.toList = p'.output.toList ++ text' → '\n' ∉ text' →
    text.drop p.pending.length = text'.drop p'.pending.length

theorem Layout.Coherent.hasOneLine {l : Layout} (h : l.Coherent) (begins : l.Begins) :
    l.HasOneLine l.oneLine := by
  have single : ∀ cfg p text, (l.run cfg p).output.toList = p.output.toList ++ text →
      '\n' ∉ text → text = p.pending ++ l.oneLine.toList := by
    intro cfg p text appended noNewline
    have stays : l.Stays cfg p := (stays_iff appended).mpr noNewline
    have written := h.run_eq_write cfg p (.inr begins) stays
    unfold Stays at stays
    rw [written, write_line] at stays
    have oneLine : '\n' ∉ l.oneLine.toList := List.count_eq_zero.mp (by omega)
    rw [written, write_settle p begins.oneLine_ne_empty oneLine,
      write_of_inLine p.settle_atLineStart oneLine] at appended
    have shape : p.settle.output.toList ++ l.oneLine.toList = p.output.toList ++ text := by
      rw [← appended, String.toList_append]
    rw [settle_output, List.append_assoc] at shape
    exact (List.append_cancel_left shape).symm
  refine ⟨single, ?_⟩
  intro cfg cfg' p p' text text' run oneLine run' oneLine'
  rw [single cfg p text run oneLine, single cfg' p' text' run' oneLine', List.drop_left,
    List.drop_left]

/-- The one-line rendering of a tree whose names are not empty is unique: it is a function of
the tree alone. -/
theorem one_line_unique :
    (∀ e : Expr, e.EveryName (· ≠ "") → e.layout.HasOneLine e.oneLine) ∧
    ∀ d : Decl, d.EveryName (· ≠ "") → d.layout.HasOneLine d.oneLine :=
  ⟨fun e h => e.forms_coherent.whole.hasOneLine (e.forms_begin h).whole,
    fun d h => d.layout_coherent.hasOneLine (Decl.layout_begins h)⟩

/-- The line of an operator between two names, and of a declaration that binds it. -/
theorem one_line_unique_operator :
    (Expr.binary (.var "a") (.symbol "+") (.var "b")).layout.HasOneLine "a + b" ∧
    (Decl.function "f" [.var "a"] (.plain (.neg (.var "a")))).layout.HasOneLine "f a = -a" := by
  have a : "a" ≠ "" := by decide
  have b : "b" ≠ "" := by decide
  have f : "f" ≠ "" := by decide
  have plus : "+" ≠ "" := by decide
  have line : (Expr.binary (.var "a") (.symbol "+") (.var "b")).oneLine = "a + b" := by
    decide +kernel
  have bound : (Decl.function "f" [.var "a"] (.plain (.neg (.var "a")))).oneLine = "f a = -a" := by
    decide +kernel
  exact ⟨line ▸ one_line_unique.1 _ ⟨a, plus, b⟩, bound ▸ one_line_unique.2 _ ⟨f, ⟨a, trivial⟩, a⟩⟩

end TrialLayout
