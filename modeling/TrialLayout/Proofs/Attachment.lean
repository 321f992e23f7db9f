import TrialLayout.Proofs.Closing
import TrialLayout.Proofs.Tokens

/-!
# Bodies behind their separators

A body is attached to a separator in bindings, alternatives, guarded branches, lambdas, statements
and record fields. A flat body is never measured before it is written: it follows its separator at
once, however narrow the thresholds are, and whatever breaks inside of it breaks later. Any other
body follows its separator exactly if the two together are small, and else begins on the next line.

* `Layout.LeadsWith tokens l`: run inside a line, `l` writes the first of the tokens before all
  else. No expression is broken before its first token (`Expr.forms_lead`).
* `Attachment`: the places where a body is attached, with what stands before the separator.

Result: `body_follows_separator`, for every printer.
-/

namespace TrialLayout

open Printer Text

/-! ## Definitions -/

/-- Run inside a line, the layout writes the first of the tokens before all else. -/
def Layout.LeadsWith (tokens : List Token) (l : Layout) : Prop :=
  ∃ token, tokens.head? = some token ∧ Plain token.text ∧
    ∀ cfg p, p.atLineStart = false →
      ∃ text, (l.run cfg p).output.toList = p.output.toList ++ (token.text.toList ++ text)

/-- A body behind its separator, by what it belongs to. A guarded branch belongs to a binding or to
an alternative. -/
inductive Attachment where
  | function (name : String) (params : List Expr) (body : Expr)
  | pattern (bound body : Expr)
  | alternative (matched body : Expr)
  | bindingBranch (guards : List Expr) (body : Expr)
  | alternativeBranch (guards : List Expr) (body : Expr)
  | lambda (params : List Expr) (body : Expr)
  | bind (bound body : Expr)
  | field (name : String) (body : Expr)

namespace Attachment

/-- The whole of it. -/
def layout : Attachment → Layout
  | function name params body => (Decl.function name params (.plain body)).layout
  | pattern bound body => (Decl.pattern bound (.plain body)).layout
  | alternative matched body => (Alt.mk matched (.plain body)).layout
  | bindingBranch guards body => (Branch.mk guards body).layout " = "
  | alternativeBranch guards body => (Branch.mk guards body).layout " -> "
  | lambda params body => (Expr.lambda params body).layout
  | bind bound body => (Stmt.bind bound body).layout
  | field name body => (Field.mk name body).layout

/-- The guards of a branch, behind their bar. -/
def guardsLayout (guards : List Expr) : Layout :=
  .text "|" ++ .shift 1 (.stacked "," ((Expr.layouts guards).map (.space ++ ·)))

/-- What stands before the separator. -/
def front : Attachment → Layout
  | function name params _ =>
      .text name ++ .concat ((Expr.layouts params).map (.space ++ ·))
  | pattern before _ | alternative before _ | bind before _ => before.layout
  | bindingBranch guards _ | alternativeBranch guards _ => guardsLayout guards
  | lambda params _ => .depend (.text "\\") (.spaced (Expr.layouts params))
  | field name _ => .text name

def separator : Attachment → String
  | function .. | pattern .. | bindingBranch .. | field .. => " = "
  | alternative .. | alternativeBranch .. | lambda .. => " -> "
  | bind .. => " <- "

def body : Attachment → Expr
  | function _ _ body | pattern _ body | alternative _ body | bindingBranch _ body
  | alternativeBranch _ body | lambda _ body | bind _ body | field _ body => body

/-- The body as it is laid out behind the separator: in branches and lambdas one column inside the
base. -/
def bodyLayout : Attachment → Layout
  | bindingBranch _ body | alternativeBranch _ body | lambda _ body => .shift 1 body.layout
  | function _ _ body | pattern _ body | alternative _ body | bind _ body | field _ body =>
      body.layout

/-- Every name satisfies `P`. -/
def EveryName (P : String → Prop) : Attachment → Prop
  | function name params body => (Decl.function name params (.plain body)).EveryName P
  | pattern bound body => (Decl.pattern bound (.plain body)).EveryName P
  | alternative matched body => (Alt.mk matched (.plain body)).EveryName P
  | bindingBranch guards body | alternativeBranch guards body =>
      (Branch.mk guards body).EveryName P
  | lambda params body => (Expr.lambda params body).EveryName P
  | bind bound body => (Stmt.bind bound body).EveryName P
  | field name body => (Field.mk name body).EveryName P

/-- The separator and the body under the column behind it. -/
def together (a : Attachment) : Layout := .depend (.text a.separator) a.bodyLayout

/-- Right behind the front and the separator stands `text`. -/
def Continues (a : Attachment) (cfg : Config) (p : Printer) (text : List Char) : Prop :=
  ∃ more, (a.layout.run cfg p).output.toList =
    (a.front.run cfg p).output.toList ++ a.separator.toList ++ (text ++ more)

end Attachment

/-! ## What layouts lead with -/

namespace Layout.LeadsWith

variable {tokens : List Token} {l left right : Layout}

/-- Only the first token matters. -/
theorem append (h : l.LeadsWith tokens) (more : List Token) : l.LeadsWith (tokens ++ more) := by
  obtain ⟨token, first, begins⟩ := h
  exact ⟨token, by rw [List.head?_append, first]; rfl, begins⟩

/-- What comes later is appended. -/
theorem later (h : l.LeadsWith tokens) {m : Layout}
    (appends : ∀ cfg p, ∃ text, (m.run cfg p).output.toList = (l.run cfg p).output.toList ++ text) :
    m.LeadsWith tokens := by
  obtain ⟨token, first, plain, begins⟩ := h
  refine ⟨token, first, plain, fun cfg p inLine => ?_⟩
  obtain ⟨text, written⟩ := begins cfg p inLine
  obtain ⟨more, appended⟩ := appends cfg p
  exact ⟨text ++ more, by rw [appended, written, List.append_assoc, List.append_assoc]⟩

theorem text {content : String} {token : Token} {more : List Token} (plain : Plain token.text)
    (oneLine : OneLine content) (leads : token.text.toList <+: content.toList) :
    (Layout.text content).LeadsWith (token :: more) := by
  refine ⟨token, rfl, plain, fun cfg p inLine => ?_⟩
  obtain ⟨rest, shape⟩ := leads
  exact ⟨rest, by rw [run, write_of_inLine inLine oneLine, String.toList_append, shape]⟩

theorem word {content : String} (plain : Plain content) (more : List Token) :
    (Layout.text content).LeadsWith (.word content :: more) :=
  text plain plain.2 (List.prefix_refl _)

theorem seq (hl : left.LeadsWith tokens) (right : Layout) : (left ++ right).LeadsWith tokens :=
  hl.later fun cfg p => right.run_appends cfg (left.run cfg p)

theorem shift (delta : Int) (h : l.LeadsWith tokens) : (Layout.shift delta l).LeadsWith tokens := by
  obtain ⟨token, first, plain, begins⟩ := h
  exact ⟨token, first, plain, fun cfg p => begins cfg (p.setIndent (shifted p.indent delta))⟩

theorem depend (hl : left.LeadsWith tokens) (right : Layout) :
    (Layout.depend left right).LeadsWith tokens := by
  refine hl.later fun cfg p => ?_
  obtain ⟨base, based⟩ := dependBase_eq_setIndent p (left.run cfg p)
  rw [run_depend, based]
  exact right.run_appends cfg ((left.run cfg p).setIndent base)

theorem attempt (fit : Fit) (ht : left.LeadsWith tokens) (hf : right.LeadsWith tokens) :
    (Layout.attempt fit left right).LeadsWith tokens := by
  obtain ⟨token, first, plain, kept⟩ := ht
  obtain ⟨token', first', -, fallback⟩ := hf
  obtain rfl : token = token' := Option.some.inj (first.symm.trans first')
  refine ⟨token, first, plain, fun cfg p inLine => ?_⟩
  rw [run_attempt]
  split
  · exact kept cfg p inLine
  · exact fallback cfg p inLine

theorem byHead {head : Layout} (hh : head.LeadsWith tokens) (short long : Layout) :
    (Layout.byHead head short long).LeadsWith tokens := by
  refine hh.later fun cfg p => ?_
  rw [run_byHead]
  split
  · exact short.run_appends cfg (head.run cfg p)
  · exact long.run_appends cfg (head.run cfg p)

/-- The left operand is written first, whether the operation is broken or not. -/
theorem operation {flat : Bool} {op : String} (hl : left.LeadsWith tokens) :
    (Layout.operation flat left op right .seq).LeadsWith tokens := by
  have leading := (hl.seq space).seq (.text op)
  unfold Layout.operation
  split
  · exact ((leading.seq space).depend right).attempt _ ((leading.seq newline).seq right)
  · exact (leading.seq newline).seq right

end Layout.LeadsWith

open Layout (LeadsWith)

/-! ## What expressions lead with -/

/-- An expression leads with its first token, by itself and as the head of an application. -/
structure Forms.LeadsWith (tokens : List Token) (forms : Forms) : Prop where
  whole : forms.whole.LeadsWith tokens
  head : forms.head.LeadsWith tokens

namespace Forms.LeadsWith

variable {tokens : List Token}

theorem uniform {l : Layout} (h : l.LeadsWith tokens) : (Forms.uniform l).LeadsWith tokens := ⟨h, h⟩

theorem apply {func : Forms} (h : func.LeadsWith tokens) (arg : Layout.Argument)
    (more : List Token) : (func.apply arg).LeadsWith (tokens ++ more) := by
  refine ⟨?_, h.head.append more⟩
  rw [whole_apply]
  exact (h.head.byHead _ _).append more

theorem ofOperation {flat : Bool} {left right : Layout} {op : String} (h : left.LeadsWith tokens) :
    (Forms.ofOperation flat left op right).LeadsWith tokens :=
  ⟨.operation h, .operation h⟩

end Forms.LeadsWith

/-- Every expression leads with its first token. The recursion goes down the leading parts. -/
theorem Expr.forms_lead : (e : Expr) → e.EveryName Plain → e.forms.LeadsWith e.tokens
  | .var _, h | .con _, h | .frac _, h => .uniform (.word h _)
  | .int value, _ => by
      have leads : Leads (· ≠ '\n') value.repr :=
        .of_head (fun _ _ hc => hc) (int_repr_oneLine value) (head_int_repr value)
      exact .uniform (.word ⟨leads.ne_empty, leads.1⟩ _)
  | .char value, _ => .uniform (.word ⟨by simp [charLiteral], charLiteral_oneLine value⟩ _)
  | .string value, _ => .uniform (.word ⟨by simp [stringLiteral], stringLiteral_oneLine value⟩ _)
  | .varQuote name, h =>
      .uniform (.text (show Plain "'" by decide) (.append (by decide) h.2) (by simp [Token.text]))
  | .typeQuote name, h =>
      .uniform (.text (show Plain "''" by decide) (.append (by decide) h.2) (by simp [Token.text]))
  | .wildcard, _ => .uniform (.word (by decide) _)
  | .app func _, h => (func.forms_lead h.1).apply _ _
  | .binary left _ _, h => .ofOperation (((left.forms_lead h.1).whole.append _).append _)
  | .neg _, _ => .uniform ((LeadsWith.text (by decide) (by decide) (by decide)).seq _)
  | .leftSection .., _ | .paren _, _ | .lambda .., _ | .block _, _ =>
      .uniform ((LeadsWith.text (by decide) (by decide) (by decide)).depend _)
  | .rightSection .., _ =>
      .uniform ((((LeadsWith.text (by decide) (by decide) (by decide)).seq _).seq _).depend _)
  | .tuple boxity items, _ => by
      refine .uniform ?_
      split
      · cases boxity <;> exact .text (by decide) (by decide) (by decide)
      · cases boxity <;> exact (LeadsWith.text (by decide) (by decide) (by decide)).depend _
  | .list items, _ => by
      refine .uniform ?_
      have bracket : (Layout.text "[").LeadsWith (Expr.list items).tokens :=
        .text (by decide) (by decide) (by decide)
      split
      · exact .text (by decide) (by decide) (by decide)
      · exact (bracket.depend _).attempt _ (bracket.depend _)
  | .cond condition yes no, _ => by
      have ifs : (Layout.text "if ").LeadsWith (Expr.cond condition yes no).tokens :=
        .text (by decide) (by decide) (by decide)
      exact .uniform ((((((ifs.seq _).seq _).seq _).seq _).seq _).attempt _ (ifs.depend _))
  | .caseOf .., _ =>
      .uniform ((((LeadsWith.text (by decide) (by decide) (by decide)).depend _).seq _).seq _)
  | .letIn .., _ =>
      .uniform ((((LeadsWith.text (by decide) (by decide) (by decide)).depend _).seq _).seq _)
  | .record _ _, h => .uniform (((LeadsWith.word h.1 _).seq _).seq _)
  | .update updated _, h =>
      .uniform ((((updated.forms_lead h.1).whole.append _).seq _).seq _)
  | .annot expr _, h => .uniform ((((expr.forms_lead h.1).whole.append _).seq _).depend _)

/-! ## Attached bodies -/

/-- Inside a line, the base does not matter for a part that depends on a text. -/
theorem Layout.depend_text_setIndent {separator : String} (plain : Plain separator)
    (body : Layout) {cfg : Config} {q : Printer} (inLine : q.atLineStart = false) (base : Nat) :
    (depend (text separator) body).run cfg (q.setIndent base) =
      ((depend (text separator) body).run cfg q).setIndent base := by
  have inLine' : (q.setIndent base).atLineStart = false := inLine
  rw [run_depend, run_depend, run, run, dependBase_write (.of_inLine inLine') plain.1 plain.2,
    dependBase_write (.of_inLine inLine) plain.1 plain.2, effectiveColumn, effectiveColumn, inLine,
    inLine', write_of_inLine inLine plain.2, write_of_inLine inLine' plain.2]
  rfl

namespace Attachment

variable {a : Attachment}

theorem separator_plain (a : Attachment) : Plain a.separator := by
  cases a with
  | function | pattern | bindingBranch | field => exact (by decide : Plain " = ")
  | alternative | alternativeBranch | lambda => exact (by decide : Plain " -> ")
  | bind => exact (by decide : Plain " <- ")

theorem bodyLayout_leads (names : a.EveryName Plain) : a.bodyLayout.LeadsWith a.body.tokens := by
  have body : a.body.layout.LeadsWith a.body.tokens := by
    cases a with
    | function _ _ body => exact (body.forms_lead names.2.2).whole
    | pattern _ body | alternative _ body | bindingBranch _ body | alternativeBranch _ body
    | lambda _ body | bind _ body | field _ body => exact (body.forms_lead names.2).whole
  cases a with
  | bindingBranch | alternativeBranch | lambda => exact body.shift 1
  | function | pattern | alternative | bind | field => exact body

theorem guardsLayout_closes {guards : List Expr} (names : Expr.EveryNameIn Plain guards) :
    (guardsLayout guards).Closes .inLine false := by
  refine (Layout.Closes.mark (by decide) (by decide)).seq (.shift 1 ?_)
  cases guards with
  | nil => exact .text_inside (by decide)
  | cons first rest =>
    refine .stacked (by simp [Expr.layouts]) (List.forall_mem_map.mpr fun item mem => ?_)
    exact .seq_right _ (Expr.layouts_close_plain names item mem)

/-- What stands before the separator ends inside a line. -/
theorem front_closes (names : a.EveryName Plain) : a.front.Closes .inLine false := by
  cases a with
  | function name params body =>
    exact (Layout.Closes.text (names.1.carries fun _ => trivial)).seq
      (.concat_map _ (Expr.layouts_close_plain names.2.1))
  | pattern before | alternative before | bind before =>
    exact (Expr.forms_close_plain names.1).whole
  | bindingBranch guards | alternativeBranch guards => exact guardsLayout_closes names.1
  | lambda params body =>
    refine (Layout.Closes.mark (by decide) (by decide)).depend ?_
    cases params with
    | nil => exact .text_inside (by decide)
    | cons first rest => exact .joined _ (by simp [Expr.layouts]) (Expr.layouts_close_plain names.1)
  | field name body => exact .text (names.1.carries fun _ => trivial)

/-- The body is attached where the front ends, under some base. -/
theorem run_output (a : Attachment) (cfg : Config) (p : Printer) :
    ∃ base, (a.layout.run cfg p).output =
      ((Layout.attach a.separator a.body.isFlat a.bodyLayout).run cfg
        ((a.front.run cfg p).setIndent base)).output := by
  cases a with
  | function | pattern | alternative | bind | bindingBranch | alternativeBranch | field =>
    exact ⟨_, rfl⟩
  | lambda params body =>
    -- the base of the parameters is the column behind the backslash
    refine ⟨((Layout.spaced (Expr.layouts params)).run cfg
      (p.dependBase (p.write "\\"))).indent, ?_⟩
    show ((Layout.depend _ _).run cfg p).output =
      (Layout.run cfg _ (((Layout.depend _ _).run cfg p).setIndent _)).output
    rw [Layout.run_depend, Layout.run_depend]
    rfl

/-- Whether separator and body are small does not depend on the base under which they are
tried. -/
theorem accepts_together_iff (a : Attachment) (cfg : Config) {q : Printer}
    (inLine : q.atLineStart = false) (base : Nat) :
    Fit.small.accepts cfg ((q.setIndent base).trial (a.together.run cfg)) = true ↔
      a.together.Stays cfg q ∧ (a.together.run cfg q).column < cfg.smallColumnLimit := by
  rw [Layout.accepts_small_iff, Layout.Stays, together,
    Layout.depend_text_setIndent a.separator_plain _ inLine]
  exact Iff.rfl

/-- Where separator and body are kept together, the first token of the body follows. -/
theorem continues_token (names : a.EveryName Plain) {token : Token}
    (first : a.body.tokens.head? = some token) {cfg : Config} {p : Printer} {base : Nat}
    (kept : (a.layout.run cfg p).output =
      (a.together.run cfg ((a.front.run cfg p).setIndent base)).output) :
    a.Continues cfg p token.text.toList := by
  obtain ⟨token', first', -, begins⟩ := a.bodyLayout_leads names
  obtain rfl : token = token' := Option.some.inj (first.symm.trans first')
  have inLine : ((a.front.run cfg p).setIndent base).atLineStart = false :=
    front_closes names cfg p nofun
  obtain ⟨r, inside, -, -, written, same⟩ :=
    Layout.depend_text_run a.separator_plain.leads a.bodyLayout cfg (.of_inLine inLine)
  obtain ⟨text, appended⟩ := begins cfg r inside
  refine ⟨text, ?_⟩
  rw [kept, together, same, appended, written, pending, inLine]
  simp [setIndent]

/-- Where they are not, the line ends behind the separator. -/
theorem continues_newline (names : a.EveryName Plain) {cfg : Config} {p : Printer} {base : Nat}
    (broken : (a.layout.run cfg p).output =
      ((Layout.text a.separator ++ .newline ++ a.bodyLayout).run cfg
        ((a.front.run cfg p).setIndent base)).output) :
    a.Continues cfg p ['\n'] := by
  have inLine : ((a.front.run cfg p).setIndent base).atLineStart = false :=
    front_closes names cfg p nofun
  obtain ⟨text, appended⟩ := a.bodyLayout.run_appends cfg
    (((a.front.run cfg p).setIndent base).write a.separator).newline
  refine ⟨text, ?_⟩
  rw [broken]
  refine appended.trans ?_
  rw [write_of_inLine inLine a.separator_plain.2]
  simp [Printer.newline, setIndent]

/-- A flat body is not measured. -/
theorem continues_of_flat (names : a.EveryName Plain) (flat : a.body.isFlat = true) {token : Token}
    (first : a.body.tokens.head? = some token) (cfg : Config) (p : Printer) :
    a.Continues cfg p token.text.toList := by
  obtain ⟨base, output⟩ := a.run_output cfg p
  rw [flat] at output
  exact a.continues_token names first output

/-- Any other body is kept behind the separator if the two are small, and begins on the next line
if they are not. -/
theorem continues_of_not_flat (names : a.EveryName Plain) (flat : a.body.isFlat = false)
    {token : Token} (first : a.body.tokens.head? = some token) (cfg : Config) (p : Printer) :
    let q := a.front.run cfg p
    let small := a.together.Stays cfg q ∧ (a.together.run cfg q).column < cfg.smallColumnLimit
    small ∧ a.Continues cfg p token.text.toList ∨ ¬small ∧ a.Continues cfg p ['\n'] := by
  intro q small
  have inLine : q.atLineStart = false := front_closes names cfg p nofun
  obtain ⟨base, output⟩ := a.run_output cfg p
  rw [flat, Layout.attach, if_neg (by decide), Layout.run_attempt] at output
  have measured := a.accepts_together_iff cfg inLine base
  split at output
  · next kept => exact .inl ⟨measured.mp kept, a.continues_token names first output⟩
  · next dropped =>
    exact .inr ⟨fun small => dropped (measured.mpr small), a.continues_newline names output⟩

/-- The line does not end where a token stands. -/
theorem Continues.not_newline {cfg : Config} {p : Printer} {content : String}
    (h : a.Continues cfg p content.toList) (plain : Plain content) :
    ¬a.Continues cfg p ['\n'] := by
  rintro ⟨more, breaks⟩
  obtain ⟨text, follows⟩ := h
  have same : content.toList ++ text = '\n' :: more :=
    List.append_cancel_left (follows.symm.trans breaks)
  obtain ⟨-, c, rest, shape, other⟩ := plain.leads
  rw [shape, List.cons_append, List.cons.injEq] at same
  exact other same.1

end Attachment

/-! ## Main statement -/

/-- Under all thresholds and from every printer, a flat body follows its separator at once: right
behind the separator stands the first token of the body, on the line on which the front ended. Any
other body does so exactly if separator and body, the body under the column behind the separator,
take one line that ends before the small column limit; else the line ends behind the separator. -/
theorem body_follows_separator {a : Attachment} (names : a.EveryName Plain) (cfg : Config)
    (p : Printer) :
    let q := a.front.run cfg p
    q.atLineStart = false ∧ ∃ token, a.body.tokens.head? = some token ∧ Plain token.text ∧
      (a.body.isFlat = true → a.Continues cfg p token.text.toList) ∧
      (a.body.isFlat = false →
        (a.Continues cfg p token.text.toList ↔
          a.together.Stays cfg q ∧ (a.together.run cfg q).column < cfg.smallColumnLimit) ∧
        (a.Continues cfg p token.text.toList ∨ a.Continues cfg p ['\n'])) := by
  intro q
  have inLine : q.atLineStart = false := Attachment.front_closes names cfg p nofun
  obtain ⟨token, first, plain, -⟩ := a.bodyLayout_leads names
  refine ⟨inLine, token, first, plain, fun flat => a.continues_of_flat names flat first cfg p,
    fun flat => ?_⟩
  obtain ⟨small, follows⟩ | ⟨large, breaks⟩ := a.continues_of_not_flat names flat first cfg p
  · exact ⟨iff_of_true follows small, .inl follows⟩
  · exact ⟨iff_of_false (fun follows => follows.not_newline plain breaks) large, .inr breaks⟩

/-- A binding of a sum to a function. -/
def sumBinding : Attachment :=
  .function "f" [.var "x"] (.binary (.var "x") (.symbol "+") (.var "y"))

/-- A lambda that makes a pair. -/
def pairLambda : Attachment := .lambda [.var "x"] (.tuple .boxed [.var "x", .var "y"])

/-- With thresholds that nothing fits in, the sum is broken behind its operator and not before its
first operand. The lambda takes twelve columns: its pair follows the arrow below a small limit of
thirteen, and not below one of twelve. -/
theorem body_follows_separator_pair :
    sumBinding.Continues ⟨0, 0, 0, 0, 0⟩ .start "x".toList ∧
      (sumBinding.layout.run ⟨0, 0, 0, 0, 0⟩ .start).output = "f x = x +\n      y" ∧
      pairLambda.Continues { smallColumnLimit := 13 } .start "(".toList ∧
      pairLambda.Continues { smallColumnLimit := 12 } .start ['\n'] := by
  have f : Plain "f" := by decide
  have x : Plain "x" := by decide
  have y : Plain "y" := by decide
  have plus : Plain "+" := by decide
  have sum : sumBinding.EveryName Plain := ⟨f, ⟨x, trivial⟩, x, plus, y⟩
  have pair : pairLambda.EveryName Plain := ⟨⟨x, trivial⟩, x, y, trivial⟩
  obtain ⟨-, _, ⟨⟩, -, follows, -⟩ := body_follows_separator sum ⟨0, 0, 0, 0, 0⟩ .start
  obtain ⟨-, _, ⟨⟩, -, -, kept⟩ := body_follows_separator pair { smallColumnLimit := 13 } .start
  obtain ⟨-, _, ⟨⟩, -, -, broken⟩ := body_follows_separator pair { smallColumnLimit := 12 } .start
  obtain ⟨large, either⟩ := broken rfl
  refine ⟨follows rfl, by decide +kernel, (kept rfl).1.mpr ⟨by decide +kernel, by decide +kernel⟩,
    either.resolve_left fun onLine => ?_⟩
  exact absurd (large.mp onLine).2 (by decide +kernel)

end TrialLayout
