import TrialLayout.Proofs.Arguments
import TrialLayout.Proofs.Attachment
import TrialLayout.Proofs.DeclOffside
import TrialLayout.Proofs.FlatLine
import TrialLayout.Proofs.LeftFloor
import TrialLayout.Proofs.LineLimit
import TrialLayout.Proofs.OnDemand
import TrialLayout.Proofs.Representation
import TrialLayout.Proofs.SignatureRows

/-!
# Trees behind handles

What is proved of the layout of a tree holds of every handle that holds the tree: rendering the
handle on demand is running that layout (`Render.Runs`). In an acyclic forest whose references are
in bounds every handle holds a tree (`Forest.exists_expr`, `Forest.exists_decl`,
`Forest.exists_module`).

The results about layouts are carried over to handles here: tokens, lines that do not break,
arguments, signatures, bodies behind their separators, the offside rule and the floor. What they
say of the printer that a run leads to they now say of the printer that rendering returns, and
that it returns one is part of each result.
-/

namespace TrialLayout

open Printer Text

/-! ## Definitions -/

/-- Under all thresholds and from every printer, rendering on demand is running the layout. -/
def Render.Runs (render : Config → Render) (l : Layout) : Prop :=
  ∀ cfg p, render cfg p = .ok (l.run cfg p)

/-- Rendering appends a text woven of the tokens. -/
def Render.KeepsTokens (render : Config → Render) (tokens : List Token) : Prop :=
  ∀ cfg p, ∃ q text, render cfg p = .ok q ∧ q.output.toList = p.output.toList ++ text ∧
    Woven true tokens text false

/-- A rendering on one line stays the same if the column limit is raised, or lowered to one that
the line still fits in. -/
def Render.StableOnLine (render : Config → Render) : Prop :=
  ∀ cfg cfg' : Config, cfg' = { cfg with columnLimit := cfg'.columnLimit } →
    ∀ (p : Printer) (text : List Char), ∃ q, render cfg p = .ok q ∧
      (q.output.toList = p.output.toList ++ text → '\n' ∉ text →
        cfg.columnLimit ≤ cfg'.columnLimit ∨ q.column ≤ cfg'.columnLimit →
          render cfg' p = .ok q)

/-- A rendering on one line is `line`, behind the pending indentation. -/
def Render.HasOneLine (render : Config → Render) (line : String) : Prop :=
  ∀ cfg p, ∃ q, render cfg p = .ok q ∧ ∀ text, q.output.toList = p.output.toList ++ text →
    '\n' ∉ text → text = p.pending ++ line.toList

namespace Forest

/-- The places of a forest where a body is attached, with what renders them. -/
inductive Attaches (f : Forest) : Attachment → (Config → Render) → Prop
  | function {node : DeclNode} {name : String} {params : List Expr} {body : Expr} :
      f.readDecl node = .ok (.function name params (.plain body)) →
      Attaches f (.function name params body) (f.renderDecl · node)
  | pattern {node : DeclNode} {bound body : Expr} :
      f.readDecl node = .ok (.pattern bound (.plain body)) →
      Attaches f (.pattern bound body) (f.renderDecl · node)
  | alternative {node : AltNode} {matched body : Expr} :
      f.readAlt f.readExpr node = .ok (.mk matched (.plain body)) →
      Attaches f (.alternative matched body) fun cfg => f.renderAlt cfg (f.renderExpr cfg) node
  | bindingBranch {node : BranchNode} {guards : List Expr} {body : Expr} :
      f.readBranch f.readExpr node = .ok (.mk guards body) →
      Attaches f (.bindingBranch guards body) fun cfg =>
        f.renderBranch cfg (f.renderExpr cfg) " = " node
  | alternativeBranch {node : BranchNode} {guards : List Expr} {body : Expr} :
      f.readBranch f.readExpr node = .ok (.mk guards body) →
      Attaches f (.alternativeBranch guards body) fun cfg =>
        f.renderBranch cfg (f.renderExpr cfg) " -> " node
  | lambda {id : ExprId} {params : List Expr} {body : Expr} :
      f.readExpr id = .ok (.lambda params body) →
      Attaches f (.lambda params body) (f.renderExpr · id)
  | bind {node : StmtNode} {bound body : Expr} :
      f.readStmt f.readExpr node = .ok (.bind bound body) →
      Attaches f (.bind bound body) fun cfg => f.renderStmt cfg (f.renderExpr cfg) node
  | field {node : FieldNode} {name : String} {body : Expr} :
      f.readField f.readExpr node = .ok (.mk name body) →
      Attaches f (.field name body) fun cfg => f.renderField cfg (f.renderExpr cfg) node

end Forest

/-! ## Renderings that run a layout -/

namespace Render.Runs

variable {render : Config → Render} {l : Layout}

theorem of_draws {x : Except ReadError Layout} {P : Prop}
    (draws : ∀ cfg, Draws cfg (render cfg) x P) (laid : x = .ok l) : Runs render l := by
  intro cfg p
  rw [(draws cfg).same, laid]
  rfl

theorem eq_run (runs : Runs render l) {cfg : Config} {p q : Printer} (done : render cfg p = .ok q) :
    q = l.run cfg p := Except.ok.inj (done.symm.trans (runs cfg p))

theorem keepsTokens (runs : Runs render l) {tokens : List Token} (keeps : l.KeepsTokens tokens) :
    KeepsTokens render tokens := by
  intro cfg p
  obtain ⟨text, appended, woven⟩ := keeps.1 cfg p
  exact ⟨_, text, runs cfg p, appended, woven⟩

theorem stableOnLine (runs : Runs render l) (stable : l.StableOnLine) : StableOnLine render := by
  intro cfg cfg' differ p text
  refine ⟨_, runs cfg p, fun appended oneLine bound => ?_⟩
  rw [runs cfg' p, stable cfg cfg' differ p text appended oneLine bound]

theorem hasOneLine (runs : Runs render l) {line : String} (single : l.HasOneLine line) :
    HasOneLine render line :=
  fun cfg p => ⟨_, runs cfg p, single.1 cfg p⟩

end Render.Runs

namespace Forest

variable {f : Forest} (acyclic : f.arena.Acyclic)

include acyclic

/-! ## Handles -/

theorem renderExpr_runs {id : ExprId} {e : Expr} (held : f.readExpr id = .ok e) :
    Render.Runs (f.renderExpr · id) e.layout :=
  .of_draws (fun _ => renderExpr_draws acyclic id) (f.exprLayout_shows held)

theorem renderDecl_runs {node : DeclNode} {d : Decl} (held : f.readDecl node = .ok d) :
    Render.Runs (f.renderDecl · node) d.layout :=
  .of_draws (fun _ => renderDecl_draws acyclic node) (f.declLayout_shows held)

theorem renderModule_runs {s : Span .decls} {m : Module} (held : f.readModule s = .ok m) :
    Render.Runs (f.renderModule · s) m.layout :=
  .of_draws (fun _ => renderModule_draws acyclic s) (f.moduleLayout_shows held)

theorem renderAlt_runs {node : AltNode} {a : Alt} (held : f.readAlt f.readExpr node = .ok a) :
    Render.Runs (fun cfg => f.renderAlt cfg (f.renderExpr cfg) node) a.layout :=
  .of_draws (fun _ => renderAlt_draws acyclic node fun r _ => renderExpr_drawn acyclic r)
    (f.follows.alt held)

/-- In a forest whose references are in bounds, every expression is the layout of a tree. -/
theorem exists_expr (bounds : f.arena.InBounds) {id : ExprId} (holds : f.arena.Holds id) :
    ∃ e, f.readExpr id = .ok e ∧ Render.Runs (f.renderExpr · id) e.layout := by
  obtain ⟨e, held⟩ := readExpr_succeeds bounds acyclic holds
  exact ⟨e, held, renderExpr_runs acyclic held⟩

theorem exists_decl (bounds : f.arena.InBounds) {node : DeclNode}
    (holds : ∀ r ∈ node.refs, f.arena.Holds r) :
    ∃ d, f.readDecl node = .ok d ∧ Render.Runs (f.renderDecl · node) d.layout := by
  obtain ⟨d, held⟩ : Succeeds (f.readDecl node) :=
    readDeclNode_succeeds fun r mem => ready_of_holds bounds acyclic (holds r mem)
  exact ⟨d, held, renderDecl_runs acyclic held⟩

theorem exists_module (bounds : f.arena.InBounds) {s : Span .decls} (holds : f.arena.Holds s) :
    ∃ m, f.readModule s = .ok m ∧ Render.Runs (f.renderModule · s) m.layout := by
  obtain ⟨m, held⟩ := readModule_succeeds bounds acyclic holds
  exact ⟨m, held, renderModule_runs acyclic held⟩

/-! ## Tokens and lines -/

/-- No handle loses, duplicates, reorders or splits a token of the tree that it holds. -/
theorem handles_keep_tokens :
    (∀ {id : ExprId} {e : Expr}, f.readExpr id = .ok e → e.EveryName OneLine →
      Render.KeepsTokens (f.renderExpr · id) e.tokens) ∧
    (∀ {node : DeclNode} {d : Decl}, f.readDecl node = .ok d → d.EveryName OneLine →
      Render.KeepsTokens (f.renderDecl · node) d.tokens) ∧
    ∀ {s : Span .decls} {m : Module}, f.readModule s = .ok m → Decl.EveryNameIn OneLine m →
      Render.KeepsTokens (f.renderModule · s) m.tokens :=
  ⟨fun {_ e} held names =>
      (renderExpr_runs acyclic held).keepsTokens (e.forms_weave names).whole.keepsTokens,
    fun {_ d} held names =>
      (renderDecl_runs acyclic held).keepsTokens (d.layout_weaves names).keepsTokens,
    fun {_ m} held names =>
      (renderModule_runs acyclic held).keepsTokens (m.layout_weaves names).keepsTokens⟩

/-- One-line renderings of handles are stable in the column limit. -/
theorem handles_stable_on_line :
    (∀ {id : ExprId} {e : Expr}, f.readExpr id = .ok e →
      Render.StableOnLine (f.renderExpr · id)) ∧
    ∀ {node : DeclNode} {d : Decl}, f.readDecl node = .ok d →
      Render.StableOnLine (f.renderDecl · node) :=
  ⟨fun {_ e} held =>
      (renderExpr_runs acyclic held).stableOnLine e.forms_coherent.whole.stable.onLine,
    fun {_ d} held =>
      (renderDecl_runs acyclic held).stableOnLine d.layout_coherent.stable.onLine⟩

/-- All handles of one tree have the same one-line rendering, in whatever forests they are. -/
theorem handles_share_line :
    (∀ {id : ExprId} {e : Expr}, f.readExpr id = .ok e → e.EveryName (· ≠ "") →
      Render.HasOneLine (f.renderExpr · id) e.oneLine) ∧
    ∀ {node : DeclNode} {d : Decl}, f.readDecl node = .ok d → d.EveryName (· ≠ "") →
      Render.HasOneLine (f.renderDecl · node) d.oneLine :=
  ⟨fun {_ e} held names => (renderExpr_runs acyclic held).hasOneLine
      (e.forms_coherent.whole.hasOneLine (e.forms_begin names).whole),
    fun {_ d} held names => (renderDecl_runs acyclic held).hasOneLine
      (d.layout_coherent.hasOneLine (Decl.layout_begins names))⟩

/-- An expression that the arena finds flat is written as its line, wherever that fits. -/
theorem renderExpr_flat {id : ExprId} {e : Expr} (held : f.readExpr id = .ok e)
    (flat : f.arena.isFlat id = .ok true) (params : ∀ q ∈ e.lambdaParams, q.isFlat = true)
    (names : e.EveryName OneLine) {cfg : Config} {p : Printer}
    (fits : p.effectiveColumn + e.flatLine.length ≤ cfg.columnLimit) :
    f.renderExpr cfg id p = .ok (p.write e.flatLine) := by
  have flat : e.isFlat = true := Except.ok.inj ((f.follows.flat held).symm.trans flat)
  exact (renderExpr_runs acyclic held cfg p).trans
    (congrArg Except.ok ((e.writes_flatLine flat params names).run cfg p nofun fits))

/-- A compound expression on one line ends within the column limit, but for its closing delimiter,
and there is a limit under which it ends exactly there. -/
theorem renderExpr_within_limit {id : ExprId} {e : Expr} (held : f.readExpr id = .ok e)
    {width : Nat} (h : e.Overhang width) {cfg : Config} {p q : Printer} {text : List Char}
    (done : f.renderExpr cfg id p = .ok q) (appended : q.output.toList = p.output.toList ++ text)
    (oneLine : '\n' ∉ text) :
    q.column ≤ cfg.columnLimit + width ∧ ∃ limit, q.column = limit + width ∧
      f.renderExpr { cfg with columnLimit := limit } id p = .ok q := by
  have runs := renderExpr_runs acyclic held
  obtain rfl := runs.eq_run done
  obtain ⟨within, limit, -, column, same⟩ :=
    h.overhangs cfg p ((Layout.stays_iff appended).mpr oneLine)
  exact ⟨within, limit, column, (runs _ p).trans (congrArg Except.ok same)⟩

/-! ## Arguments and signatures -/

/-- Behind its head, an application places the arguments where `Placement.chosen` says. -/
theorem renderExpr_arguments {id : ExprId} {func arg : Expr}
    (held : f.readExpr id = .ok (.app func arg)) (names : (Expr.app func arg).EveryName Plain)
    (cfg : Config) (p : Printer) :
    let args := func.args ++ [arg]
    let head := func.head.layout.run cfg p
    let short := (p.trial (func.head.layout.run cfg)).isShort cfg
    ∃ q, f.renderExpr cfg id p = .ok q ∧ q.output.toList = head.output.toList ++
      (Placement.chosen cfg short head.column args).text cfg head.column p.indent args := by
  intro args head short
  have inLine : head.atLineStart = false := by
    have closes := (Expr.forms_close_plain names.1).head cfg p nofun
    rwa [func.forms_head] at closes
  exact ⟨_, renderExpr_runs acyclic held cfg p, Expr.app_output names cfg p inLine⟩

/-- Below its double colon, a signature has the lines of its type. `Ty.lines_succ`,
`Ty.lines_context` and `Ty.lines_body` say where they start. -/
theorem renderDecl_signature {node : DeclNode} {names : List String} {type : Ty}
    (held : f.readDecl node = .ok (.signature names type))
    (words : (Decl.signature names type).EveryName Word) (cfg : Config) {p : Printer}
    (consistent : p.Consistent) :
    let colons := ", ".intercalate names ++ " :: "
    let column := p.effectiveColumn + colons.length
    column ≤ maxWidth → ∃ q text, f.renderDecl cfg node p = .ok q ∧
      q.output.toList = p.output.toList ++ p.pending ++ (colons.toList ++ text) ∧
        splitLines (List.replicate column ' ' ++ text) = type.lines cfg column := by
  intro colons column room
  obtain ⟨-, text, output, lines⟩ := Decl.signature_lines words cfg consistent
    (show colons = _ from rfl) (show column = _ from rfl) room
  exact ⟨_, text, renderDecl_runs acyclic held cfg p, output, lines⟩

/-! ## Bodies behind their separators -/

theorem Attaches.runs {a : Attachment} {render : Config → Render} (attaches : f.Attaches a render) :
    Render.Runs render a.layout := by
  have below {cfg : Config} (r : Ref) : f.Drawn cfg (f.renderExpr cfg) f.exprLayout r :=
    renderExpr_drawn acyclic r
  cases attaches with
  | function held | pattern held => exact renderDecl_runs acyclic held
  | alternative held => exact renderAlt_runs acyclic held
  | @bindingBranch node guards body held =>
    exact .of_draws (fun _ => renderBranch_draws acyclic " = " node fun r _ => below r)
      (f.follows.branch " = " held)
  | @alternativeBranch node guards body held =>
    exact .of_draws (fun _ => renderBranch_draws acyclic " -> " node fun r _ => below r)
      (f.follows.branch " -> " held)
  | lambda held => exact renderExpr_runs acyclic held
  | @bind node bound body held =>
    exact .of_draws (fun _ => renderStmt_draws acyclic node fun r _ => below r)
      (f.follows.stmt held)
  | @field node name body held =>
    exact .of_draws (fun _ => renderField_draws acyclic node fun r _ => below r)
      (f.follows.field held)

/-- Wherever a body is attached in the forest, it follows its separator if it is flat or if the two
are small; else the line ends behind the separator. -/
theorem Attaches.follows_separator {a : Attachment} {render : Config → Render}
    (attaches : f.Attaches a render) (names : a.EveryName Plain) (cfg : Config) (p : Printer) :
    let front := a.front.run cfg p
    let small := a.together.Stays cfg front ∧
      (a.together.run cfg front).column < cfg.smallColumnLimit
    ∃ q token text more, render cfg p = .ok q ∧ a.body.tokens.head? = some token ∧
      q.output.toList = front.output.toList ++ a.separator.toList ++ (text ++ more) ∧
      ((a.body.isFlat = true ∨ small) ∧ text = token.text.toList ∨
        (a.body.isFlat = false ∧ ¬small) ∧ text = ['\n']) := by
  intro front small
  have runs := attaches.runs acyclic cfg p
  obtain ⟨token, first, -, -⟩ := a.bodyLayout_leads names
  cases flat : a.body.isFlat with
  | true =>
    obtain ⟨more, output⟩ := a.continues_of_flat names flat first cfg p
    exact ⟨_, token, _, more, runs, first, output, .inl ⟨.inl rfl, rfl⟩⟩
  | false =>
    obtain ⟨kept, more, output⟩ | ⟨dropped, more, output⟩ :=
      a.continues_of_not_flat names flat first cfg p
    · exact ⟨_, token, _, more, runs, first, output, .inl ⟨.inr kept, rfl⟩⟩
    · exact ⟨_, token, _, more, runs, first, output, .inr ⟨⟨rfl, dropped⟩, rfl⟩⟩

/-! ## The offside rule and the floor -/

section

variable {cfg : Config} (valid : cfg.Valid) {p : Printer} (consistent : p.Consistent)
  (aligned : p.effectiveColumn = p.indent)

include valid consistent aligned

/-- A declaration over patterns continues right of the column at which it starts. -/
theorem renderDecl_offside {node : DeclNode} {d : Decl} (held : f.readDecl node = .ok d)
    (names : d.EveryName Plain) (patterned : d.isPatterned = true)
    (range : d.layout.InRange cfg p) :
    ∃ q text, f.renderDecl cfg node p = .ok q ∧
      q.output.toList = p.output.toList ++ p.pending ++ text ∧
        ContinuesFrom (p.indent + 1) text :=
  ⟨_, _, renderDecl_runs acyclic held cfg p,
    (Decl.layout_opens_plain names).output_eq cfg consistent aligned,
    Decl.rendering_offside valid consistent aligned names patterned range⟩

/-- So does an alternative. -/
theorem renderAlt_offside {node : AltNode} {a : Alt} (held : f.readAlt f.readExpr node = .ok a)
    (names : a.EveryName Plain) (patterned : a.isPatterned = true)
    (range : a.layout.InRange cfg p) :
    ∃ q text, f.renderAlt cfg (f.renderExpr cfg) node p = .ok q ∧
      q.output.toList = p.output.toList ++ p.pending ++ text ∧
        ContinuesFrom (p.indent + 1) text :=
  ⟨_, _, renderAlt_runs acyclic held cfg p,
    (Alt.layout_opens_plain names).output_eq cfg consistent aligned,
    Alt.rendering_offside valid consistent aligned names patterned range⟩

end

/-- In the final text of a module only first lines of declarations start at the margin. -/
theorem renderModule_margin {cfg : Config} (valid : cfg.Valid) {s : Span .decls} {m : Module}
    (held : f.readModule s = .ok m) (names : ∀ d ∈ m, d.EveryName Plain)
    (patterned : ∀ d ∈ m, d.isPatterned = true) (range : m.layout.InRange cfg .start) :
    ∃ q, f.renderModule cfg s .start = .ok q ∧
      ∀ i line, (splitLines q.finalize.toList)[i]? = some line → Module.AtMargin line →
        i ∈ m.firstLines cfg :=
  ⟨_, renderModule_runs acyclic held cfg .start,
    fun _ _ found margin => m.format_margin valid names patterned range found margin⟩

/-- No line of an expression starts left of both the column and the base that it starts with. -/
theorem renderExpr_keeps_floor {id : ExprId} {e : Expr} (held : f.readExpr id = .ok e)
    (names : e.EveryName Plain) (cfg : Config) {p : Printer} (consistent : p.Consistent)
    (range : e.layout.InRange cfg p) :
    ∃ q text, f.renderExpr cfg id p = .ok q ∧ q.output.toList = p.output.toList ++ text ∧
      ContinuesFrom (min p.effectiveColumn p.indent) text := by
  obtain ⟨text, output, continues⟩ := (e.run_keeps names cfg consistent range).appends
  exact ⟨_, text, renderExpr_runs acyclic held cfg p, output, continues⟩

end Forest

end TrialLayout
