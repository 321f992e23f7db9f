import TrialLayout.Proofs.Composition
import TrialLayout.Proofs.Runs

/-!
# What rendering leaves behind

Rendering changes the base many times, and a candidate that is committed brings its own base
along. Still, every rule leaves the base as it found it, and adds to the output without taking
anything back. Each rule relies on this for its parts, so it is shown for all of them together.

* `Render.Restores`: wherever a rule comes to an end, it has appended some text and the base is
  the one before. A scope puts the base back itself (`Restores.under`). A committed candidate has
  the base of the snapshot from which it was run, which is the one before (`Restores.attempt`,
  `Restores.byHead`).
* The layers of an expression follow by induction on their number (`Forest.renderExprTo_restores`).
  Nothing is asked of the forest, since a rule that meets a handle that leads nowhere comes to no
  end.
* `Layout.exec`: a layout that is run together with its thresholds. Every decision is made by the
  thresholds that the steps before it have left, trials included, and those are the thresholds of
  the start (`Layout.exec_eq`).

Result: `rendering_restores_base`.
-/

namespace TrialLayout

open Printer

/-! ## Definitions -/

/-- The base is the one before, nothing that was written is lost, and no line is taken back. -/
structure Printer.Grows (p q : Printer) : Prop where
  indent : q.indent = p.indent
  output : p.output.toList <+: q.output.toList
  line : p.line ≤ q.line

/-- Wherever the rule comes to an end, it has appended some text and put the base back. -/
def Render.Restores (r : Render) : Prop := ∀ p q, r p = .ok q → ∃ text, p.Advances text q

/-- A printer with the thresholds under which it works. -/
structure Session where
  config : Config
  printer : Printer
deriving DecidableEq, Repr

namespace Session

/-- The session after an operation of its printer. -/
def after (s : Session) (op : Printer → Printer) : Session := { s with printer := op s.printer }

/-- Runs `body` under the indentation base `column`. -/
def withIndentAt (s : Session) (column : Nat) (body : Session → Session) : Session :=
  (body (s.after (·.setIndent column))).after (·.setIndent s.printer.indent)

end Session

/-- Runs a layout in a session. A trial has a printer of its own, but no thresholds of its own:
those it leaves behind stay, whether or not its candidate is committed. -/
def Layout.exec : Layout → Session → Session
  | text content, s => s.after (·.write content)
  | newline, s => s.after (·.newline)
  | seq first second, s => exec second (exec first s)
  | shift delta body, s => s.withIndentAt (shifted s.printer.indent delta) (exec body)
  | step body, s => s.withIndentAt (s.config.stepFrom s.printer.indent) (exec body)
  | depend left right, s =>
      let t := exec left s
      if t.printer.line = s.printer.line ∧ t.printer.column = s.printer.column then exec right t
      else t.withIndentAt t.printer.column (exec right)
  | attempt fit trial fallback, s =>
      let t := exec trial (s.after (·.snapshot))
      if fit.accepts t.config ⟨s.printer.snapshot, t.printer⟩ then
        { t with printer := s.printer.commit t.printer }
      else exec fallback { t with printer := s.printer }
  | byHead head short long, s =>
      let t := exec head (s.after (·.snapshot))
      let live : Session := { t with printer := s.printer.commit t.printer }
      if Trial.isShort t.config ⟨s.printer.snapshot, t.printer⟩ then exec short live
      else exec long live
  | hang body, s => (s.after (·.space)).withIndentAt (s.printer.column + 1) (exec body)
  | resume first rest, s =>
      (exec first s).withIndentAt (s.config.stepFrom s.printer.effectiveColumn) (exec rest)

/-- The layouts in which a tree is rendered. -/
def Part.layouts : (k : Part) → k.Tree → List Layout
  | op, symbol => [.text (Op.spelling symbol)]
  | expr, e => [Expr.layout e]
  | type, t => [.text (Ty.inline t), Ty.signatureLayout t]
  | rhs, r => [Rhs.layout " = " r, Rhs.layout " -> " r]
  | alt, a => [Alt.layout a]
  | stmt, s => [Stmt.layout s]
  | decl, d => [Decl.layout d]
  | module, m => [Module.layout m]

/-- The rules by which what a handle stands for is rendered. -/
def Forest.renderings (f : Forest) (cfg : Config) : (k : Part) → k.Handle → List Render
  | .op, symbol => [.text (f.readOp symbol).spelling]
  | .expr, id => [f.renderExpr cfg id]
  | .type, id => [f.renderType id, f.renderSignatureType cfg id]
  | .rhs, r =>
      [f.renderRhs cfg (f.renderExpr cfg) " = " r, f.renderRhs cfg (f.renderExpr cfg) " -> " r]
  | .alt, a => [f.renderAlt cfg (f.renderExpr cfg) a]
  | .stmt, s => [f.renderStmt cfg (f.renderExpr cfg) s]
  | .decl, d => [f.renderDecl cfg d]
  | .module, s => [f.renderModule cfg s]

/-! ## Printers -/

namespace Printer.Advances

variable {p q r : Printer} {a : List Char}

theorem exists_trans (first : ∃ a, p.Advances a q) (second : ∃ b, q.Advances b r) :
    ∃ text, p.Advances text r := by
  obtain ⟨a, ha⟩ := first
  obtain ⟨b, hb⟩ := second
  exact ⟨a ++ b, ha.trans hb⟩

theorem grows (h : p.Advances a q) : p.Grows q :=
  ⟨h.indent, ⟨a, h.output.symm⟩, h.line_le⟩

/-- A candidate that is committed has the base of the snapshot it was run on. -/
theorem commit {candidate : Printer} (h : p.snapshot.Advances a candidate) :
    p.Advances a (p.commit candidate) := by
  refine ⟨?_, h.line, h.indent, h.width, h.inLine⟩
  have own : candidate.output.toList = a := h.output
  show (p.output ++ candidate.output).toList = p.output.toList ++ a
  rw [String.toList_append, own]

end Printer.Advances

/-! ## Rules -/

namespace Render

variable {r r' r'' : Render} {items : List Render}

namespace Restores

theorem text (content : String) : (text content).Restores := by
  rintro p _ ⟨⟩
  exact Advances.write p content

theorem newline : newline.Restores := by
  rintro p _ ⟨⟩
  exact ⟨_, Advances.newline p⟩

theorem append (first : r.Restores) (second : r'.Restores) : (r ++ r').Restores := by
  intro p q done
  obtain ⟨m, before, after⟩ := bind_eq_ok.mp done
  exact Advances.exists_trans (first p m before) (second m q after)

theorem reading {α : Type} {source : Except ReadError α} {rule : α → Render}
    (each : ∀ a, (rule a).Restores) : (reading source rule).Restores := by
  intro p q done
  obtain ⟨a, -, done⟩ := bind_eq_ok.mp done
  exact each a p q done

theorem under (base : Printer → Nat) (body : r.Restores) : (under base r).Restores := by
  intro p q done
  obtain ⟨m, inner, done⟩ := bind_eq_ok.mp done
  cases done
  obtain ⟨a, ha⟩ := body _ m inner
  show ∃ text, p.Advances text (p.withIndentAt (base p) fun _ => m)
  exact ⟨a, .withIndentAt ha⟩

theorem depend (left : r.Restores) (right : r'.Restores) : (depend r r').Restores := by
  intro p q done
  obtain ⟨m, before, after⟩ := bind_eq_ok.mp done
  refine Advances.exists_trans (left p m before) ?_
  split at after
  · exact right m q after
  · exact right.under _ m q after

theorem hang (body : r.Restores) : (hang r).Restores := by
  intro p q done
  exact Advances.exists_trans (Advances.write p " ") (body.under _ p.space q done)

theorem resume (cfg : Config) (first : r.Restores) (rest : r'.Restores) :
    (resume cfg r r').Restores := by
  intro p q done
  obtain ⟨m, before, after⟩ := bind_eq_ok.mp done
  exact Advances.exists_trans (first p m before) (rest.under _ m q after)

theorem attempt (cfg : Config) (fit : Fit) (trial : r.Restores) (fallback : r'.Restores) :
    (attempt cfg fit r r').Restores := by
  intro p q done
  obtain ⟨candidate, tried, done⟩ := bind_eq_ok.mp done
  obtain ⟨a, ha⟩ := trial p.snapshot candidate tried
  dsimp only at done
  split at done
  · cases done
    exact ⟨a, ha.commit⟩
  · exact fallback p q done

theorem byHead (cfg : Config) (head : r.Restores) (short : r'.Restores) (long : r''.Restores) :
    (byHead cfg r r' r'').Restores := by
  intro p q done
  obtain ⟨candidate, tried, done⟩ := bind_eq_ok.mp done
  obtain ⟨a, ha⟩ := head p.snapshot candidate tried
  -- both ways start from the committed head, and so under the base of `p`
  refine Advances.exists_trans ⟨a, ha.commit⟩ ?_
  dsimp only at done
  split at done
  · exact short _ q done
  · exact long _ q done

/-! ### Blocks -/

theorem concat (each : ∀ item ∈ items, item.Restores) : (concat items).Restores := by
  induction items with
  | nil => exact text ""
  | cons item rest ih =>
    rw [List.forall_mem_cons] at each
    exact each.1.append (ih each.2)

theorem joined (separator : r.Restores) (each : ∀ item ∈ items, item.Restores) :
    (joined r items).Restores := by
  induction items with
  | nil => exact text ""
  | cons item rest ih =>
    rw [List.forall_mem_cons] at each
    cases rest with
    | nil => exact each.1
    | cons next rest => exact (each.1.append separator).append (ih each.2)

theorem lined (each : ∀ item ∈ items, item.Restores) : (lined items).Restores :=
  newline.joined each

theorem underneath (each : ∀ item ∈ items, item.Restores) : (underneath items).Restores :=
  concat (List.forall_mem_map.mpr fun item mem => newline.append (each item mem))

theorem stacked (lead : String) (each : ∀ item ∈ items, item.Restores) :
    (stacked lead items).Restores := by
  cases items with
  | nil => exact text ""
  | cons item rest =>
    rw [List.forall_mem_cons] at each
    exact each.1.append ((underneath (List.forall_mem_map.mpr fun item mem =>
      (text lead).depend (each.2 item mem))).under _)

theorem bracketed (cfg : Config) (opening closing : String)
    (each : ∀ item ∈ items, item.Restores) : (bracketed cfg opening closing items).Restores :=
  (text opening).depend
    ((attempt cfg .line ((text ", ").joined each) (stacked "," each)).append (text closing))

theorem bracketedWhole (cfg : Config) (opening closing : String)
    (each : ∀ item ∈ items, item.Restores) :
    (bracketedWhole cfg opening closing items).Restores :=
  attempt cfg .line ((text opening).depend (((text ", ").joined each).append (text closing)))
    ((text opening).depend ((stacked "," each).append (text closing)))

theorem attach (cfg : Config) (separator : String) (flat : Bool) (body : r.Restores) :
    (attach cfg separator flat r).Restores := by
  unfold Render.attach
  split
  · exact (text separator).depend body
  · exact attempt cfg .small ((text separator).depend body)
      (((text separator).append newline).append body)

theorem onHeadLine (cfg : Config) (each : ∀ item ∈ items, item.Restores)
    (fallback : r.Restores) : (onHeadLine cfg items r).Restores :=
  attempt cfg .line ((text " ").joined each).hang fallback

theorem application (cfg : Config) (head : r.Restores) (flats : Except ReadError (List Bool))
    (each : ∀ item ∈ items, item.Restores) : (application cfg r flats items).Restores := by
  have hanging := (lined each).hang
  have block := newline.append ((lined each).under fun p => cfg.stepFrom p.indent)
  have long := attempt cfg (.stack items.length) hanging block
  refine head.byHead cfg (reading fun answers => ?_) (reading fun answers => ?_)
  · split
    · exact onHeadLine cfg each hanging
    · exact hanging
  · split
    · exact onHeadLine cfg each long
    · exact long

theorem operation (cfg : Config) (flat : Bool) (left : r.Restores) (op : String)
    (right : r'.Restores) {broken : Render → Render → Render}
    (arranged : ∀ {r r'}, r.Restores → r'.Restores → (broken r r').Restores) :
    (operation cfg flat r op r' broken).Restores := by
  have front := (left.append (text " ")).append (text op)
  unfold Render.operation
  split
  · exact attempt cfg .within ((front.append (text " ")).depend right)
      (arranged (front.append newline) right)
  · exact arranged (front.append newline) right

end Restores

end Render

/-! ## Forests -/

namespace Forest

open Render

variable (f : Forest) (cfg : Config)

theorem renderType_restores (id : TypeId) : (f.renderType id).Restores :=
  .reading fun content => .text content

theorem renderChain_restores (id : TypeId) : (f.renderChain cfg id).Restores :=
  .attempt cfg .small (f.renderType_restores id) (.reading fun _ =>
    .stacked "-> " (List.forall_mem_map.mpr fun c _ => f.renderType_restores c))

theorem renderBinders_restores (binders : Span .names) : (f.renderBinders binders).Restores := by
  unfold renderBinders
  split
  · exact .text ""
  · exact .reading fun _ => (Restores.text _).append .newline

theorem renderSignatureType_restores (id : TypeId) :
    (f.renderSignatureType cfg id).Restores := by
  refine .reading fun node => ?_
  cases node with
  | quantified binders context body =>
    have chain := f.renderChain_restores cfg body
    show Restores (if context.isEmpty then _ else _)
    split
    · exact (f.renderBinders_restores binders).append chain
    · exact (((f.renderBinders_restores binders).append (.reading fun _ => .text _)).append
        .newline).append (((Restores.text "=> ").depend chain).under _)
  | _ => exact f.renderChain_restores cfg id

theorem renderSignature_restores (names : Span .names) (type : TypeId) :
    (f.renderSignature cfg names type).Restores :=
  Restores.depend (.reading fun _ => .text _) (f.renderSignatureType_restores cfg type)

section Layers

variable {child : ExprId → Render} (below : ∀ id, (child id).Restores)
include below

omit below in
theorem renderItems_restores {k : Pool} (s : Span k) {item : k.Item → Render}
    {block : List Render → Render} (each : ∀ i, (item i).Restores)
    (arranged : ∀ {items}, (∀ r ∈ items, r.Restores) → (block items).Restores) :
    (f.renderItems s item block).Restores :=
  .reading fun _ => arranged (List.forall_mem_map.mpr fun i _ => each i)

theorem renderBody_restores (separator : String) (body : ExprId) {under : Render → Render}
    (moved : ∀ {r}, r.Restores → (under r).Restores) :
    (f.renderBody cfg child separator body under).Restores :=
  .reading fun flat => .attach cfg separator flat (moved (below body))

theorem renderApplication_restores (id : ExprId) :
    (f.renderApplication cfg child id).Restores :=
  .reading fun _ => .application cfg (below _) _ (List.forall_mem_map.mpr fun arg _ => below arg)

theorem renderOperation_restores (whole left : ExprId) (op : Op Name) (right : ExprId)
    {broken : Render → Render → Render}
    (arranged : ∀ {r r'}, r.Restores → r'.Restores → (broken r r').Restores) :
    (f.renderOperation cfg child whole left op right broken).Restores :=
  .reading fun flat => .operation cfg flat (below left) _ (below right) arranged

theorem renderBranch_restores (separator : String) (b : BranchNode) :
    (f.renderBranch cfg child separator b).Restores :=
  (Restores.text "|").append (.under _ (.append
    (f.renderItems_restores b.guards (fun guard => (Restores.text " ").append (below guard))
      (.stacked ","))
    (f.renderBody_restores cfg below separator b.body (.under _))))

theorem renderRhs_restores (separator : String) (rhs : RhsNode) :
    (f.renderRhs cfg child separator rhs).Restores := by
  cases rhs with
  | plain body => exact .under _ (f.renderBody_restores cfg below separator body id)
  | guarded branches =>
    exact .under _ (f.renderItems_restores branches (f.renderBranch_restores cfg below separator)
      .underneath)

theorem renderAlt_restores (a : AltNode) : (f.renderAlt cfg child a).Restores :=
  (below a.pattern).append (f.renderRhs_restores cfg below " -> " a.rhs)

theorem renderDeclNode_restores (d : DeclNode) : (f.renderDeclNode cfg child d).Restores := by
  cases d with
  | signature names type => exact f.renderSignature_restores cfg names type
  | function name params rhs =>
    have parameters := f.renderItems_restores params
      (fun param => (Restores.text " ").append (below param)) .concat
    exact ((Restores.text _).append parameters).append (f.renderRhs_restores cfg below " = " rhs)
  | pattern pattern rhs =>
    exact (below pattern).append (f.renderRhs_restores cfg below " = " rhs)

theorem renderStmt_restores (s : StmtNode) : (f.renderStmt cfg child s).Restores := by
  cases s with
  | bind pattern expr =>
    exact (below pattern).append (.under _ (f.renderBody_restores cfg below " <- " expr id))
  | expr expr =>
    refine .reading fun node => ?_
    cases node with
    | binary left op right =>
      exact f.renderOperation_restores cfg below expr left op right (.resume cfg)
    | _ => exact below expr
  | decls decls =>
    exact (Restores.text "let ").depend
      (f.renderItems_restores decls (f.renderDeclNode_restores cfg below) .lined)

theorem renderFields_restores (s : Span .fields) : (f.renderFields cfg child s).Restores :=
  f.renderItems_restores s
    (fun field => (Restores.text _).append (f.renderBody_restores cfg below " = " field.value id))
    (.bracketed cfg _ _)

/-- One layer, by the layers below. -/
theorem renderExprNode_restores (id : ExprId) (node : ExprNode) :
    (f.renderExprNode cfg child id node).Restores := by
  have decls (s : Span .decls) :=
    f.renderItems_restores s (f.renderDeclNode_restores cfg below) .lined
  cases node with
  | var | con | int | frac | char | string | varQuote | typeQuote | wildcard => exact .text _
  | app func arg => exact f.renderApplication_restores cfg below id
  | binary left op right => exact f.renderOperation_restores cfg below id left op right .append
  | neg operand => exact (Restores.text "-").append (below operand)
  | leftSection operand op =>
    exact (Restores.text "(").depend
      ((((below operand).append (.text " ")).append (.text _)).append (.text ")"))
  | rightSection op operand =>
    exact (((Restores.text "(").append (.text _)).append (.text " ")).depend
      ((below operand).append (.text ")"))
  | lambda params body =>
    exact (Restores.text "\\").depend
      ((f.renderItems_restores params below (.joined (.text " "))).append
        (f.renderBody_restores cfg below " -> " body (.under _)))
  | tuple boxity items =>
    refine .reading fun ids => ?_
    dsimp only
    split
    · exact .text boxity.unit
    · exact .bracketed cfg _ _ (List.forall_mem_map.mpr fun item _ => below item)
  | list items =>
    show Restores (if items.isEmpty then _ else _)
    split
    · exact .text "[]"
    · exact f.renderItems_restores items below (.bracketedWhole cfg "[" "]")
  | paren inner => exact (Restores.text "(").depend ((below inner).append (.text ")"))
  | cond condition yes no =>
    have flat := (((((Restores.text "if ").append (below condition)).append
      (.text " then ")).append (below yes)).append (.text " else ")).append (below no)
    have stacked := (((below condition).append .newline).append
      ((Restores.text "then ").depend (below yes))).append .newline
    exact .attempt cfg .line flat ((Restores.text "if ").depend
      (stacked.append ((Restores.text "else ").depend (below no))))
  | caseOf scrutinee alts =>
    exact (((Restores.text "case ").depend (below scrutinee)).append (.text " of")).append
      (.under _ (f.renderItems_restores alts (f.renderAlt_restores cfg below) .underneath))
  | block stmts =>
    exact (Restores.text "do ").depend
      (f.renderItems_restores stmts (f.renderStmt_restores cfg below) .lined)
  | letIn ds body =>
    exact (((Restores.text "let ").depend (decls ds)).append .newline).append
      ((Restores.text "in ").depend (below body))
  | record con fields =>
    exact ((Restores.text _).append (.text " ")).append (f.renderFields_restores cfg below fields)
  | update record fields =>
    exact ((below record).append (.text " ")).append (f.renderFields_restores cfg below fields)
  | annot expr type =>
    exact ((below expr).append (.text " :: ")).depend (f.renderType_restores type)

end Layers

theorem renderExprTo_restores (depth : Nat) (id : ExprId) :
    (f.renderExprTo cfg depth id).Restores := by
  induction depth generalizing id with
  | zero =>
    -- without a layer nothing comes to an end
    exact fun _ _ done => nomatch done
  | succ depth ih => exact .reading (f.renderExprNode_restores cfg ih id)

theorem renderExpr_restores (id : ExprId) : (f.renderExpr cfg id).Restores :=
  f.renderExprTo_restores cfg _ id

theorem renderDecl_restores (d : DeclNode) : (f.renderDecl cfg d).Restores :=
  f.renderDeclNode_restores cfg (f.renderExpr_restores cfg) d

theorem renderAfter_restores (previous : DeclNode) (decls : List DeclNode) :
    (f.renderAfter cfg previous decls).Restores := by
  have gap (d : DeclNode) : (renderGap d).Restores := by
    cases d with
    | signature => exact .newline
    | function | pattern => exact Restores.newline.append .newline
  induction decls generalizing previous with
  | nil => exact .text ""
  | cons d rest ih =>
    exact ((gap previous).append (f.renderDecl_restores cfg d)).append (ih d)

theorem renderModule_restores (s : Span .decls) : (f.renderModule cfg s).Restores := by
  refine .reading fun decls => ?_
  cases decls with
  | nil => exact .text ""
  | cons d rest => exact (f.renderDecl_restores cfg d).append (f.renderAfter_restores cfg d rest)

/-- Every rule by which a handle is rendered restores. -/
theorem renderings_restore (k : Part) (h : k.Handle) :
    ∀ r ∈ f.renderings cfg k h, r.Restores := by
  have below := f.renderExpr_restores cfg
  cases k with
  | op => exact List.forall_mem_singleton.mpr (.text _)
  | expr => exact List.forall_mem_singleton.mpr (below h)
  | type =>
    exact List.forall_mem_cons.mpr ⟨f.renderType_restores h,
      List.forall_mem_singleton.mpr (f.renderSignatureType_restores cfg h)⟩
  | rhs =>
    exact List.forall_mem_cons.mpr ⟨f.renderRhs_restores cfg below " = " h,
      List.forall_mem_singleton.mpr (f.renderRhs_restores cfg below " -> " h)⟩
  | alt => exact List.forall_mem_singleton.mpr (f.renderAlt_restores cfg below h)
  | stmt => exact List.forall_mem_singleton.mpr (f.renderStmt_restores cfg below h)
  | decl => exact List.forall_mem_singleton.mpr (f.renderDecl_restores cfg h)
  | module => exact List.forall_mem_singleton.mpr (f.renderModule_restores cfg h)

/-- Every rule by which a handle is rendered comes to an end if what the handle refers to is
there. -/
theorem renderings_succeed (acyclic : f.arena.Acyclic) {k : Part} {h : k.Handle}
    (intact : ∀ ref ∈ k.refs h, f.arena.Intact ref) (p : Printer) :
    ∀ r ∈ f.renderings cfg k h, Succeeds (r p) := by
  have renders := renders_of_intact acyclic intact cfg p
  cases k with
  | op => exact List.forall_mem_singleton.mpr ⟨_, rfl⟩
  | expr => exact List.forall_mem_singleton.mpr renders.2.1
  | type =>
    have whole := intact _ List.mem_cons_self
    exact List.forall_mem_cons.mpr ⟨renders.2,
      List.forall_mem_singleton.mpr ((renderSignatureType_draws acyclic h).succeeds whole p).1⟩
  | rhs =>
    exact List.forall_mem_cons.mpr ⟨renders " = ", List.forall_mem_singleton.mpr (renders " -> ")⟩
  | alt | stmt => exact List.forall_mem_singleton.mpr renders
  | decl | module => exact List.forall_mem_singleton.mpr renders.1

end Forest

/-! ## Thresholds -/

/-- Running a layout together with its thresholds leaves them as they are, and does to the printer
what running the layout under these thresholds does. -/
theorem Layout.exec_eq (l : Layout) (s : Session) : l.exec s = s.after (l.run s.config) := by
  induction l generalizing s with
  | text | newline => rfl
  | seq first second ihf ihs =>
    rw [exec, ihf, ihs]
    rfl
  | shift delta body ih =>
    rw [exec, Session.withIndentAt, ih]
    rfl
  | step body ih =>
    rw [exec, Session.withIndentAt, ih]
    rfl
  | depend left right ihl ihr =>
    simp only [exec, ihl, run, Session.after, Session.withIndentAt, Printer.depend]
    split
    · rw [ihr]
      rfl
    · rw [ihr]
      rfl
  | attempt fit trial fallback iht ihf =>
    simp only [exec, iht, run, Session.after]
    split
    · next fits => exact congrArg (Session.mk s.config) (if_pos fits).symm
    · next fits =>
      rw [ihf]
      exact congrArg (Session.mk s.config) (if_neg fits).symm
  | byHead head short long ihh ihs ihl =>
    simp only [exec, ihh, run, Session.after]
    split
    · next small =>
      rw [ihs]
      exact congrArg (Session.mk s.config) (congrFun (if_pos small) _).symm
    · next large =>
      rw [ihl]
      exact congrArg (Session.mk s.config) (congrFun (if_neg large) _).symm
  | hang body ih =>
    rw [exec, Session.withIndentAt, ih]
    rfl
  | resume first rest ihf ihr =>
    rw [exec, ihf, Session.withIndentAt, ihr]
    rfl

/-! ## The result -/

/-- A tree is rendered with the base and the thresholds at the end that were there at the start,
the output is only added to, and no line is taken back, whatever the thresholds, the start and the
rule. It is so too if the rendering is tried first and its candidate committed. The rules that
render what handles stand for do the same wherever they come to an end, and they come to an end
where the handles lead somewhere. -/
theorem rendering_restores_base (cfg : Config) (p : Printer) :
    (∀ (k : Part) (t : k.Tree), ∀ l ∈ k.layouts t,
      l.exec ⟨cfg, p⟩ = ⟨cfg, l.run cfg p⟩ ∧ p.Grows (l.run cfg p) ∧
        p.Grows (p.commit (p.trial (l.run cfg)).candidate)) ∧
    ∀ (f : Forest) (k : Part) (h : k.Handle), ∀ r ∈ f.renderings cfg k h,
      (∀ q, r p = .ok q → p.Grows q) ∧
      (∀ candidate, r p.snapshot = .ok candidate → p.Grows (p.commit candidate)) ∧
      (f.arena.Acyclic → (∀ ref ∈ k.refs h, f.arena.Intact ref) → Succeeds (r p)) := by
  refine ⟨fun k t l _ => ?_, fun f k h r mem => ?_⟩
  · obtain ⟨a, live⟩ := l.run_advances cfg p
    obtain ⟨b, tried⟩ := l.run_advances cfg p.snapshot
    exact ⟨l.exec_eq _, live.grows, tried.commit.grows⟩
  · have restores := f.renderings_restore cfg k h r mem
    refine ⟨fun q done => ?_, fun candidate tried => ?_, fun acyclic intact => ?_⟩
    · obtain ⟨a, live⟩ := restores p q done
      exact live.grows
    · obtain ⟨a, advances⟩ := restores p.snapshot candidate tried
      exact advances.commit.grows
    · exact f.renderings_succeed cfg acyclic intact p r mem

/-- A tuple is rendered behind three characters of a line, under a base of its own. -/
theorem rendering_restores_base_pairing :
    pairing.renderExpr {} ⟨3⟩ ⟨"abc", 0, 3, 7, false⟩ =
      .ok ⟨"abc(x, f x)", 0, 11, 7, false⟩ ∧
    (⟨"abc", 0, 3, 7, false⟩ : Printer).Grows ⟨"abc(x, f x)", 0, 11, 7, false⟩ ∧
    ∀ p, Succeeds (pairing.renderExpr {} ⟨3⟩ p) := by
  have rendered : pairing.renderExpr {} ⟨3⟩ ⟨"abc", 0, 3, 7, false⟩ =
      .ok ⟨"abc(x, f x)", 0, 11, 7, false⟩ := rfl
  have rules (p : Printer) :=
    (rendering_restores_base {} p).2 pairing .expr ⟨3⟩ _ List.mem_cons_self
  refine ⟨rendered, (rules _).1 _ rendered, fun p => (rules p).2.2 pairing_acyclic ?_⟩
  exact List.forall_mem_singleton.mpr (pairing_inBounds.intact (by decide))

end TrialLayout
