import TrialLayout.Arena.Layout

/-!
# Rendering on demand

A layout is made before it is run: all nodes are read, also for renderings that are not chosen
in the end. Here a tree that is held as nodes is rendered without making its layout. A rule
writes as it goes, and reads a node or a list at the moment when it comes to it.

* What a trial needs is read when it is tried. What only its fallback needs is not read unless
  the trial is dropped, and then every part is read again.
* Whether the arguments of an application are flat is asked after its head has been written.
* The components of an arrow are collected only if the arrow does not stay on one line.

The rules are those of the layouts, with the same names for the blocks they are made of.
-/

namespace TrialLayout

/-- What a rule does to a printer, unless it meets a handle that leads nowhere. -/
abbrev Render := Printer → Except ReadError Printer

namespace Render

/-! ## Writing and reading -/

/-- A text. -/
def text (content : String) : Render := fun p => return p.write content

/-- The end of a line. -/
def newline : Render := fun p => return p.newline

/-- One part after another. -/
def seq (first second : Render) : Render := fun p => do second (← first p)

instance : Append Render := ⟨seq⟩

/-- Nothing. -/
def empty : Render := text ""

/-- A single space. -/
def space : Render := text " "

/-- A rule that depends on something that is read first. -/
def reading {α : Type} (source : Except ReadError α) (rule : α → Render) : Render :=
  fun p => do rule (← source) p

/-! ## Scopes -/

/-- A part under the base that `base` gives for the printer it starts from. -/
def under (base : Printer → Nat) (body : Render) : Render := fun p =>
  return (← body (p.setIndent (base p))).setIndent p.indent

/-- A part under a base moved by `delta`. -/
def shift (delta : Int) (body : Render) : Render :=
  under (fun p => Printer.shifted p.indent delta) body

/-- A part, and `right` under the column that it ends at. -/
def depend (left right : Render) : Render := fun p => do
  let q ← left p
  if q.line = p.line ∧ q.column = p.column then right q else under (·.column) right q

/-- A space, and a part under the column after that space. -/
def hang (body : Render) : Render := fun p => under (fun _ => p.column + 1) body p.space

section Thresholds

variable (cfg : Config)

/-- A part under a base moved by one indentation step. -/
def step (body : Render) : Render := under (fun p => cfg.stepFrom p.indent) body

/-- A part, and `rest` under a base one step past the column at which that part starts. -/
def resume (first rest : Render) : Render := fun p => do
  under (fun _ => cfg.stepFrom p.effectiveColumn) rest (← first p)

/-- The rendering `trial` if it fits, else `fallback`, which is not looked at before. -/
def attempt (fit : Fit) (trial fallback : Render) : Render := fun p => do
  let t : Trial := ⟨p.snapshot, ← trial p.snapshot⟩
  if fit.accepts cfg t then return p.commit t.candidate else fallback p

/-- A head, followed by `short` if it is short, else by `long`. -/
def byHead (head short long : Render) : Render := fun p => do
  let t : Trial := ⟨p.snapshot, ← head p.snapshot⟩
  (if t.isShort cfg then short else long) (p.commit t.candidate)

end Thresholds

/-! ## Blocks -/

/-- One part after another. -/
def concat : List Render → Render
  | [] => empty
  | item :: rest => item ++ concat rest

/-- Items with `separator` between each two. -/
def joined (separator : Render) : List Render → Render
  | [] => empty
  | [item] => item
  | item :: rest => item ++ separator ++ joined separator rest

/-- Items with a space between each two. -/
def spaced : List Render → Render := joined space

/-- Items with a comma and a space between each two. -/
def listed : List Render → Render := joined (text ", ")

/-- Items one below the other. -/
def lined : List Render → Render := joined newline

/-- Each item on a line of its own. -/
def underneath (items : List Render) : Render := concat (items.map (newline ++ ·))

/-- Items one below the other, with `lead` in front of all but the first. -/
def stacked (lead : String) : List Render → Render
  | [] => empty
  | item :: rest =>
      item ++ shift (-(lead.length : Int)) (underneath (rest.map (depend (text lead))))

section Thresholds

variable (cfg : Config)

/-- Items on one line if that fits, else one below the other. -/
def row (items : List Render) : Render :=
  attempt cfg .line (listed items) (stacked "," items)

/-- A row between brackets; the closing bracket is not measured. -/
def bracketed (opening closing : String) (items : List Render) : Render :=
  depend (text opening) (row cfg items ++ text closing)

/-- A row between brackets that is measured together with its closing bracket. -/
def bracketedWhole (opening closing : String) (items : List Render) : Render :=
  attempt cfg .line
    (depend (text opening) (listed items ++ text closing))
    (depend (text opening) (stacked "," items ++ text closing))

/-- A body after its separator. -/
def attach (separator : String) (flat : Bool) (body : Render) : Render :=
  if flat then depend (text separator) body
  else attempt cfg .small (depend (text separator) body) (text separator ++ newline ++ body)

/-- All arguments on the line of the head if that fits, else `fallback`. -/
def onHeadLine (args : List Render) (fallback : Render) : Render :=
  attempt cfg .line (hang (spaced args)) fallback

/-- What follows the head of an application. Whether the arguments are flat is read when the
head has been written. -/
def application (head : Render) (flats : Except ReadError (List Bool)) (args : List Render) :
    Render :=
  let hanging := hang (lined args)
  let block := newline ++ step cfg (lined args)
  let long := attempt cfg (.stack args.length) hanging block
  byHead cfg head
    (reading flats fun flats =>
      if flats.countP (!·) < 2 then onHeadLine cfg args hanging else hanging)
    (reading flats fun flats =>
      if flats.countP (!·) = 0 then onHeadLine cfg args long else long)

/-- Two operands and the operator between them; `broken` arranges the broken form. -/
def operation (flat : Bool) (left : Render) (op : String) (right : Render)
    (broken : Render → Render → Render) : Render :=
  let breaking := broken (left ++ space ++ text op ++ newline) right
  if flat then
    attempt cfg .within (depend (left ++ space ++ text op ++ space) right) breaking
  else breaking

end Thresholds

end Render

namespace Forest

open Render

variable (f : Forest) (cfg : Config)

/-! ## Types -/

/-- The type of a number on one line. -/
def renderType (id : TypeId) : Render := reading (f.typeText id) text

/-- A type on one line if that is small, else with one arrow component a line. -/
def renderChain (id : TypeId) : Render :=
  attempt cfg .small (f.renderType id)
    (reading (f.arena.arrows id) fun components =>
      stacked "-> " (components.map f.renderType))

/-- The quantifier of a signature, on a line of its own. -/
def renderBinders (binders : Span .names) : Render :=
  if binders.isEmpty then empty
  else reading (f.arena.slice binders) fun names =>
    text ("forall " ++ " ".intercalate (f.lookupAll names) ++ ".") ++ newline

/-- The type of a signature, from the column after `::`. -/
def renderSignatureType (id : TypeId) : Render :=
  reading (f.arena.get id) fun (node : TypeNode) =>
    match node with
    | .quantified binders context body =>
        if context.isEmpty then f.renderBinders binders ++ f.renderChain cfg body
        else
          f.renderBinders binders ++
            reading (do contextText f.typeText (← f.arena.slice context)) text ++ newline ++
            shift (-3) (depend (text "=> ") (f.renderChain cfg body))
    | _ => f.renderChain cfg id

/-- A signature: names, `::`, and the type under the column after it. -/
def renderSignature (names : Span .names) (type : TypeId) : Render :=
  depend
    (reading (f.arena.slice names) fun names =>
      text (", ".intercalate (f.lookupAll names) ++ " :: "))
    (f.renderSignatureType cfg type)

/-! ## Expressions -/

section Layers

variable (child : ExprId → Render)

/-- The items of a range, and what is made of their renderings. -/
def renderItems {k : Pool} (s : Span k) (item : k.Item → Render) (block : List Render → Render) :
    Render :=
  reading (f.arena.slice s) fun items => block (items.map item)

/-- A body after its separator; `under` moves the base of the body. -/
def renderBody (separator : String) (body : ExprId) (under : Render → Render) : Render :=
  reading (f.arena.isFlat body) fun flat => attach cfg separator flat (under (child body))

/-- An application, by the head and the arguments of its spine. -/
def renderApplication (id : ExprId) : Render :=
  reading (f.arena.spine id) fun (head, args) =>
    application cfg (child head) (args.mapM f.arena.isFlat) (args.map child)

/-- An operator between two operands; `broken` arranges the broken form. -/
def renderOperation (whole left : ExprId) (op : Op Name) (right : ExprId)
    (broken : Render → Render → Render) : Render :=
  reading (f.arena.isFlat whole) fun flat =>
    operation cfg flat (child left) (f.readOp op).spelling (child right) broken

/-- A guarded branch. -/
def renderBranch (separator : String) (b : BranchNode) : Render :=
  text "|" ++ shift 1
    (f.renderItems b.guards (fun guard => space ++ child guard) (stacked ",") ++
      f.renderBody cfg child separator b.body (shift 1))

/-- A right-hand side after its binding or pattern. -/
def renderRhs (separator : String) : RhsNode → Render
  | .plain body => step cfg (f.renderBody cfg child separator body id)
  | .guarded branches =>
      step cfg (f.renderItems branches (f.renderBranch cfg child separator) underneath)

/-- A case alternative. -/
def renderAlt (a : AltNode) : Render := child a.pattern ++ f.renderRhs cfg child " -> " a.rhs

/-- A declaration. -/
def renderDeclNode : DeclNode → Render
  | .signature names type => f.renderSignature cfg names type
  | .function name params rhs =>
      text (f.names.lookup name) ++
        f.renderItems params (fun param => space ++ child param) concat ++
        f.renderRhs cfg child " = " rhs
  | .pattern pattern rhs => child pattern ++ f.renderRhs cfg child " = " rhs

/-- A statement. An operator that is the whole statement continues past its column. -/
def renderStmt : StmtNode → Render
  | .bind pattern expr => child pattern ++ step cfg (f.renderBody cfg child " <- " expr id)
  | .expr expr =>
      reading (f.arena.get expr) fun (node : ExprNode) =>
        match node with
        | .binary left op right => f.renderOperation cfg child expr left op right (resume cfg)
        | _ => child expr
  | .decls decls =>
      depend (text "let ") (f.renderItems decls (f.renderDeclNode cfg child) lined)

/-- A record field. -/
def renderField (field : FieldNode) : Render :=
  text (f.names.lookup field.name) ++ f.renderBody cfg child " = " field.value id

/-- The fields of a record between braces. -/
def renderFields (s : Span .fields) : Render :=
  f.renderItems s (f.renderField cfg child) (bracketed cfg "\x7b" "\x7d")

/-- One layer of the expression of a number. -/
def renderExprNode (id : ExprId) : ExprNode → Render
  | .var name => text (f.names.lookup name)
  | .con name => text (f.names.lookup name)
  | .int value => text value.repr
  | .frac digits => text (f.names.lookup digits)
  | .char value => text (Text.charLiteral value)
  | .string value => text (Text.stringLiteral (f.names.lookup value))
  | .varQuote name => text ("'" ++ f.names.lookup name)
  | .typeQuote name => text ("''" ++ f.names.lookup name)
  | .wildcard => text "_"
  | .app .. => f.renderApplication cfg child id
  | .binary left op right => f.renderOperation cfg child id left op right seq
  | .neg operand => text "-" ++ child operand
  | .leftSection operand op =>
      depend (text "(") (child operand ++ space ++ text (f.readOp op).spelling ++ text ")")
  | .rightSection op operand =>
      depend (text "(" ++ text (f.readOp op).spelling ++ space) (child operand ++ text ")")
  | .lambda params body =>
      depend (text "\\")
        (f.renderItems params child spaced ++ f.renderBody cfg child " -> " body (shift 1))
  | .tuple boxity items =>
      f.renderItems items child fun items =>
        if items.isEmpty then text boxity.unit
        else bracketed cfg boxity.opening boxity.closing items
  | .list items =>
      if items.isEmpty then text "[]"
      else f.renderItems items child (bracketedWhole cfg "[" "]")
  | .paren inner => depend (text "(") (child inner ++ text ")")
  | .cond condition yes no =>
      attempt cfg .line
        (text "if " ++ child condition ++ text " then " ++ child yes ++ text " else " ++ child no)
        (depend (text "if ")
          (child condition ++ newline ++ depend (text "then ") (child yes) ++
            newline ++ depend (text "else ") (child no)))
  | .caseOf scrutinee alts =>
      depend (text "case ") (child scrutinee) ++ text " of" ++
        step cfg (f.renderItems alts (f.renderAlt cfg child) underneath)
  | .block stmts =>
      depend (text "do ") (f.renderItems stmts (f.renderStmt cfg child) lined)
  | .letIn decls body =>
      depend (text "let ") (f.renderItems decls (f.renderDeclNode cfg child) lined) ++ newline ++
        depend (text "in ") (child body)
  | .record con fields =>
      text (f.names.lookup con) ++ space ++ f.renderFields cfg child fields
  | .update record fields => child record ++ space ++ f.renderFields cfg child fields
  | .annot expr type => depend (child expr ++ text " :: ") (f.renderType type)

end Layers

/-- The rendering of an expression that is at most `depth` layers deep. -/
def renderExprTo : (depth : Nat) → ExprId → Render
  | 0, _ => fun _ => .error .cyclic
  | depth + 1, id =>
      reading (f.arena.get id) (f.renderExprNode cfg (renderExprTo depth) id)

/-- Renders the expression of a number. -/
def renderExpr (id : ExprId) : Render := f.renderExprTo cfg (f.arena.exprs.size + 1) id

/-- Renders a declaration whose parts are held in the forest. -/
def renderDecl (d : DeclNode) : Render := f.renderDeclNode cfg (f.renderExpr cfg) d

/-! ## Modules -/

/-- What stands between a declaration and the next one. -/
def renderGap : DeclNode → Render
  | .signature .. => newline
  | _ => newline ++ newline

/-- The declarations that follow `previous`. -/
def renderAfter (previous : DeclNode) : List DeclNode → Render
  | [] => empty
  | d :: rest => renderGap previous ++ f.renderDecl cfg d ++ renderAfter d rest

/-- Renders the module in a range. -/
def renderModule (s : Span .decls) : Render :=
  reading (f.arena.slice s) fun (decls : List DeclNode) =>
    match decls with
    | [] => empty
    | d :: rest => f.renderDecl cfg d ++ f.renderAfter cfg d rest

end Forest

end TrialLayout
