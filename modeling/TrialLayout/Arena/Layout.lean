import TrialLayout.Arena.Read
import TrialLayout.Arena.Shape
import TrialLayout.Text.Literal
import TrialLayout.Tree.TypeLayout

/-!
# Layout of nodes

The layout of a tree that is held as nodes. The tree is not read first: a rule follows the
handles of the one node it is made for, asks the arena for the shape of what it has found, and
leaves the parts to the layouter of the layers below, which is an argument. As in reading, the
layouter of a whole tree descends at most as often as there are nodes.

* Whether a body is flat, where the spine of an application ends and what the components of an
  arrow are is asked of the nodes (`Arena.isFlat`, `Arena.spine`, `Arena.arrows`).
* The range of the items of a list, of the binders of a quantified type or of its context is
  not followed if it is empty.
-/

namespace TrialLayout.Forest

/-! ## Types -/

section TypeLayers

variable (f : Forest) (child : TypeId → Except ReadError String)

/-- A class context: one assertion bare, several in parentheses. -/
def contextText : List TypeId → Except ReadError String
  | [single] => child single
  | assertions => return "(" ++ ", ".intercalate (← assertions.mapM child) ++ ")"

/-- The quantifier in front of a type on one line. -/
def binderText (binders : Span .names) : Except ReadError String := do
  if binders.isEmpty then return ""
  else return "forall " ++ " ".intercalate (f.lookupAll (← f.arena.slice binders)) ++ ". "

/-- The class context in front of a type on one line. -/
def assertionText (context : Span .types) : Except ReadError String := do
  if context.isEmpty then return ""
  else return (← contextText child (← f.arena.slice context)) ++ " => "

/-- One layer of a type on one line. -/
def typeNodeText : TypeNode → Except ReadError String
  | .con name => .ok (f.names.lookup name)
  | .var name => .ok (f.names.lookup name)
  | .app func arg => return (← child func) ++ " " ++ (← child arg)
  | .arrow arg result => return (← child arg) ++ " -> " ++ (← child result)
  | .tuple boxity items => do
      let items ← f.arena.slice items
      if items.isEmpty then return boxity.unit
      else return boxity.opening ++ ", ".intercalate (← items.mapM child) ++ boxity.closing
  | .list element => return "[" ++ (← child element) ++ "]"
  | .paren inner => return "(" ++ (← child inner) ++ ")"
  | .quantified binders context body =>
      return (← f.binderText binders) ++ (← f.assertionText child context) ++ (← child body)

end TypeLayers

/-- A type on one line that is at most `depth` layers deep. -/
def typeTextTo (f : Forest) : (depth : Nat) → TypeId → Except ReadError String
  | 0, _ => .error .cyclic
  | depth + 1, id => do f.typeNodeText (f.typeTextTo depth) (← f.arena.get id)

/-- The type of a number on one line. -/
def typeText (f : Forest) (id : TypeId) : Except ReadError String :=
  f.typeTextTo (f.arena.types.size + 1) id

/-- A type on one line if that is small, else with one arrow component a line. -/
def chainLayout (f : Forest) (id : TypeId) : Except ReadError Layout := do
  let components ← (← f.arena.arrows id).mapM f.typeText
  return .attempt .small (.text (← f.typeText id)) (.stacked "-> " (components.map .text))

/-- The type of a signature, from the column after `::`. -/
def signatureTypeLayout (f : Forest) (id : TypeId) : Except ReadError Layout := do
  match (← f.arena.get id : TypeNode) with
  | .quantified binders context body =>
      let binders ← f.sliceUnlessEmpty binders
      let binderLine := Ty.binderLine (f.lookupAll binders)
      if context.isEmpty then return binderLine ++ (← f.chainLayout body)
      else
        let assertions ← contextText f.typeText (← f.arena.slice context)
        return binderLine ++ .text assertions ++ .newline ++
          .shift (-3) (.depend (.text "=> ") (← f.chainLayout body))
  | _ => f.chainLayout id

/-- A signature: names, `::`, and the type under the column after it. -/
def signatureLayout (f : Forest) (names : Span .names) (type : TypeId) :
    Except ReadError Layout := do
  let names := f.lookupAll (← f.arena.slice names)
  return .depend (.text (", ".intercalate names ++ " :: ")) (← f.signatureTypeLayout type)

/-! ## Expressions -/

open Layout

section Layers

variable (f : Forest) (child : ExprId → Except ReadError Layout)

/-- The expressions of a range. -/
def exprLayouts (s : Span .exprs) : Except ReadError (List Layout) := do
  (← f.arena.slice s).mapM child

/-- A body after its separator; `under` moves the base of the body. -/
def bodyLayout (separator : String) (body : ExprId) (under : Layout → Layout) :
    Except ReadError Layout :=
  return attach separator (← f.arena.isFlat body) (under (← child body))

/-- An argument of an application. -/
def argumentLayout (id : ExprId) : Except ReadError Argument :=
  return ⟨← child id, ← f.arena.isFlat id⟩

/-- An application, by the head and the arguments of its spine. -/
def applicationLayout (id : ExprId) : Except ReadError Layout := do
  let (head, args) ← f.arena.spine id
  return application (← child head) (← args.mapM (f.argumentLayout child))

/-- An operator between two operands; `broken` arranges the broken form. -/
def operationLayout (whole left : ExprId) (op : Op Name) (right : ExprId)
    (broken : Layout → Layout → Layout) : Except ReadError Layout :=
  return operation (← f.arena.isFlat whole) (← child left) (f.readOp op).spelling (← child right)
    broken

/-- A guarded branch. -/
def branchLayout (separator : String) (b : BranchNode) : Except ReadError Layout :=
  return text "|" ++ shift 1
    (stacked "," ((← f.exprLayouts child b.guards).map (space ++ ·)) ++
      (← f.bodyLayout child separator b.body (shift 1)))

/-- A right-hand side after its binding or pattern. -/
def rhsLayout (separator : String) : RhsNode → Except ReadError Layout
  | .plain body => return step (← f.bodyLayout child separator body id)
  | .guarded branches =>
      return step (underneath
        (← (← f.arena.slice branches).mapM (f.branchLayout child separator)))

/-- A case alternative. -/
def altLayout (a : AltNode) : Except ReadError Layout :=
  return (← child a.pattern) ++ (← f.rhsLayout child " -> " a.rhs)

/-- A declaration. -/
def declNodeLayout : DeclNode → Except ReadError Layout
  | .signature names type => f.signatureLayout names type
  | .function name params rhs =>
      return text (f.names.lookup name) ++
        concat ((← f.exprLayouts child params).map (space ++ ·)) ++
        (← f.rhsLayout child " = " rhs)
  | .pattern pattern rhs => return (← child pattern) ++ (← f.rhsLayout child " = " rhs)

/-- The declarations of a range. -/
def declLayouts (s : Span .decls) : Except ReadError (List Layout) := do
  (← f.arena.slice s).mapM (f.declNodeLayout child)

/-- A statement. An operator that is the whole statement continues past its column. -/
def stmtLayout : StmtNode → Except ReadError Layout
  | .bind pattern expr =>
      return (← child pattern) ++ step (← f.bodyLayout child " <- " expr id)
  | .expr expr => do
      match (← f.arena.get expr : ExprNode) with
      | .binary left op right => f.operationLayout child expr left op right .resume
      | _ => child expr
  | .decls decls => return depend (text "let ") (lined (← f.declLayouts child decls))

/-- A record field. -/
def fieldLayout (field : FieldNode) : Except ReadError Layout :=
  return text (f.names.lookup field.name) ++ (← f.bodyLayout child " = " field.value id)

/-- The fields of a record between braces. -/
def fieldsLayout (s : Span .fields) : Except ReadError Layout := do
  return bracketed "\x7b" "\x7d" (← (← f.arena.slice s).mapM (f.fieldLayout child))

/-- One layer of the expression of a number. -/
def exprNodeLayout (id : ExprId) : ExprNode → Except ReadError Layout
  | .var name => .ok (text (f.names.lookup name))
  | .con name => .ok (text (f.names.lookup name))
  | .int value => .ok (text value.repr)
  | .frac digits => .ok (text (f.names.lookup digits))
  | .char value => .ok (text (Text.charLiteral value))
  | .string value => .ok (text (Text.stringLiteral (f.names.lookup value)))
  | .varQuote name => .ok (text ("'" ++ f.names.lookup name))
  | .typeQuote name => .ok (text ("''" ++ f.names.lookup name))
  | .wildcard => .ok (text "_")
  | .app .. => f.applicationLayout child id
  | .binary left op right => f.operationLayout child id left op right .seq
  | .neg operand => return text "-" ++ (← child operand)
  | .leftSection operand op =>
      return depend (text "(")
        ((← child operand) ++ space ++ text (f.readOp op).spelling ++ text ")")
  | .rightSection op operand =>
      return depend (text "(" ++ text (f.readOp op).spelling ++ space)
        ((← child operand) ++ text ")")
  | .lambda params body =>
      return depend (text "\\")
        (spaced (← f.exprLayouts child params) ++ (← f.bodyLayout child " -> " body (shift 1)))
  | .tuple boxity items => do
      let items ← f.exprLayouts child items
      if items.isEmpty then return text boxity.unit
      else return bracketed boxity.opening boxity.closing items
  | .list items => do
      if items.isEmpty then return text "[]"
      else return bracketedWhole "[" "]" (← f.exprLayouts child items)
  | .paren inner => return depend (text "(") ((← child inner) ++ text ")")
  | .cond condition yes no => do
      let condition ← child condition
      let yes ← child yes
      let no ← child no
      return attempt .line
        (text "if " ++ condition ++ text " then " ++ yes ++ text " else " ++ no)
        (depend (text "if ")
          (condition ++ newline ++ depend (text "then ") yes ++
            newline ++ depend (text "else ") no))
  | .caseOf scrutinee alts =>
      return depend (text "case ") (← child scrutinee) ++ text " of" ++
        step (underneath (← (← f.arena.slice alts).mapM (f.altLayout child)))
  | .block stmts =>
      return depend (text "do ") (lined (← (← f.arena.slice stmts).mapM (f.stmtLayout child)))
  | .letIn decls body =>
      return depend (text "let ") (lined (← f.declLayouts child decls)) ++ newline ++
        depend (text "in ") (← child body)
  | .record con fields =>
      return text (f.names.lookup con) ++ space ++ (← f.fieldsLayout child fields)
  | .update record fields => return (← child record) ++ space ++ (← f.fieldsLayout child fields)
  | .annot expr type =>
      return depend ((← child expr) ++ text " :: ") (text (← f.typeText type))

end Layers

/-- The layout of an expression that is at most `depth` layers deep. -/
def exprLayoutTo (f : Forest) : (depth : Nat) → ExprId → Except ReadError Layout
  | 0, _ => .error .cyclic
  | depth + 1, id => do f.exprNodeLayout (f.exprLayoutTo depth) id (← f.arena.get id)

/-- The layout of the expression of a number. -/
def exprLayout (f : Forest) (id : ExprId) : Except ReadError Layout :=
  f.exprLayoutTo (f.arena.exprs.size + 1) id

/-- The layout of a declaration whose parts are held in the forest. -/
def declLayout (f : Forest) (d : DeclNode) : Except ReadError Layout :=
  f.declNodeLayout f.exprLayout d

/-! ## Modules -/

/-- What stands between a declaration and the next one: a blank line, except that a
signature stays next to what it describes. -/
def gapAfter : DeclNode → Layout
  | .signature .. => newline
  | _ => newline ++ newline

/-- The declarations that follow `previous`. -/
def layoutAfter (f : Forest) (previous : DeclNode) : List DeclNode → Except ReadError Layout
  | [] => return empty
  | d :: rest => return gapAfter previous ++ (← f.declLayout d) ++ (← f.layoutAfter d rest)

/-- The layout of the module in a range: its declarations, with gaps between them. -/
def moduleLayout (f : Forest) (s : Span .decls) : Except ReadError Layout := do
  match (← f.arena.slice s : List DeclNode) with
  | [] => return empty
  | d :: rest => return (← f.declLayout d) ++ (← f.layoutAfter d rest)

end TrialLayout.Forest
