import TrialLayout.Text.Literal
import TrialLayout.Tree.TypeLayout

/-!
# Layout of expressions and declarations

Each shape of tree has one rule that puts its layout together from the layouts of its
parts. Two enclosing shapes look at an expression from a different side, so the rules
produce several forms of it at once:

* the form it has by itself;
* the form it has as a statement of a block, where a broken operator continues past the
  column of the statement;
* its spine, for an application to which it contributes the head and the first arguments.
-/

namespace TrialLayout

/-- The layouts that an expression contributes to its surroundings. -/
inductive Forms where
  /-- An expression that looks the same from every side. -/
  | uniform (layout : Layout)
  /-- An operator between two operands, by itself and as a statement. -/
  | operation (alone asStatement : Layout)
  /-- The spine of an application, with its arguments from the last to the first. -/
  | spine (head : Layout) (reversed : List Layout.Argument)
deriving DecidableEq, Repr

namespace Forms

/-- The expression by itself. -/
def whole : Forms → Layout
  | uniform layout => layout
  | operation alone _ => alone
  | spine head reversed => .application head reversed.reverse

/-- The expression as a statement. -/
def statement : Forms → Layout
  | operation _ asStatement => asStatement
  | forms => forms.whole

/-- The head of its spine. -/
def head : Forms → Layout
  | spine head _ => head
  | forms => forms.whole

/-- The arguments of its spine, from the last to the first. -/
def reversedArgs : Forms → List Layout.Argument
  | spine _ reversed => reversed
  | _ => []

/-- The arguments of its spine. -/
def args (forms : Forms) : List Layout.Argument := forms.reversedArgs.reverse

/-- An application of a spine to one more argument. -/
def apply (func : Forms) (arg : Layout.Argument) : Forms :=
  spine func.head (arg :: func.reversedArgs)

/-- The forms of an operator between two operands: as a statement, the broken form
continues past the column of the statement. -/
def ofOperation (flat : Bool) (left : Layout) (op : String) (right : Layout) : Forms :=
  operation (.operation flat left op right .seq) (.operation flat left op right .resume)

@[simp] theorem head_apply (func : Forms) (arg : Layout.Argument) :
    (func.apply arg).head = func.head := rfl

@[simp] theorem args_apply (func : Forms) (arg : Layout.Argument) :
    (func.apply arg).args = func.args ++ [arg] := by
  simp [args, apply, reversedArgs]

@[simp] theorem whole_apply (func : Forms) (arg : Layout.Argument) :
    (func.apply arg).whole = .application func.head (func.args ++ [arg]) := by
  simp [args, apply, whole]

end Forms

open Layout in
mutual

/-- The layouts of an expression. -/
def Expr.forms : Expr → Forms
  | .var name => .uniform (text name)
  | .con name => .uniform (text name)
  | .int value => .uniform (text value.repr)
  | .frac digits => .uniform (text digits)
  | .char value => .uniform (text (Text.charLiteral value))
  | .string value => .uniform (text (Text.stringLiteral value))
  | .varQuote name => .uniform (text ("'" ++ name))
  | .typeQuote name => .uniform (text ("''" ++ name))
  | .wildcard => .uniform (text "_")
  | .app func arg => func.forms.apply ⟨arg.forms.whole, arg.isFlat⟩
  | .binary left op right =>
      .ofOperation (left.isFlat && right.isFlat) left.forms.whole op.spelling right.forms.whole
  | .neg operand => .uniform (text "-" ++ operand.forms.whole)
  | .leftSection operand op =>
      .uniform (depend (text "(") (operand.forms.whole ++ space ++ text op.spelling ++ text ")"))
  | .rightSection op operand =>
      .uniform (depend (text "(" ++ text op.spelling ++ space) (operand.forms.whole ++ text ")"))
  | .lambda params body =>
      .uniform (depend (text "\\")
        (spaced (Expr.layouts params) ++ attach " -> " body.isFlat (shift 1 body.forms.whole)))
  | .tuple boxity items =>
      .uniform (if items.isEmpty then text boxity.unit
        else bracketed boxity.opening boxity.closing (Expr.layouts items))
  | .list items =>
      .uniform (if items.isEmpty then text "[]" else bracketedWhole "[" "]" (Expr.layouts items))
  | .paren inner => .uniform (depend (text "(") (inner.forms.whole ++ text ")"))
  | .cond condition yes no =>
      .uniform (attempt .line
        (text "if " ++ condition.forms.whole ++ text " then " ++ yes.forms.whole ++
          text " else " ++ no.forms.whole)
        (depend (text "if ")
          (condition.forms.whole ++ newline ++ depend (text "then ") yes.forms.whole ++
            newline ++ depend (text "else ") no.forms.whole)))
  | .caseOf scrutinee alts =>
      .uniform (depend (text "case ") scrutinee.forms.whole ++ text " of" ++
        step (underneath (Alt.layouts alts)))
  | .block stmts => .uniform (depend (text "do ") (lined (Stmt.layouts stmts)))
  | .letIn decls body =>
      .uniform (depend (text "let ") (lined (Decl.layouts decls)) ++ newline ++
        depend (text "in ") body.forms.whole)
  | .record con fields =>
      .uniform (text con ++ space ++ bracketed "\x7b" "\x7d" (Field.layouts fields))
  | .update record fields =>
      .uniform (record.forms.whole ++ space ++ bracketed "\x7b" "\x7d" (Field.layouts fields))
  | .annot expr type =>
      .uniform (depend (expr.forms.whole ++ text " :: ") (text type.inline))

/-- The layouts of several expressions. -/
def Expr.layouts : List Expr → List Layout
  | [] => []
  | e :: rest => e.forms.whole :: Expr.layouts rest

/-- A right-hand side after its binding or pattern: the body behind `separator`, or one
guarded branch a line. -/
def Rhs.layout (separator : String) : Rhs → Layout
  | .plain body => step (attach separator body.isFlat body.forms.whole)
  | .guarded branches => step (underneath (Branch.layouts separator branches))

/-- A guarded branch: the guards behind a bar, one below the other, and the body. -/
def Branch.layout (separator : String) : Branch → Layout
  | .mk guards body =>
      text "|" ++ shift 1
        (stacked "," ((Expr.layouts guards).map (space ++ ·)) ++
          attach separator body.isFlat (shift 1 body.forms.whole))

/-- The layouts of several guarded branches. -/
def Branch.layouts (separator : String) : List Branch → List Layout
  | [] => []
  | b :: rest => b.layout separator :: Branch.layouts separator rest

/-- A case alternative. -/
def Alt.layout : Alt → Layout
  | .mk pattern rhs => pattern.forms.whole ++ rhs.layout " -> "

/-- The layouts of several alternatives. -/
def Alt.layouts : List Alt → List Layout
  | [] => []
  | a :: rest => a.layout :: Alt.layouts rest

/-- A statement. -/
def Stmt.layout : Stmt → Layout
  | .bind pattern expr =>
      pattern.forms.whole ++ step (attach " <- " expr.isFlat expr.forms.whole)
  | .expr expr => expr.forms.statement
  | .decls decls => depend (text "let ") (lined (Decl.layouts decls))

/-- The layouts of several statements. -/
def Stmt.layouts : List Stmt → List Layout
  | [] => []
  | s :: rest => s.layout :: Stmt.layouts rest

/-- A declaration. -/
def Decl.layout : Decl → Layout
  | .signature names type => Decl.signatureLayout names type
  | .function name params rhs =>
      text name ++ concat ((Expr.layouts params).map (space ++ ·)) ++ rhs.layout " = "
  | .pattern pattern rhs => pattern.forms.whole ++ rhs.layout " = "

/-- The layouts of several declarations. -/
def Decl.layouts : List Decl → List Layout
  | [] => []
  | d :: rest => d.layout :: Decl.layouts rest

/-- A record field. -/
def Field.layout : Field → Layout
  | .mk name value => text name ++ attach " = " value.isFlat value.forms.whole

/-- The layouts of several record fields. -/
def Field.layouts : List Field → List Layout
  | [] => []
  | f :: rest => f.layout :: Field.layouts rest

end

/-- The layout of an expression by itself. -/
def Expr.layout (e : Expr) : Layout := e.forms.whole

/-! ## Lists of parts -/

theorem Expr.layouts_eq_map (es : List Expr) :
    Expr.layouts es = es.map Expr.layout := by
  induction es with
  | nil => rfl
  | cons e rest ih =>
    rw [Expr.layouts, ih, List.map_cons]
    rfl

theorem Branch.layouts_eq_map (separator : String) (bs : List Branch) :
    Branch.layouts separator bs = bs.map (Branch.layout separator) := by
  induction bs with
  | nil => rfl
  | cons b rest ih => rw [Branch.layouts, ih, List.map_cons]

theorem Alt.layouts_eq_map (as : List Alt) :
    Alt.layouts as = as.map Alt.layout := by
  induction as with
  | nil => rfl
  | cons a rest ih => rw [Alt.layouts, ih, List.map_cons]

theorem Stmt.layouts_eq_map (ss : List Stmt) :
    Stmt.layouts ss = ss.map Stmt.layout := by
  induction ss with
  | nil => rfl
  | cons s rest ih => rw [Stmt.layouts, ih, List.map_cons]

theorem Decl.layouts_eq_map (ds : List Decl) :
    Decl.layouts ds = ds.map Decl.layout := by
  induction ds with
  | nil => rfl
  | cons d rest ih => rw [Decl.layouts, ih, List.map_cons]

theorem Field.layouts_eq_map (fs : List Field) :
    Field.layouts fs = fs.map Field.layout := by
  induction fs with
  | nil => rfl
  | cons f rest ih => rw [Field.layouts, ih, List.map_cons]

/-! ## Spines -/

namespace Expr

/-- An expression as an argument of an application. -/
def argument (e : Expr) : Layout.Argument := ⟨e.layout, e.isFlat⟩

theorem forms_head : (e : Expr) → e.forms.head = e.head.layout
  | app func arg => by
      rw [forms, Forms.head_apply, head]
      exact func.forms_head
  | var _ | con _ | int _ | frac _ | char _ | string _ | varQuote _ | typeQuote _ | wildcard
  | binary .. | neg _ | leftSection .. | rightSection .. | lambda .. | tuple .. | list _ | paren _
  | cond .. | caseOf .. | block _ | letIn .. | record .. | update .. | annot .. => rfl

theorem forms_args : (e : Expr) → e.forms.args = e.args.map argument
  | app func arg => by
      rw [forms, Forms.args_apply, args, List.map_append, ← func.forms_args]
      rfl
  | var _ | con _ | int _ | frac _ | char _ | string _ | varQuote _ | typeQuote _ | wildcard
  | binary .. | neg _ | leftSection .. | rightSection .. | lambda .. | tuple .. | list _ | paren _
  | cond .. | caseOf .. | block _ | letIn .. | record .. | update .. | annot .. => rfl

/-- An application is laid out by the head and the arguments of its spine. -/
theorem layout_app (func arg : Expr) :
    (app func arg).layout =
      .application func.head.layout ((func.args ++ [arg]).map argument) := by
  rw [layout, forms, Forms.whole_apply, forms_head, forms_args, List.map_append]
  rfl

end Expr

/-! ## Modules -/

namespace Module

/-- What stands between a declaration and the next one: a blank line, except that a
signature stays next to what it describes. -/
def gap (previous : Decl) : Layout :=
  if previous.isSignature then .newline else .newline ++ .newline

/-- The declarations that follow `previous`. -/
def layoutAfter (previous : Decl) : List Decl → Layout
  | [] => .empty
  | d :: rest => gap previous ++ d.layout ++ layoutAfter d rest

/-- A module: its declarations, with gaps between them. -/
def layout : Module → Layout
  | [] => .empty
  | d :: rest => d.layout ++ layoutAfter d rest

end Module

end TrialLayout
