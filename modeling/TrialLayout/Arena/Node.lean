import TrialLayout.Arena.Handle
import TrialLayout.Name
import TrialLayout.Tree

/-!
# Nodes

One layer of a tree, with numbers in place of names and children, and ranges in place of
lists.
-/

namespace TrialLayout

/-- One layer of a type. -/
inductive TypeNode where
  | con (name : Name)
  | var (name : Name)
  | app (func arg : TypeId)
  | arrow (arg result : TypeId)
  | tuple (boxity : Boxity) (items : Span .types)
  | list (element : TypeId)
  | paren (inner : TypeId)
  | quantified (binders : Span .names) (context : Span .types) (body : TypeId)
deriving DecidableEq, Repr

/-- One layer of an expression. -/
inductive ExprNode where
  | var (name : Name)
  | con (name : Name)
  | int (value : Int)
  | frac (digits : Name)
  | char (value : Char)
  | string (value : Name)
  | varQuote (name : Name)
  | typeQuote (name : Name)
  | wildcard
  | app (func arg : ExprId)
  | binary (left : ExprId) (op : Op Name) (right : ExprId)
  | neg (operand : ExprId)
  | leftSection (operand : ExprId) (op : Op Name)
  | rightSection (op : Op Name) (operand : ExprId)
  | lambda (params : Span .exprs) (body : ExprId)
  | tuple (boxity : Boxity) (items : Span .exprs)
  | list (items : Span .exprs)
  | paren (inner : ExprId)
  | cond (condition yes no : ExprId)
  | caseOf (scrutinee : ExprId) (alts : Span .alts)
  | block (stmts : Span .stmts)
  | letIn (decls : Span .decls) (body : ExprId)
  | record (con : Name) (fields : Span .fields)
  | update (record : ExprId) (fields : Span .fields)
  | annot (expr : ExprId) (type : TypeId)
deriving DecidableEq, Repr

/-- One layer of a right-hand side. -/
inductive RhsNode where
  | plain (body : ExprId)
  | guarded (branches : Span .branches)
deriving DecidableEq, Repr

/-- One layer of a guarded branch. -/
structure BranchNode where
  guards : Span .exprs
  body : ExprId
deriving DecidableEq, Repr

/-- One layer of an alternative. -/
structure AltNode where
  pattern : ExprId
  rhs : RhsNode
deriving DecidableEq, Repr

/-- One layer of a statement. -/
inductive StmtNode where
  | bind (pattern expr : ExprId)
  | expr (expr : ExprId)
  | decls (decls : Span .decls)
deriving DecidableEq, Repr

/-- One layer of a declaration. -/
inductive DeclNode where
  | signature (names : Span .names) (type : TypeId)
  | function (name : Name) (params : Span .exprs) (rhs : RhsNode)
  | pattern (pattern : ExprId) (rhs : RhsNode)
deriving DecidableEq, Repr

/-- One layer of a record field. -/
structure FieldNode where
  name : Name
  value : ExprId
deriving DecidableEq, Repr

namespace ExprNode

/-- A reference to a variable or constructor. -/
def isReference : ExprNode → Bool
  | var _ | con _ => true
  | _ => false

/-- A literal. -/
def isLiteral : ExprNode → Bool
  | int _ | frac _ | char _ | string _ => true
  | _ => false

end ExprNode

/-- The nodes that a number of some kind addresses. -/
abbrev NodeKind.Node : NodeKind → Type
  | .expr => ExprNode
  | .type => TypeNode

/-- The items that a pool holds. -/
abbrev Pool.Item : Pool → Type
  | .exprs => ExprId
  | .types => TypeId
  | .names => Name
  | .decls => DeclNode
  | .stmts => StmtNode
  | .alts => AltNode
  | .branches => BranchNode
  | .fields => FieldNode

end TrialLayout
