import TrialLayout.Arena

/-!
# Reading trees

Following the handles of a forest gives a tree. One layer is read with the reader of the
layers below it as an argument, and the reader of a whole tree descends at most as often
as there are nodes: a longer descent has met some node twice.

An empty range has to lie inside its storage like any other, except where it stands for
the items of a list, the binders of a quantified type or its context: there the length
alone decides.
-/

namespace TrialLayout.Forest

/-- The items of a range, which is passed over if it is empty. -/
def sliceUnlessEmpty (f : Forest) {k : Pool} (s : Span k) : Except ReadError (List k.Item) :=
  if s.isEmpty then .ok [] else f.arena.slice s

/-- The texts of a list of names. -/
def lookupAll (f : Forest) (ns : List Name) : List String := ns.map f.names.lookup

/-- An operator by its text. -/
def readOp (f : Forest) (op : Op Name) : Op String := op.map f.names.lookup

/-! ## Types -/

/-- One layer of a type. -/
def readTypeNode (f : Forest) (child : TypeId → Except ReadError Ty) :
    TypeNode → Except ReadError Ty
  | .con name => .ok (.con (f.names.lookup name))
  | .var name => .ok (.var (f.names.lookup name))
  | .app func arg => return .app (← child func) (← child arg)
  | .arrow arg result => return .arrow (← child arg) (← child result)
  | .tuple boxity items => return .tuple boxity (← (← f.arena.slice items).mapM child)
  | .list element => return .list (← child element)
  | .paren inner => return .paren (← child inner)
  | .quantified binders context body =>
      return .quantified (f.lookupAll (← f.sliceUnlessEmpty binders))
        (← (← f.sliceUnlessEmpty context).mapM child) (← child body)

/-- A type that is at most `depth` layers deep. -/
def readTypeTo (f : Forest) : (depth : Nat) → TypeId → Except ReadError Ty
  | 0, _ => .error .cyclic
  | depth + 1, id => do f.readTypeNode (f.readTypeTo depth) (← f.arena.get id)

/-- The type of a number. -/
def readType (f : Forest) (id : TypeId) : Except ReadError Ty :=
  f.readTypeTo (f.arena.types.size + 1) id

/-! ## Expressions -/

section Layers

variable (f : Forest) (child : ExprId → Except ReadError Expr)

/-- The expressions of a range. -/
def readExprs (s : Span .exprs) : Except ReadError (List Expr) := do
  (← f.arena.slice s).mapM child

/-- A guarded branch. -/
def readBranch (b : BranchNode) : Except ReadError Branch :=
  return .mk (← f.readExprs child b.guards) (← child b.body)

/-- A right-hand side. -/
def readRhs : RhsNode → Except ReadError Rhs
  | .plain body => return .plain (← child body)
  | .guarded branches =>
      return .guarded (← (← f.arena.slice branches).mapM (f.readBranch child))

/-- An alternative. -/
def readAlt (a : AltNode) : Except ReadError Alt :=
  return .mk (← child a.pattern) (← f.readRhs child a.rhs)

/-- A declaration. -/
def readDeclNode : DeclNode → Except ReadError Decl
  | .signature names type =>
      return .signature (f.lookupAll (← f.arena.slice names)) (← f.readType type)
  | .function name params rhs =>
      return .function (f.names.lookup name) (← f.readExprs child params) (← f.readRhs child rhs)
  | .pattern pattern rhs => return .pattern (← child pattern) (← f.readRhs child rhs)

/-- The declarations of a range. -/
def readDecls (s : Span .decls) : Except ReadError (List Decl) := do
  (← f.arena.slice s).mapM (f.readDeclNode child)

/-- A statement. -/
def readStmt : StmtNode → Except ReadError Stmt
  | .bind pattern expr => return .bind (← child pattern) (← child expr)
  | .expr expr => return .expr (← child expr)
  | .decls decls => return .decls (← f.readDecls child decls)

/-- A record field. -/
def readField (field : FieldNode) : Except ReadError Field :=
  return .mk (f.names.lookup field.name) (← child field.value)

/-- The record fields of a range. -/
def readFields (s : Span .fields) : Except ReadError (List Field) := do
  (← f.arena.slice s).mapM (f.readField child)

/-- One layer of an expression. -/
def readExprNode : ExprNode → Except ReadError Expr
  | .var name => .ok (.var (f.names.lookup name))
  | .con name => .ok (.con (f.names.lookup name))
  | .int value => .ok (.int value)
  | .frac digits => .ok (.frac (f.names.lookup digits))
  | .char value => .ok (.char value)
  | .string value => .ok (.string (f.names.lookup value))
  | .varQuote name => .ok (.varQuote (f.names.lookup name))
  | .typeQuote name => .ok (.typeQuote (f.names.lookup name))
  | .wildcard => .ok .wildcard
  | .app func arg => return .app (← child func) (← child arg)
  | .binary left op right => return .binary (← child left) (f.readOp op) (← child right)
  | .neg operand => return .neg (← child operand)
  | .leftSection operand op => return .leftSection (← child operand) (f.readOp op)
  | .rightSection op operand => return .rightSection (f.readOp op) (← child operand)
  | .lambda params body => return .lambda (← f.readExprs child params) (← child body)
  | .tuple boxity items => return .tuple boxity (← f.readExprs child items)
  | .list items => return .list (← (← f.sliceUnlessEmpty items).mapM child)
  | .paren inner => return .paren (← child inner)
  | .cond condition yes no => return .cond (← child condition) (← child yes) (← child no)
  | .caseOf scrutinee alts =>
      return .caseOf (← child scrutinee) (← (← f.arena.slice alts).mapM (f.readAlt child))
  | .block stmts => return .block (← (← f.arena.slice stmts).mapM (f.readStmt child))
  | .letIn decls body => return .letIn (← f.readDecls child decls) (← child body)
  | .record con fields => return .record (f.names.lookup con) (← f.readFields child fields)
  | .update record fields => return .update (← child record) (← f.readFields child fields)
  | .annot expr type => return .annot (← child expr) (← f.readType type)

end Layers

/-- An expression that is at most `depth` layers deep. -/
def readExprTo (f : Forest) : (depth : Nat) → ExprId → Except ReadError Expr
  | 0, _ => .error .cyclic
  | depth + 1, id => do f.readExprNode (f.readExprTo depth) (← f.arena.get id)

/-- The expression of a number. -/
def readExpr (f : Forest) (id : ExprId) : Except ReadError Expr :=
  f.readExprTo (f.arena.exprs.size + 1) id

/-- A declaration whose parts are read from the forest. -/
def readDecl (f : Forest) (d : DeclNode) : Except ReadError Decl :=
  f.readDeclNode f.readExpr d

/-- The module whose declarations a range holds. -/
def readModule (f : Forest) (s : Span .decls) : Except ReadError Module :=
  f.readDecls f.readExpr s

end TrialLayout.Forest
