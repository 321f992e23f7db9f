import TrialLayout.Arena.Read
import TrialLayout.Build
import TrialLayout.Tree.Shape

/-!
# Calls of the builder

A run of the builder is a sequence of calls. Each call is given the handles of parts that were
built before and returns the handle of a new part. Right-hand sides without guards, alternatives,
most statements and declarations by a pattern are values that are put together without touching
the forest; they count as calls, so that all handles of a run come from calls of the run.

* `Call.run` makes a call, `Call.uses` are the handles it is given, and `Call.tree` is what it
  builds, by the trees that the handles stand for.
* `Reached` are the states of runs. A call whose list is refused returns no handle, but what it
  has added stays.
-/

namespace TrialLayout

/-! ## Trees of several parts -/

/-- A type applied to any number of arguments, nested to the left. -/
def Ty.apply (func : Ty) (args : List Ty) : Ty := args.foldl app func

/-- An arrow through any number of components, nested to the right. -/
def Ty.chainOf : List Ty → Ty
  | [] => .tuple .boxed []
  | [last] => last
  | arg :: rest => .arrow arg (chainOf rest)

/-! ## Handles -/

/-- The parts of a program that a call may return. -/
inductive Part where
  | op
  | expr
  | type
  | rhs
  | alt
  | stmt
  | decl
  | module
deriving DecidableEq, Repr

namespace Part

/-- What stands for a part once it has been built. -/
abbrev Handle : Part → Type
  | op => Op Name
  | expr => ExprId
  | type => TypeId
  | rhs => RhsNode
  | alt => AltNode
  | stmt => StmtNode
  | decl => DeclNode
  | module => Span .decls

/-- The trees of a part. -/
abbrev Tree : Part → Type
  | op => Op String
  | expr => Expr
  | type => Ty
  | rhs => Rhs
  | alt => Alt
  | stmt => Stmt
  | decl => Decl
  | module => Module

end Part

/-- The handle of some part. -/
structure Handle where
  part : Part
  value : part.Handle

/-- The tree that a handle stands for. -/
def Forest.read (f : Forest) : (k : Part) → k.Handle → Except ReadError k.Tree
  | .op, op => .ok (f.readOp op)
  | .expr, id => f.readExpr id
  | .type, id => f.readType id
  | .rhs, rhs => f.readRhs f.readExpr rhs
  | .alt, alt => f.readAlt f.readExpr alt
  | .stmt, stmt => f.readStmt f.readExpr stmt
  | .decl, decl => f.readDecl decl
  | .module, decls => f.readModule decls

/-! ## Calls -/

/-- A call of the builder, by the part that it returns. -/
inductive Call : Part → Type where
  | op (symbol : Op String) : Call .op
  | var (name : String) : Call .expr
  | con (name : String) : Call .expr
  | int (value : Int) : Call .expr
  | frac (digits : String) : Call .expr
  | char (value : Char) : Call .expr
  | string (value : String) : Call .expr
  | varQuote (name : String) : Call .expr
  | typeQuote (name : String) : Call .expr
  | wildcard : Call .expr
  | app (func : ExprId) (args : List ExprId) : Call .expr
  | binary (left : ExprId) (symbol : Op String) (right : ExprId) : Call .expr
  | neg (operand : ExprId) : Call .expr
  | leftSection (operand : ExprId) (symbol : Op String) : Call .expr
  | rightSection (symbol : Op String) (operand : ExprId) : Call .expr
  | lambda (params : List ExprId) (body : ExprId) : Call .expr
  | tuple (boxity : Boxity) (items : List ExprId) : Call .expr
  | list (items : List ExprId) : Call .expr
  | paren (inner : ExprId) : Call .expr
  | cond (condition yes no : ExprId) : Call .expr
  | caseOf (scrutinee : ExprId) (alts : List AltNode) : Call .expr
  | block (stmts : List StmtNode) : Call .expr
  | letIn (decls : List DeclNode) (body : ExprId) : Call .expr
  | record (con : String) (entries : List (String × ExprId)) : Call .expr
  | update (record : ExprId) (entries : List (String × ExprId)) : Call .expr
  | annot (expr : ExprId) (type : TypeId) : Call .expr
  | plain (body : ExprId) : Call .rhs
  | guarded (branches : List (List ExprId × ExprId)) : Call .rhs
  | alt (pattern : ExprId) (rhs : RhsNode) : Call .alt
  | bind (pattern expr : ExprId) : Call .stmt
  | stmt (expr : ExprId) : Call .stmt
  | declStmt (decls : List DeclNode) : Call .stmt
  | signature (names : List String) (type : TypeId) : Call .decl
  | function (name : String) (params : List ExprId) (rhs : RhsNode) : Call .decl
  | pattern (pattern : ExprId) (rhs : RhsNode) : Call .decl
  | module (decls : List DeclNode) : Call .module
  | typeCon (name : String) : Call .type
  | typeVar (name : String) : Call .type
  | typeApp (func : TypeId) (args : List TypeId) : Call .type
  | arrow (components : List TypeId) : Call .type
  | typeTuple (boxity : Boxity) (items : List TypeId) : Call .type
  | typeList (element : TypeId) : Call .type
  | typeParen (inner : TypeId) : Call .type
  | quantified (binders : List String) (context : List TypeId) (body : TypeId) : Call .type

namespace Call

/-- Makes a call. -/
def run : {k : Part} → Call k → Build k.Handle
  | _, op symbol => Build.op symbol
  | _, var name => Build.var name
  | _, con name => Build.con name
  | _, int value => Build.int value
  | _, frac digits => Build.frac digits
  | _, char value => Build.char value
  | _, string value => Build.string value
  | _, varQuote name => Build.varQuote name
  | _, typeQuote name => Build.typeQuote name
  | _, wildcard => Build.wildcard
  | _, app func args => Build.app func args
  | _, binary left symbol right => Build.binary left symbol right
  | _, neg operand => Build.neg operand
  | _, leftSection operand symbol => Build.leftSection operand symbol
  | _, rightSection symbol operand => Build.rightSection symbol operand
  | _, lambda params body => Build.lambda params body
  | _, tuple boxity items => Build.tuple boxity items
  | _, list items => Build.listOf items
  | _, paren inner => Build.paren inner
  | _, cond condition yes no => Build.cond condition yes no
  | _, caseOf scrutinee alts => Build.caseOf scrutinee alts
  | _, block stmts => Build.block stmts
  | _, letIn decls body => Build.letIn decls body
  | _, record name entries => Build.record name entries
  | _, update old entries => Build.update old entries
  | _, annot e t => Build.annot e t
  | _, plain body => return .plain body
  | _, guarded branches => Build.guarded branches
  | _, alt p rhs => return ⟨p, rhs⟩
  | _, bind p e => return .bind p e
  | _, stmt e => return .expr e
  | _, declStmt decls => Build.declStmt decls
  | _, signature names t => Build.signature names t
  | _, function name params rhs => Build.function name params rhs
  | _, pattern p rhs => return .pattern p rhs
  | _, module decls => Build.module decls
  | _, typeCon name => Build.typeCon name
  | _, typeVar name => Build.typeVar name
  | _, typeApp func args => Build.typeApp func args
  | _, arrow components => Build.arrow components
  | _, typeTuple boxity items => Build.typeTuple boxity items
  | _, typeList element => Build.typeList element
  | _, typeParen inner => Build.typeParen inner
  | _, quantified binders context body => Build.quantified binders context body

/-- The handles that a call is given. -/
def uses : {k : Part} → Call k → List Handle
  | _, op _ | _, var _ | _, con _ | _, int _ | _, frac _ | _, char _ | _, string _
  | _, varQuote _ | _, typeQuote _ | _, wildcard | _, typeCon _ | _, typeVar _ => []
  | _, app func args => ⟨.expr, func⟩ :: args.map (⟨.expr, ·⟩)
  | _, binary left _ right => [⟨.expr, left⟩, ⟨.expr, right⟩]
  | _, neg e | _, leftSection e _ | _, rightSection _ e | _, paren e | _, plain e | _, stmt e =>
      [⟨.expr, e⟩]
  | _, lambda params body => params.map (⟨.expr, ·⟩) ++ [⟨.expr, body⟩]
  | _, tuple _ items | _, list items => items.map (⟨.expr, ·⟩)
  | _, cond condition yes no => [⟨.expr, condition⟩, ⟨.expr, yes⟩, ⟨.expr, no⟩]
  | _, caseOf scrutinee alts => ⟨.expr, scrutinee⟩ :: alts.map (⟨.alt, ·⟩)
  | _, block stmts => stmts.map (⟨.stmt, ·⟩)
  | _, letIn decls body => decls.map (⟨.decl, ·⟩) ++ [⟨.expr, body⟩]
  | _, record _ entries => entries.map (⟨.expr, ·.2⟩)
  | _, update old entries => ⟨.expr, old⟩ :: entries.map (⟨.expr, ·.2⟩)
  | _, annot e t => [⟨.expr, e⟩, ⟨.type, t⟩]
  | _, guarded branches =>
      branches.flatMap fun (guards, body) => guards.map (⟨.expr, ·⟩) ++ [⟨.expr, body⟩]
  | _, alt p rhs | _, pattern p rhs => [⟨.expr, p⟩, ⟨.rhs, rhs⟩]
  | _, bind p e => [⟨.expr, p⟩, ⟨.expr, e⟩]
  | _, declStmt decls | _, module decls => decls.map (⟨.decl, ·⟩)
  | _, signature _ t => [⟨.type, t⟩]
  | _, function _ params rhs => params.map (⟨.expr, ·⟩) ++ [⟨.rhs, rhs⟩]
  | _, typeApp func args => ⟨.type, func⟩ :: args.map (⟨.type, ·⟩)
  | _, arrow components => components.map (⟨.type, ·⟩)
  | _, typeTuple _ items => items.map (⟨.type, ·⟩)
  | _, typeList t | _, typeParen t => [⟨.type, t⟩]
  | _, quantified _ context body => context.map (⟨.type, ·⟩) ++ [⟨.type, body⟩]

/-- The lengths of the lists that a call allocates. -/
def lengths : {k : Part} → Call k → List Nat
  | _, lambda params _ => [params.length]
  | _, tuple _ items | _, list items => [items.length]
  | _, caseOf _ alts => [alts.length]
  | _, block stmts => [stmts.length]
  | _, letIn decls _ | _, declStmt decls | _, module decls => [decls.length]
  | _, record _ entries | _, update _ entries => [entries.length]
  | _, guarded branches => branches.length :: branches.map (·.1.length)
  | _, signature names _ => [names.length]
  | _, function _ params _ => [params.length]
  | _, typeTuple _ items => [items.length]
  | _, quantified binders context _ => [binders.length, context.length]
  | _, _ => []

/-- No list of a call is too long. -/
def Fits {k : Part} (c : Call k) : Prop := ∀ n ∈ c.lengths, n ≤ maxListLength

instance {k : Part} (c : Call k) : Decidable c.Fits := by
  unfold Fits
  infer_instance

/-- The tree that a call builds from the trees of the handles that it is given. -/
def tree (f : Forest) : {k : Part} → Call k → Except ReadError k.Tree
  | _, op symbol => .ok symbol
  | _, var name => .ok (.var name)
  | _, con name => .ok (.con name)
  | _, int value => .ok (.int value)
  | _, frac digits => .ok (.frac digits)
  | _, char value => .ok (.char value)
  | _, string value => .ok (.string value)
  | _, varQuote name => .ok (.varQuote name)
  | _, typeQuote name => .ok (.typeQuote name)
  | _, wildcard => .ok .wildcard
  | _, app func args => return (← f.read .expr func).apply (← args.mapM (f.read .expr))
  | _, binary left symbol right =>
      return .binary (← f.read .expr left) symbol (← f.read .expr right)
  | _, neg operand => return .neg (← f.read .expr operand)
  | _, leftSection operand symbol => return .leftSection (← f.read .expr operand) symbol
  | _, rightSection symbol operand => return .rightSection symbol (← f.read .expr operand)
  | _, lambda params body =>
      return .lambda (← params.mapM (f.read .expr)) (← f.read .expr body)
  | _, tuple boxity items => return .tuple boxity (← items.mapM (f.read .expr))
  | _, list items => return .list (← items.mapM (f.read .expr))
  | _, paren inner => return .paren (← f.read .expr inner)
  | _, cond condition yes no =>
      return .cond (← f.read .expr condition) (← f.read .expr yes) (← f.read .expr no)
  | _, caseOf scrutinee alts =>
      return .caseOf (← f.read .expr scrutinee) (← alts.mapM (f.read .alt))
  | _, block stmts => return .block (← stmts.mapM (f.read .stmt))
  | _, letIn decls body => return .letIn (← decls.mapM (f.read .decl)) (← f.read .expr body)
  | _, record name entries => return .record name (← entries.mapM (field f))
  | _, update old entries => return .update (← f.read .expr old) (← entries.mapM (field f))
  | _, annot e t => return .annot (← f.read .expr e) (← f.read .type t)
  | _, plain body => return .plain (← f.read .expr body)
  | _, guarded branches => return .guarded (← branches.mapM (branch f))
  | _, alt p rhs => return .mk (← f.read .expr p) (← f.read .rhs rhs)
  | _, bind p e => return .bind (← f.read .expr p) (← f.read .expr e)
  | _, stmt e => return .expr (← f.read .expr e)
  | _, declStmt decls => return .decls (← decls.mapM (f.read .decl))
  | _, signature names t => return .signature names (← f.read .type t)
  | _, function name params rhs =>
      return .function name (← params.mapM (f.read .expr)) (← f.read .rhs rhs)
  | _, pattern p rhs => return .pattern (← f.read .expr p) (← f.read .rhs rhs)
  | _, module decls => decls.mapM (f.read .decl)
  | _, typeCon name => .ok (.con name)
  | _, typeVar name => .ok (.var name)
  | _, typeApp func args => return (← f.read .type func).apply (← args.mapM (f.read .type))
  | _, arrow components => return .chainOf (← components.mapM (f.read .type))
  | _, typeTuple boxity items => return .tuple boxity (← items.mapM (f.read .type))
  | _, typeList element => return .list (← f.read .type element)
  | _, typeParen inner => return .paren (← f.read .type inner)
  | _, quantified binders context body =>
      return .quantified binders (← context.mapM (f.read .type)) (← f.read .type body)
where
  /-- A field by its name and the handle of its value. -/
  field (f : Forest) (entry : String × ExprId) : Except ReadError Field :=
    return .mk entry.1 (← f.read .expr entry.2)
  /-- A branch by the handles of its guards and of its body. -/
  branch (f : Forest) (b : List ExprId × ExprId) : Except ReadError Branch :=
    return .mk (← b.1.mapM (f.read .expr)) (← f.read .expr b.2)

end Call

/-! ## Runs -/

/-- What is left of a forest after building, with the handle that was returned. -/
def Build.on {α : Type} (b : Build α) (f : Forest) : Except ListTooLong α × Forest := b.run f

/-- The states of runs, each a forest and the handles that the calls of the run have returned.
Every call is given handles of the run only. -/
inductive Reached : Forest → List Handle → Prop
  | start : Reached {} []
  | returned {f f' : Forest} {known : List Handle} {k : Part} {c : Call k} {h : k.Handle} :
      Reached f known → c.uses ⊆ known → c.run.on f = (.ok h, f') → Reached f' (⟨k, h⟩ :: known)
  | refused {f f' : Forest} {known : List Handle} {k : Part} {c : Call k} {e : ListTooLong} :
      Reached f known → c.uses ⊆ known → c.run.on f = (.error e, f') → Reached f' known

end TrialLayout
