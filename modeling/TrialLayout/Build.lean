import TrialLayout.Arena

/-!
# Building trees

Trees are built from the leaves up: each call interns the names it is given, allocates the
lists it is given and then the node, and returns the handle of the node. The only failure
is a list that is too long; what was allocated before it stays.
-/

namespace TrialLayout

/-- A computation that adds to a forest. A failure keeps what was added before it. -/
abbrev Build := ExceptT ListTooLong (StateM Forest)

namespace Build

/-! ## Steps -/

/-- The name of a text. -/
def intern (text : String) : Build Name :=
  modifyGet fun f =>
    let (name, names) := f.names.intern text
    (name, { f with names })

/-- The names of several texts, in order. -/
def internAll (texts : List String) : Build (List Name) := texts.mapM intern

/-- Allocates an expression. -/
def expr (node : ExprNode) : Build ExprId :=
  modifyGet fun f =>
    let (id, arena) := f.arena.alloc .expr node
    (id, { f with arena })

/-- Allocates a type. -/
def type (node : TypeNode) : Build TypeId :=
  modifyGet fun f =>
    let (id, arena) := f.arena.alloc .type node
    (id, { f with arena })

/-- Allocates a list. -/
def list (k : Pool) (items : List k.Item) : Build (Span k) :=
  .mk fun f =>
    let (outcome, arena) := f.arena.allocList k items
    (outcome, { f with arena })

/-- Interns the name of an operator. -/
def op : Op String → Build (Op Name)
  | .symbol name => return .symbol (← intern name)
  | .quoted name => return .quoted (← intern name)

/-! ## Leaves -/

/-- A variable. -/
def var (name : String) : Build ExprId := do expr (.var (← intern name))

/-- A constructor. -/
def con (name : String) : Build ExprId := do expr (.con (← intern name))

/-- An integer literal. -/
def int (value : Int) : Build ExprId := expr (.int value)

/-- A fractional literal. -/
def frac (digits : String) : Build ExprId := do expr (.frac (← intern digits))

/-- A character literal. -/
def char (value : Char) : Build ExprId := expr (.char value)

/-- A string literal. -/
def string (value : String) : Build ExprId := do expr (.string (← intern value))

/-- A quoted value name. -/
def varQuote (name : String) : Build ExprId := do expr (.varQuote (← intern name))

/-- A quoted type name. -/
def typeQuote (name : String) : Build ExprId := do expr (.typeQuote (← intern name))

/-- A wildcard. -/
def wildcard : Build ExprId := expr .wildcard

/-! ## Compound expressions -/

/-- A call with any number of arguments; without any it is the function itself. -/
def app (func : ExprId) (args : List ExprId) : Build ExprId :=
  args.foldlM (fun func arg => expr (.app func arg)) func

/-- An operator between two operands. -/
def binary (left : ExprId) (symbol : Op String) (right : ExprId) : Build ExprId := do
  expr (.binary left (← op symbol) right)

/-- A negation. -/
def neg (operand : ExprId) : Build ExprId := expr (.neg operand)

/-- An operator that lacks its right operand. -/
def leftSection (operand : ExprId) (symbol : Op String) : Build ExprId := do
  expr (.leftSection operand (← op symbol))

/-- An operator that lacks its left operand. -/
def rightSection (symbol : Op String) (operand : ExprId) : Build ExprId := do
  expr (.rightSection (← op symbol) operand)

/-- A lambda. -/
def lambda (params : List ExprId) (body : ExprId) : Build ExprId := do
  expr (.lambda (← list .exprs params) body)

/-- A tuple. -/
def tuple (boxity : Boxity) (items : List ExprId) : Build ExprId := do
  expr (.tuple boxity (← list .exprs items))

/-- A list literal. -/
def listOf (items : List ExprId) : Build ExprId := do expr (.list (← list .exprs items))

/-- An expression in parentheses. -/
def paren (inner : ExprId) : Build ExprId := expr (.paren inner)

/-- A conditional. -/
def cond (condition yes no : ExprId) : Build ExprId := expr (.cond condition yes no)

/-- A case expression. -/
def caseOf (scrutinee : ExprId) (alts : List AltNode) : Build ExprId := do
  expr (.caseOf scrutinee (← list .alts alts))

/-- A block of statements. -/
def block (stmts : List StmtNode) : Build ExprId := do expr (.block (← list .stmts stmts))

/-- Local declarations and a body. -/
def letIn (decls : List DeclNode) (body : ExprId) : Build ExprId := do
  expr (.letIn (← list .decls decls) body)

/-- Record fields, with their names interned in order. -/
def fields (entries : List (String × ExprId)) : Build (Span .fields) := do
  list .fields (← entries.mapM fun (name, value) => return ⟨← intern name, value⟩)

/-- A record made with a constructor. -/
def record (con : String) (entries : List (String × ExprId)) : Build ExprId := do
  let con ← intern con
  expr (.record con (← fields entries))

/-- A record with some fields replaced. -/
def update (record : ExprId) (entries : List (String × ExprId)) : Build ExprId := do
  expr (.update record (← fields entries))

/-- An expression with its type. -/
def annot (e : ExprId) (t : TypeId) : Build ExprId := expr (.annot e t)

/-! ## Right-hand sides, statements and declarations -/

/-- Guarded branches, each with its guards and its body. -/
def guarded (branches : List (List ExprId × ExprId)) : Build RhsNode := do
  let nodes ← branches.mapM fun (guards, body) => return ⟨← list .exprs guards, body⟩
  return .guarded (← list .branches nodes)

/-- A statement that declares. -/
def declStmt (decls : List DeclNode) : Build StmtNode :=
  return .decls (← list .decls decls)

/-- A type signature. -/
def signature (names : List String) (t : TypeId) : Build DeclNode := do
  let names ← internAll names
  return .signature (← list .names names) t

/-- One equation of a function. -/
def function (name : String) (params : List ExprId) (rhs : RhsNode) : Build DeclNode := do
  let name ← intern name
  return .function name (← list .exprs params) rhs

/-- The declarations of a module. -/
def module (decls : List DeclNode) : Build (Span .decls) := list .decls decls

/-! ## Types -/

/-- A type constructor. -/
def typeCon (name : String) : Build TypeId := do type (.con (← intern name))

/-- A type variable. -/
def typeVar (name : String) : Build TypeId := do type (.var (← intern name))

/-- A type applied to any number of arguments; without any it is the type itself. -/
def typeApp (func : TypeId) (args : List TypeId) : Build TypeId :=
  args.foldlM (fun func arg => type (.app func arg)) func

/-- A tuple type. -/
def typeTuple (boxity : Boxity) (items : List TypeId) : Build TypeId := do
  type (.tuple boxity (← list .types items))

/-- An arrow through any number of components, nested to the right. One component is that
type itself, and no component is the unit type. -/
def arrow : List TypeId → Build TypeId
  | [] => typeTuple .boxed []
  | [last] => return last
  | arg :: rest => do
      let result ← arrow rest
      type (.arrow arg result)

/-- A list type. -/
def typeList (element : TypeId) : Build TypeId := type (.list element)

/-- A type in parentheses. -/
def typeParen (inner : TypeId) : Build TypeId := type (.paren inner)

/-- A type with binders and a class context. -/
def quantified (binders : List String) (context : List TypeId) (body : TypeId) :
    Build TypeId := do
  let binders ← internAll binders
  let binders ← list .names binders
  let context ← list .types context
  type (.quantified binders context body)

end Build

end TrialLayout
