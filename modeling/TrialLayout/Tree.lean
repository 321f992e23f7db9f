/-!
# Trees

The expression language that is laid out: types, expressions, and the statements,
alternatives, right-hand sides, record fields and declarations inside them. Patterns are
expressions. An application has one argument, so that a call with several arguments nests
to the left; an arrow of several components nests to the right.
-/

namespace TrialLayout

/-- The delimiters of a tuple. -/
inductive Boxity where
  | boxed
  | unboxed
deriving DecidableEq, Repr

instance : Inhabited Boxity := ⟨.boxed⟩

namespace Boxity

/-- The opening delimiter. -/
def opening : Boxity → String
  | boxed => "("
  | unboxed => "(# "

/-- The closing delimiter. -/
def closing : Boxity → String
  | boxed => ")"
  | unboxed => " #)"

/-- A tuple without items. -/
def unit : Boxity → String
  | boxed => "()"
  | unboxed => "(# #)"

end Boxity

/-- An operator, over the type `α` of names. -/
inductive Op (α : Type) where
  /-- A symbol such as `+`. -/
  | symbol (name : α)
  /-- An identifier between backticks. -/
  | quoted (name : α)
deriving DecidableEq, Repr

namespace Op

/-- The name of an operator. -/
def name {α : Type} : Op α → α
  | symbol name => name
  | quoted name => name

/-- Renames an operator. -/
def map {α β : Type} (f : α → β) : Op α → Op β
  | symbol name => symbol (f name)
  | quoted name => quoted (f name)

/-- The spelling of an operator between its operands. -/
def spelling : Op String → String
  | symbol name => name
  | quoted name => "`" ++ name ++ "`"

end Op

/-- A type. -/
inductive Ty where
  | con (name : String)
  | var (name : String)
  | app (func arg : Ty)
  | arrow (arg result : Ty)
  | tuple (boxity : Boxity) (items : List Ty)
  | list (element : Ty)
  | paren (inner : Ty)
  /-- Explicit binders and a class context, either of which may be empty. -/
  | quantified (binders : List String) (context : List Ty) (body : Ty)
deriving Repr

mutual

/-- An expression or pattern. -/
inductive Expr where
  | var (name : String)
  | con (name : String)
  | int (value : Int)
  /-- A fractional literal, by its digits. -/
  | frac (digits : String)
  | char (value : Char)
  | string (value : String)
  /-- A quoted value name. -/
  | varQuote (name : String)
  /-- A quoted type name. -/
  | typeQuote (name : String)
  | wildcard
  | app (func arg : Expr)
  | binary (left : Expr) (op : Op String) (right : Expr)
  | neg (operand : Expr)
  | leftSection (operand : Expr) (op : Op String)
  | rightSection (op : Op String) (operand : Expr)
  | lambda (params : List Expr) (body : Expr)
  | tuple (boxity : Boxity) (items : List Expr)
  | list (items : List Expr)
  | paren (inner : Expr)
  | cond (condition yes no : Expr)
  | caseOf (scrutinee : Expr) (alts : List Alt)
  | block (stmts : List Stmt)
  | letIn (decls : List Decl) (body : Expr)
  | record (con : String) (fields : List Field)
  | update (record : Expr) (fields : List Field)
  | annot (expr : Expr) (type : Ty)

/-- The right-hand side of a binding or alternative. -/
inductive Rhs where
  | plain (body : Expr)
  | guarded (branches : List Branch)

/-- Guards and the body they lead to. -/
inductive Branch where
  | mk (guards : List Expr) (body : Expr)

/-- A case alternative. -/
inductive Alt where
  | mk (pattern : Expr) (rhs : Rhs)

/-- A statement of a block. -/
inductive Stmt where
  | bind (pattern : Expr) (expr : Expr)
  | expr (expr : Expr)
  | decls (decls : List Decl)

/-- A declaration. -/
inductive Decl where
  | signature (names : List String) (type : Ty)
  | function (name : String) (params : List Expr) (rhs : Rhs)
  | pattern (pattern : Expr) (rhs : Rhs)

/-- A field of a record with its value. -/
inductive Field where
  | mk (name : String) (value : Expr)

end

/-- The declarations of a module, in order. -/
abbrev Module := List Decl

end TrialLayout
