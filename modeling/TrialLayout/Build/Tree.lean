import TrialLayout.Build.Call

/-!
# Building whole trees

A tree is built by a call for each of its parts, children first and in the order in which they
stand. All lists have to be short enough (`Fits`); the number of nodes is not limited.
-/

namespace TrialLayout

/-! ## Types -/

mutual

/-- Builds a type. -/
def Ty.build : Ty → Build TypeId
  | .con name => (Call.typeCon name).run
  | .var name => (Call.typeVar name).run
  | .app func arg => do
      let func ← func.build
      let arg ← arg.build
      (Call.typeApp func [arg]).run
  | .arrow arg result => do
      let arg ← arg.build
      let result ← result.build
      (Call.arrow [arg, result]).run
  | .tuple boxity items => do
      let items ← Ty.buildAll items
      (Call.typeTuple boxity items).run
  | .list element => do
      let element ← element.build
      (Call.typeList element).run
  | .paren inner => do
      let inner ← inner.build
      (Call.typeParen inner).run
  | .quantified binders context body => do
      let context ← Ty.buildAll context
      let body ← body.build
      (Call.quantified binders context body).run

/-- Builds several types. -/
def Ty.buildAll : List Ty → Build (List TypeId)
  | [] => return []
  | t :: rest => do
      let t ← t.build
      return t :: (← Ty.buildAll rest)

end

mutual

/-- No list in a type is too long. -/
def Ty.Fits : Ty → Prop
  | .con _ | .var _ => True
  | .app func arg => func.Fits ∧ arg.Fits
  | .arrow arg result => arg.Fits ∧ result.Fits
  | .tuple _ items => Ty.AllFit items ∧ items.length ≤ maxListLength
  | .list element => element.Fits
  | .paren inner => inner.Fits
  | .quantified binders context body =>
      Ty.AllFit context ∧ body.Fits ∧
        binders.length ≤ maxListLength ∧ context.length ≤ maxListLength

/-- No list in any of several types is too long. -/
def Ty.AllFit : List Ty → Prop
  | [] => True
  | t :: rest => t.Fits ∧ Ty.AllFit rest

end

/-! ## Expressions -/

mutual

/-- Builds an expression. -/
def Expr.build : Expr → Build ExprId
  | .var name => (Call.var name).run
  | .con name => (Call.con name).run
  | .int value => (Call.int value).run
  | .frac digits => (Call.frac digits).run
  | .char value => (Call.char value).run
  | .string value => (Call.string value).run
  | .varQuote name => (Call.varQuote name).run
  | .typeQuote name => (Call.typeQuote name).run
  | .wildcard => Call.wildcard.run
  | .app func arg => do
      let func ← func.build
      let arg ← arg.build
      (Call.app func [arg]).run
  | .binary left op right => do
      let left ← left.build
      let right ← right.build
      (Call.binary left op right).run
  | .neg operand => do
      let operand ← operand.build
      (Call.neg operand).run
  | .leftSection operand op => do
      let operand ← operand.build
      (Call.leftSection operand op).run
  | .rightSection op operand => do
      let operand ← operand.build
      (Call.rightSection op operand).run
  | .lambda params body => do
      let params ← Expr.buildAll params
      let body ← body.build
      (Call.lambda params body).run
  | .tuple boxity items => do
      let items ← Expr.buildAll items
      (Call.tuple boxity items).run
  | .list items => do
      let items ← Expr.buildAll items
      (Call.list items).run
  | .paren inner => do
      let inner ← inner.build
      (Call.paren inner).run
  | .cond condition yes no => do
      let condition ← condition.build
      let yes ← yes.build
      let no ← no.build
      (Call.cond condition yes no).run
  | .caseOf scrutinee alts => do
      let scrutinee ← scrutinee.build
      let alts ← Alt.buildAll alts
      (Call.caseOf scrutinee alts).run
  | .block stmts => do
      let stmts ← Stmt.buildAll stmts
      (Call.block stmts).run
  | .letIn decls body => do
      let decls ← Decl.buildAll decls
      let body ← body.build
      (Call.letIn decls body).run
  | .record con fields => do
      let entries ← Field.buildAll fields
      (Call.record con entries).run
  | .update record fields => do
      let record ← record.build
      let entries ← Field.buildAll fields
      (Call.update record entries).run
  | .annot expr type => do
      let expr ← expr.build
      let type ← type.build
      (Call.annot expr type).run

/-- Builds several expressions. -/
def Expr.buildAll : List Expr → Build (List ExprId)
  | [] => return []
  | e :: rest => do
      let e ← e.build
      return e :: (← Expr.buildAll rest)

/-- Builds a right-hand side. -/
def Rhs.build : Rhs → Build RhsNode
  | .plain body => do
      let body ← body.build
      (Call.plain body).run
  | .guarded branches => do
      let branches ← Branch.buildAll branches
      (Call.guarded branches).run

/-- Builds the parts of a guarded branch. -/
def Branch.build : Branch → Build (List ExprId × ExprId)
  | .mk guards body => do
      let guards ← Expr.buildAll guards
      return (guards, ← body.build)

/-- Builds the parts of several guarded branches. -/
def Branch.buildAll : List Branch → Build (List (List ExprId × ExprId))
  | [] => return []
  | b :: rest => do
      let b ← b.build
      return b :: (← Branch.buildAll rest)

/-- Builds an alternative. -/
def Alt.build : Alt → Build AltNode
  | .mk pattern rhs => do
      let pattern ← pattern.build
      let rhs ← rhs.build
      (Call.alt pattern rhs).run

/-- Builds several alternatives. -/
def Alt.buildAll : List Alt → Build (List AltNode)
  | [] => return []
  | a :: rest => do
      let a ← a.build
      return a :: (← Alt.buildAll rest)

/-- Builds a statement. -/
def Stmt.build : Stmt → Build StmtNode
  | .bind pattern expr => do
      let pattern ← pattern.build
      let expr ← expr.build
      (Call.bind pattern expr).run
  | .expr expr => do
      let expr ← expr.build
      (Call.stmt expr).run
  | .decls decls => do
      let decls ← Decl.buildAll decls
      (Call.declStmt decls).run

/-- Builds several statements. -/
def Stmt.buildAll : List Stmt → Build (List StmtNode)
  | [] => return []
  | s :: rest => do
      let s ← s.build
      return s :: (← Stmt.buildAll rest)

/-- Builds a declaration. -/
def Decl.build : Decl → Build DeclNode
  | .signature names type => do
      let type ← type.build
      (Call.signature names type).run
  | .function name params rhs => do
      let params ← Expr.buildAll params
      let rhs ← rhs.build
      (Call.function name params rhs).run
  | .pattern pattern rhs => do
      let pattern ← pattern.build
      let rhs ← rhs.build
      (Call.pattern pattern rhs).run

/-- Builds several declarations. -/
def Decl.buildAll : List Decl → Build (List DeclNode)
  | [] => return []
  | d :: rest => do
      let d ← d.build
      return d :: (← Decl.buildAll rest)

/-- Builds the value of a field. -/
def Field.build : Field → Build (String × ExprId)
  | .mk name value => return (name, ← value.build)

/-- Builds the values of several fields. -/
def Field.buildAll : List Field → Build (List (String × ExprId))
  | [] => return []
  | field :: rest => do
      let entry ← field.build
      return entry :: (← Field.buildAll rest)

end

mutual

/-- No list in an expression is too long. -/
def Expr.Fits : Expr → Prop
  | .var _ | .con _ | .int _ | .frac _ | .char _ | .string _ | .varQuote _ | .typeQuote _ => True
  | .wildcard => True
  | .app func arg => func.Fits ∧ arg.Fits
  | .binary left _ right => left.Fits ∧ right.Fits
  | .neg operand => operand.Fits
  | .leftSection operand _ => operand.Fits
  | .rightSection _ operand => operand.Fits
  | .lambda params body => Expr.AllFit params ∧ body.Fits ∧ params.length ≤ maxListLength
  | .tuple _ items => Expr.AllFit items ∧ items.length ≤ maxListLength
  | .list items => Expr.AllFit items ∧ items.length ≤ maxListLength
  | .paren inner => inner.Fits
  | .cond condition yes no => condition.Fits ∧ yes.Fits ∧ no.Fits
  | .caseOf scrutinee alts => scrutinee.Fits ∧ Alt.AllFit alts ∧ alts.length ≤ maxListLength
  | .block stmts => Stmt.AllFit stmts ∧ stmts.length ≤ maxListLength
  | .letIn decls body => Decl.AllFit decls ∧ body.Fits ∧ decls.length ≤ maxListLength
  | .record _ fields => Field.AllFit fields ∧ fields.length ≤ maxListLength
  | .update record fields =>
      record.Fits ∧ Field.AllFit fields ∧ fields.length ≤ maxListLength
  | .annot expr type => expr.Fits ∧ type.Fits

/-- No list in any of several expressions is too long. -/
def Expr.AllFit : List Expr → Prop
  | [] => True
  | e :: rest => e.Fits ∧ Expr.AllFit rest

/-- No list in a right-hand side is too long. -/
def Rhs.Fits : Rhs → Prop
  | .plain body => body.Fits
  | .guarded branches => Branch.AllFit branches ∧ branches.length ≤ maxListLength

/-- No list in a guarded branch is too long. -/
def Branch.Fits : Branch → Prop
  | .mk guards body => Expr.AllFit guards ∧ body.Fits ∧ guards.length ≤ maxListLength

/-- No list in any of several guarded branches is too long. -/
def Branch.AllFit : List Branch → Prop
  | [] => True
  | b :: rest => b.Fits ∧ Branch.AllFit rest

/-- No list in an alternative is too long. -/
def Alt.Fits : Alt → Prop
  | .mk pattern rhs => pattern.Fits ∧ rhs.Fits

/-- No list in any of several alternatives is too long. -/
def Alt.AllFit : List Alt → Prop
  | [] => True
  | a :: rest => a.Fits ∧ Alt.AllFit rest

/-- No list in a statement is too long. -/
def Stmt.Fits : Stmt → Prop
  | .bind pattern expr => pattern.Fits ∧ expr.Fits
  | .expr expr => expr.Fits
  | .decls decls => Decl.AllFit decls ∧ decls.length ≤ maxListLength

/-- No list in any of several statements is too long. -/
def Stmt.AllFit : List Stmt → Prop
  | [] => True
  | s :: rest => s.Fits ∧ Stmt.AllFit rest

/-- No list in a declaration is too long. -/
def Decl.Fits : Decl → Prop
  | .signature names type => type.Fits ∧ names.length ≤ maxListLength
  | .function _ params rhs => Expr.AllFit params ∧ rhs.Fits ∧ params.length ≤ maxListLength
  | .pattern pattern rhs => pattern.Fits ∧ rhs.Fits

/-- No list in any of several declarations is too long. -/
def Decl.AllFit : List Decl → Prop
  | [] => True
  | d :: rest => d.Fits ∧ Decl.AllFit rest

/-- No list in a field is too long. -/
def Field.Fits : Field → Prop
  | .mk _ value => value.Fits

/-- No list in any of several fields is too long. -/
def Field.AllFit : List Field → Prop
  | [] => True
  | field :: rest => field.Fits ∧ Field.AllFit rest

end

/-! ## Parts -/

/-- Builds a part. -/
def Part.build : (k : Part) → k.Tree → Build k.Handle
  | op, symbol => (Call.op symbol).run
  | expr, e => Expr.build e
  | type, t => Ty.build t
  | rhs, r => Rhs.build r
  | alt, a => Alt.build a
  | stmt, s => Stmt.build s
  | decl, d => Decl.build d
  | module, m => do
      let decls ← Decl.buildAll m
      (Call.module decls).run

/-- No list in a part is too long. -/
def Part.Fits : (k : Part) → k.Tree → Prop
  | op, _ => True
  | expr, e => Expr.Fits e
  | type, t => Ty.Fits t
  | rhs, r => Rhs.Fits r
  | alt, a => Alt.Fits a
  | stmt, s => Stmt.Fits s
  | decl, d => Decl.Fits d
  | module, m => Decl.AllFit m ∧ m.length ≤ maxListLength

end TrialLayout
