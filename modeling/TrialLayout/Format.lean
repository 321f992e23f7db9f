import TrialLayout.Arena.Layout
import TrialLayout.Tree.Layout

/-!
# Formatting

The entry points: a tree, or a handle into a forest, becomes text. An expression or a
declaration is finished, a module is brought into its final form. Where a configuration is
given it has to be valid; the defaults are. A handle is rendered from its nodes, without
reading the tree first.
-/

namespace TrialLayout

/-! ## Trees -/

/-- An expression as text. -/
def Expr.format (cfg : Config) (e : Expr) : String := e.layout.render cfg

/-- A declaration as text. -/
def Decl.format (cfg : Config) (d : Decl) : String := d.layout.render cfg

/-- A module as text. -/
def Module.format (cfg : Config) (m : Module) : String := (m.layout.run cfg .start).finalize

/-! ## Forests -/

/-- Why a handle could not be formatted. -/
inductive FormatError where
  | config (reason : ConfigError)
  | read (reason : ReadError)
deriving DecidableEq, Repr

/-- Runs `format` under a configuration that has been found valid. -/
def withValid (cfg : Config) (format : Config → Except ReadError String) :
    Except FormatError String :=
  match cfg.validate with
  | .error reason => .error (.config reason)
  | .ok cfg => (format cfg).mapError .read

namespace Forest

/-- What rendering the expression of a number does to a printer. -/
def printExpr (f : Forest) (id : ExprId) (cfg : Config) (p : Printer) :
    Except ReadError Printer :=
  return (← f.exprLayout id).run cfg p

/-- What rendering a declaration does to a printer. -/
def printDecl (f : Forest) (d : DeclNode) (cfg : Config) (p : Printer) :
    Except ReadError Printer :=
  return (← f.declLayout d).run cfg p

/-- What rendering the module in a range does to a printer. -/
def printModule (f : Forest) (s : Span .decls) (cfg : Config) (p : Printer) :
    Except ReadError Printer :=
  return (← f.moduleLayout s).run cfg p

/-- The expression of a number, under thresholds taken as they are. -/
def exprText (f : Forest) (id : ExprId) (cfg : Config) : Except ReadError String :=
  return (← f.printExpr id cfg .start).finish

/-- A declaration, under thresholds taken as they are. -/
def declText (f : Forest) (d : DeclNode) (cfg : Config) : Except ReadError String :=
  return (← f.printDecl d cfg .start).finish

/-- The module in a range, under thresholds taken as they are. -/
def moduleText (f : Forest) (s : Span .decls) (cfg : Config) : Except ReadError String :=
  return (← f.printModule s cfg .start).finalize

/-- Formats the expression of a number. -/
def formatExpr (f : Forest) (id : ExprId) : Except ReadError String := f.exprText id {}

/-- Formats the expression of a number under a given configuration. -/
def formatExprWith (f : Forest) (id : ExprId) (cfg : Config) : Except FormatError String :=
  withValid cfg (f.exprText id)

/-- Formats a declaration. -/
def formatDecl (f : Forest) (d : DeclNode) : Except ReadError String := f.declText d {}

/-- Formats the module in a range. -/
def formatModule (f : Forest) (s : Span .decls) : Except ReadError String := f.moduleText s {}

/-- Formats the module in a range under a given configuration. -/
def formatModuleWith (f : Forest) (s : Span .decls) (cfg : Config) :
    Except FormatError String :=
  withValid cfg (f.moduleText s)

end Forest

end TrialLayout
