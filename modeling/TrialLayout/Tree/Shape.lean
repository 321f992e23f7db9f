import TrialLayout.Tree

/-!
# Shapes of trees

What a layout rule may ask of a tree without rendering it: whether an expression is a
reference, a literal or flat, the spine of an application, and the components of an arrow.
-/

namespace TrialLayout

namespace Expr

/-- A reference to a variable or constructor. -/
def isReference : Expr → Bool
  | var _ | con _ => true
  | _ => false

/-- A literal. -/
def isLiteral : Expr → Bool
  | int _ | frac _ | char _ | string _ => true
  | _ => false

/-- A shape that is cheap to keep on one line: leaves, the empty list, a reference applied
to one reference, and lambdas, operators, negations, sections and parentheses over flat
parts. -/
def isFlat : Expr → Bool
  | var _ | con _ | int _ | frac _ | char _ | string _ | varQuote _ | typeQuote _ => true
  | wildcard => true
  | list items => items.isEmpty
  | lambda _ body => body.isFlat
  | app func arg => func.isReference && arg.isReference
  | binary left _ right => left.isFlat && right.isFlat
  | neg operand => operand.isFlat
  | leftSection operand _ => operand.isFlat
  | rightSection _ operand => operand.isFlat
  | paren inner => inner.isFlat
  | tuple .. | cond .. | caseOf .. | block .. | letIn .. | record .. | update .. | annot .. =>
      false

/-- The head of an application. -/
def head : Expr → Expr
  | app func _ => func.head
  | e => e

/-- The arguments of an application, in order. -/
def args : Expr → List Expr
  | app func arg => func.args ++ [arg]
  | _ => []

/-- A call with several arguments. -/
def apply (func : Expr) (args : List Expr) : Expr := args.foldl app func

end Expr

namespace Ty

/-- The components of an arrow: the arguments along its right spine and the last result. -/
def arrows : Ty → List Ty
  | arrow arg result => arg :: result.arrows
  | t => [t]

end Ty

namespace Decl

/-- A type signature. -/
def isSignature : Decl → Bool
  | signature .. => true
  | _ => false

end Decl

end TrialLayout
