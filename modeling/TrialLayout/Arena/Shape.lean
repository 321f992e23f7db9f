import TrialLayout.Arena

/-!
# Shapes of nodes

What a layout rule may ask of a tree that is held as nodes, without reading the whole tree:
flatness, the spine of an application, and the components of an arrow. Only the nodes that the
answer depends on are followed, so an expression may be classified although other parts of it
lie outside the arena.
-/

namespace TrialLayout.Arena

/-- The second answer if the first is true. -/
def andThen (first second : Except ReadError Bool) : Except ReadError Bool := do
  if ← first then second else return false

/-- Whether a number addresses a reference. -/
def isReference (a : Arena) (id : ExprId) : Except ReadError Bool :=
  return ExprNode.isReference (← a.get id)

/-- Flatness of one layer. -/
def isFlatNode (a : Arena) (child : ExprId → Except ReadError Bool) :
    ExprNode → Except ReadError Bool
  | .var _ | .con _ | .int _ | .frac _ | .char _ | .string _ | .varQuote _ | .typeQuote _ =>
      .ok true
  | .wildcard => .ok true
  | .list items => .ok items.isEmpty
  | .lambda _ body => child body
  | .app func arg => andThen (a.isReference func) (a.isReference arg)
  | .binary left _ right => andThen (child left) (child right)
  | .neg operand => child operand
  | .leftSection operand _ => child operand
  | .rightSection _ operand => child operand
  | .paren inner => child inner
  | .tuple .. | .cond .. | .caseOf .. | .block .. | .letIn .. | .record .. | .update .. |
    .annot .. => .ok false

/-- Flatness of an expression that is looked at through at most `depth` layers. -/
def isFlatTo (a : Arena) : (depth : Nat) → ExprId → Except ReadError Bool
  | 0, _ => .error .cyclic
  | depth + 1, id => do a.isFlatNode (a.isFlatTo depth) (← a.get id)

/-- Whether the expression of a number is flat. -/
def isFlat (a : Arena) (id : ExprId) : Except ReadError Bool :=
  a.isFlatTo (a.exprs.size + 1) id

/-! ## Spines -/

/-- The head of an application and its arguments in front of `args`, followed through at most
`depth` layers. -/
def spineTo (a : Arena) :
    (depth : Nat) → ExprId → (args : List ExprId) → Except ReadError (ExprId × List ExprId)
  | 0, _, _ => .error .cyclic
  | depth + 1, id, args => do
      match (← a.get id : ExprNode) with
      | .app func arg => a.spineTo depth func (arg :: args)
      | _ => return (id, args)

/-- The head and the arguments of the application of a number; without any argument it is its
own head. -/
def spine (a : Arena) (id : ExprId) : Except ReadError (ExprId × List ExprId) :=
  a.spineTo (a.exprs.size + 1) id []

/-- The components of an arrow, followed through at most `depth` layers. -/
def arrowsTo (a : Arena) : (depth : Nat) → TypeId → Except ReadError (List TypeId)
  | 0, _ => .error .cyclic
  | depth + 1, id => do
      match (← a.get id : TypeNode) with
      | .arrow arg result => return arg :: (← a.arrowsTo depth result)
      | _ => return [id]

/-- The components of the arrow of a number: the arguments along its right spine and the last
result. -/
def arrows (a : Arena) (id : TypeId) : Except ReadError (List TypeId) :=
  a.arrowsTo (a.types.size + 1) id

end TrialLayout.Arena
