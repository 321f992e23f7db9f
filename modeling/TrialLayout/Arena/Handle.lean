/-!
# Handles

Nodes are addressed by number and lists of children by a range of numbers. Both kinds of
handle say in their type what they address, so that a range of statements cannot be read
as a range of types.
-/

namespace TrialLayout

/-- What a node number addresses. -/
inductive NodeKind where
  | expr
  | type
deriving DecidableEq, Repr

namespace NodeKind

/-- The name under which numbers of this kind are shown. -/
def label : NodeKind → String
  | expr => "ExprId"
  | type => "TypeId"

end NodeKind

/-- The number of a node. -/
structure Id (kind : NodeKind) where
  raw : Nat
deriving DecidableEq, Repr

/-- The number of an expression. -/
abbrev ExprId := Id .expr

/-- The number of a type. -/
abbrev TypeId := Id .type

namespace Id

/-- The number that no node has. -/
def invalid {kind : NodeKind} : Id kind := ⟨0xFFFFFFFF⟩

instance {kind : NodeKind} : Inhabited (Id kind) := ⟨invalid⟩

/-- Every number but one may address a node. -/
def isValid {kind : NodeKind} (id : Id kind) : Bool := id != invalid

/-- A node number as it is shown. -/
def describe {kind : NodeKind} (id : Id kind) : String :=
  if id.isValid then kind.label ++ "(" ++ id.raw.repr ++ ")" else kind.label ++ "::INVALID"

end Id

/-- The kinds of list that an arena holds, one storage each. -/
inductive Pool where
  | exprs
  | types
  | names
  | decls
  | stmts
  | alts
  | branches
  | fields
deriving DecidableEq, Repr

namespace Pool

/-- Every pool. -/
def all : List Pool := [exprs, types, names, decls, stmts, alts, branches, fields]

/-- The name under which ranges of this pool are shown. -/
def label : Pool → String
  | exprs => "ExprRange"
  | types => "TypeRange"
  | names => "NameRange"
  | decls => "DeclRange"
  | stmts => "StmtRange"
  | alts => "AltRange"
  | branches => "GuardedRhsRange"
  | fields => "FieldUpdateRange"

/-- What lists of this pool are called in messages. -/
def noun : Pool → String
  | exprs => "expression lists"
  | types => "type lists"
  | names => "name lists"
  | decls => "declarations"
  | stmts => "statements"
  | alts => "alternatives"
  | branches => "guarded right-hand sides"
  | fields => "field updates"

end Pool

/-- A range of items in a pool. -/
structure Span (pool : Pool) where
  start : Nat
  len : Nat
deriving DecidableEq, Repr

namespace Span

/-- The range of every empty list. -/
def empty {pool : Pool} : Span pool := ⟨0, 0⟩

instance {pool : Pool} : Inhabited (Span pool) := ⟨empty⟩

/-- The number after the last item of a range. -/
def stop {pool : Pool} (s : Span pool) : Nat := s.start + s.len

/-- A range without items. -/
def isEmpty {pool : Pool} (s : Span pool) : Bool := s.len == 0

/-- A range as it is shown. -/
def describe {pool : Pool} (s : Span pool) : String :=
  pool.label ++ "(" ++ s.start.repr ++ ".." ++ s.stop.repr ++ ")"

end Span

end TrialLayout
