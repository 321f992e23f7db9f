import TrialLayout.Tree.Layout

/-!
# Conditions on names

Names are written as they stand, so what is said about a rendering usually needs something
of the names in the tree. `EveryName P` says that each of them satisfies `P`: variables,
constructors, quoted names, the digits of fractional literals, operators, record fields,
bound functions, names of signatures, and the names in types. The contents of string
literals are not among them, since they are escaped.
-/

namespace TrialLayout

mutual

/-- Every name in a type satisfies `P`. -/
def Ty.EveryName (P : String → Prop) : Ty → Prop
  | .con name => P name
  | .var name => P name
  | .app func arg => func.EveryName P ∧ arg.EveryName P
  | .arrow arg result => arg.EveryName P ∧ result.EveryName P
  | .tuple _ items => Ty.EveryNameIn P items
  | .list element => element.EveryName P
  | .paren inner => inner.EveryName P
  | .quantified binders context body =>
      (∀ binder ∈ binders, P binder) ∧ Ty.EveryNameIn P context ∧ body.EveryName P

/-- Every name in several types satisfies `P`. -/
def Ty.EveryNameIn (P : String → Prop) : List Ty → Prop
  | [] => True
  | t :: rest => t.EveryName P ∧ Ty.EveryNameIn P rest

end

section

variable {P Q : String → Prop}

mutual

theorem Ty.EveryName.mono (imp : ∀ s, P s → Q s) : {t : Ty} → t.EveryName P → t.EveryName Q
  | .con name, h | .var name, h => imp name h
  | .app .., h | .arrow .., h => ⟨h.1.mono imp, h.2.mono imp⟩
  | .tuple .., h => Ty.EveryNameIn.mono imp h
  | .list element, h => Ty.EveryName.mono imp (t := element) h
  | .paren inner, h => Ty.EveryName.mono imp (t := inner) h
  | .quantified .., h =>
      ⟨fun binder mem => imp binder (h.1 binder mem), h.2.1.mono imp, h.2.2.mono imp⟩

theorem Ty.EveryNameIn.mono (imp : ∀ s, P s → Q s) :
    {ts : List Ty} → Ty.EveryNameIn P ts → Ty.EveryNameIn Q ts
  | [], _ => trivial
  | _ :: _, h => ⟨h.1.mono imp, h.2.mono imp⟩

end

end

mutual

/-- Every name in an expression satisfies `P`. -/
def Expr.EveryName (P : String → Prop) : Expr → Prop
  | .var name => P name
  | .con name => P name
  | .int _ => True
  | .frac digits => P digits
  | .char _ => True
  | .string _ => True
  | .varQuote name => P name
  | .typeQuote name => P name
  | .wildcard => True
  | .app func arg => func.EveryName P ∧ arg.EveryName P
  | .binary left op right => left.EveryName P ∧ P op.name ∧ right.EveryName P
  | .neg operand => operand.EveryName P
  | .leftSection operand op => operand.EveryName P ∧ P op.name
  | .rightSection op operand => P op.name ∧ operand.EveryName P
  | .lambda params body => Expr.EveryNameIn P params ∧ body.EveryName P
  | .tuple _ items => Expr.EveryNameIn P items
  | .list items => Expr.EveryNameIn P items
  | .paren inner => inner.EveryName P
  | .cond condition yes no => condition.EveryName P ∧ yes.EveryName P ∧ no.EveryName P
  | .caseOf scrutinee alts => scrutinee.EveryName P ∧ Alt.EveryNameIn P alts
  | .block stmts => Stmt.EveryNameIn P stmts
  | .letIn decls body => Decl.EveryNameIn P decls ∧ body.EveryName P
  | .record con fields => P con ∧ Field.EveryNameIn P fields
  | .update record fields => record.EveryName P ∧ Field.EveryNameIn P fields
  | .annot expr type => expr.EveryName P ∧ type.EveryName P

/-- Every name in several expressions satisfies `P`. -/
def Expr.EveryNameIn (P : String → Prop) : List Expr → Prop
  | [] => True
  | e :: rest => e.EveryName P ∧ Expr.EveryNameIn P rest

/-- Every name in a right-hand side satisfies `P`. -/
def Rhs.EveryName (P : String → Prop) : Rhs → Prop
  | .plain body => body.EveryName P
  | .guarded branches => Branch.EveryNameIn P branches

/-- Every name in a guarded branch satisfies `P`. -/
def Branch.EveryName (P : String → Prop) : Branch → Prop
  | .mk guards body => Expr.EveryNameIn P guards ∧ body.EveryName P

/-- Every name in several guarded branches satisfies `P`. -/
def Branch.EveryNameIn (P : String → Prop) : List Branch → Prop
  | [] => True
  | b :: rest => b.EveryName P ∧ Branch.EveryNameIn P rest

/-- Every name in an alternative satisfies `P`. -/
def Alt.EveryName (P : String → Prop) : Alt → Prop
  | .mk pattern rhs => pattern.EveryName P ∧ rhs.EveryName P

/-- Every name in several alternatives satisfies `P`. -/
def Alt.EveryNameIn (P : String → Prop) : List Alt → Prop
  | [] => True
  | a :: rest => a.EveryName P ∧ Alt.EveryNameIn P rest

/-- Every name in a statement satisfies `P`. -/
def Stmt.EveryName (P : String → Prop) : Stmt → Prop
  | .bind pattern expr => pattern.EveryName P ∧ expr.EveryName P
  | .expr expr => expr.EveryName P
  | .decls decls => Decl.EveryNameIn P decls

/-- Every name in several statements satisfies `P`. -/
def Stmt.EveryNameIn (P : String → Prop) : List Stmt → Prop
  | [] => True
  | s :: rest => s.EveryName P ∧ Stmt.EveryNameIn P rest

/-- Every name in a declaration satisfies `P`. -/
def Decl.EveryName (P : String → Prop) : Decl → Prop
  | .signature names type => (∀ name ∈ names, P name) ∧ type.EveryName P
  | .function name params rhs => P name ∧ Expr.EveryNameIn P params ∧ rhs.EveryName P
  | .pattern pattern rhs => pattern.EveryName P ∧ rhs.EveryName P

/-- Every name in several declarations satisfies `P`. -/
def Decl.EveryNameIn (P : String → Prop) : List Decl → Prop
  | [] => True
  | d :: rest => d.EveryName P ∧ Decl.EveryNameIn P rest

/-- Every name in a record field satisfies `P`. -/
def Field.EveryName (P : String → Prop) : Field → Prop
  | .mk name value => P name ∧ value.EveryName P

/-- Every name in several record fields satisfies `P`. -/
def Field.EveryNameIn (P : String → Prop) : List Field → Prop
  | [] => True
  | f :: rest => f.EveryName P ∧ Field.EveryNameIn P rest

end

end TrialLayout
