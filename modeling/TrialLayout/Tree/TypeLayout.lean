import TrialLayout.Layout.Blocks
import TrialLayout.Tree.Shape

/-!
# Layout of types

A type inside an expression is written on one line. In a signature the quantifier and the
context each end a line, `=>` stands under `::`, and what follows is written on one line if
that is small, else with one arrow component a line and `->` under `::`.
-/

namespace TrialLayout

namespace Ty

mutual

/-- A type on one line. -/
def inline : Ty → String
  | con name => name
  | var name => name
  | app func arg => func.inline ++ " " ++ arg.inline
  | arrow arg result => arg.inline ++ " -> " ++ result.inline
  | tuple boxity items =>
      if items.isEmpty then boxity.unit
      else boxity.opening ++ ", ".intercalate (inlineAll items) ++ boxity.closing
  | list element => "[" ++ element.inline ++ "]"
  | paren inner => "(" ++ inner.inline ++ ")"
  | quantified binders context body =>
      let quantifier := if binders.isEmpty then "" else "forall " ++ " ".intercalate binders ++ ". "
      let assertions :=
        match inlineAll context with
        | [] => ""
        | [single] => single ++ " => "
        | several => "(" ++ ", ".intercalate several ++ ") => "
      quantifier ++ assertions ++ body.inline

/-- Several types, each on one line. -/
def inlineAll : List Ty → List String
  | [] => []
  | t :: rest => t.inline :: inlineAll rest

end

/-- A class context: one assertion bare, several in parentheses. -/
def contextText : List Ty → String
  | [single] => single.inline
  | assertions => "(" ++ ", ".intercalate (inlineAll assertions) ++ ")"

/-- A type on one line if that is small, else with one arrow component a line. -/
def chain (t : Ty) : Layout :=
  .attempt .small (.text t.inline) (.stacked "-> " (t.arrows.map fun c => .text c.inline))

/-- The quantifier of a signature, on a line of its own. -/
def binderLine (binders : List String) : Layout :=
  if binders.isEmpty then .empty
  else .text ("forall " ++ " ".intercalate binders ++ ".") ++ .newline

/-- The type of a signature, from the column after `::`. -/
def signatureLayout : Ty → Layout
  | quantified binders [] body => binderLine binders ++ body.chain
  | quantified binders context body =>
      binderLine binders ++ .text (contextText context) ++ .newline ++
        .shift (-3) (.depend (.text "=> ") body.chain)
  | t => t.chain

end Ty

/-- A signature: names, `::`, and the type under the column after it. -/
def Decl.signatureLayout (names : List String) (type : Ty) : Layout :=
  .depend (.text (", ".intercalate names ++ " :: ")) type.signatureLayout

end TrialLayout
