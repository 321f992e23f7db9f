import TrialLayout.Layout

/-!
# Blocks

The layouts from which the rules for trees are put together: items on one line, items
one below the other, bracketed collections, a body attached to its separator, and the
arguments of an application.
-/

namespace TrialLayout.Layout

/-! ## Sequences of items -/

/-- One layout after another. -/
def concat : List Layout → Layout
  | [] => empty
  | item :: rest => item ++ concat rest

/-- Items with `separator` between each two. -/
def joined (separator : Layout) : List Layout → Layout
  | [] => empty
  | [item] => item
  | item :: rest => item ++ separator ++ joined separator rest

/-- Items with a space between each two. -/
def spaced : List Layout → Layout := joined space

/-- Items with a comma and a space between each two. -/
def listed : List Layout → Layout := joined (text ", ")

/-- Items one below the other. -/
def lined : List Layout → Layout := joined newline

/-- Each item on a line of its own, the first one not excepted. -/
def underneath (items : List Layout) : Layout := concat (items.map (newline ++ ·))

/-- Items one below the other. Every line after the first begins with `lead`, which is
moved left by its own width so that the items stand in one column. -/
def stacked (lead : String) : List Layout → Layout
  | [] => empty
  | item :: rest =>
      item ++ shift (-(lead.length : Int)) (underneath (rest.map (depend (text lead))))

/-! ## Collections -/

/-- Items on one line if that fits, else one below the other with leading commas. -/
def row (items : List Layout) : Layout :=
  attempt .line (listed items) (stacked "," items)

/-- A row between brackets; the closing bracket is not measured. -/
def bracketed (opening closing : String) (items : List Layout) : Layout :=
  depend (text opening) (row items ++ text closing)

/-- A row between brackets that is measured together with its closing bracket. -/
def bracketedWhole (opening closing : String) (items : List Layout) : Layout :=
  attempt .line
    (depend (text opening) (listed items ++ text closing))
    (depend (text opening) (stacked "," items ++ text closing))

/-! ## Bodies -/

/-- A body after its separator. A flat body stays on the line of the separator; any other
stays there if that is small, and else starts on the next line. -/
def attach (separator : String) (flat : Bool) (body : Layout) : Layout :=
  if flat then depend (text separator) body
  else
    attempt .small (depend (text separator) body) (text separator ++ newline ++ body)

/-! ## Applications -/

/-- An argument of an application. -/
structure Argument where
  layout : Layout
  flat : Bool
deriving DecidableEq, Repr

/-- All arguments on the line of the head if that fits, else `fallback`. -/
def onHeadLine (args : List Layout) (fallback : Layout) : Layout :=
  attempt .line (hang (spaced args)) fallback

/-- What follows the head of an application.

After a short head the arguments stand one below the other behind it. After a long head
they do so only if each takes one line within the tolerant limit, and else form a block
below the head. Before that, all arguments are tried on the line of the head when every
argument is flat, or when the head is short and at most one argument is not. -/
def application (head : Layout) (args : List Argument) : Layout :=
  let layouts := args.map (·.layout)
  let nonFlat := args.countP (!·.flat)
  let hanging := hang (lined layouts)
  let block := newline ++ step (lined layouts)
  let long := attempt (.stack args.length) hanging block
  byHead head
    (if nonFlat < 2 then onHeadLine layouts hanging else hanging)
    (if nonFlat = 0 then onHeadLine layouts long else long)

/-! ## Operators -/

/-- Two operands and the operator between them. If `flat`, the right operand stays behind
the operator as long as it ends within the column limit. Otherwise the line breaks after
the operator, and `broken` arranges the two parts of the broken form. -/
def operation (flat : Bool) (left : Layout) (op : String) (right : Layout)
    (broken : Layout → Layout → Layout) : Layout :=
  let breaking := broken (left ++ space ++ text op ++ newline) right
  if flat then
    attempt .within (depend (left ++ space ++ text op ++ space) right) breaking
  else breaking

end TrialLayout.Layout
