import TrialLayout.Config
import TrialLayout.Text.Lines

/-!
# The printer

A printer holds the text written so far together with the position it has reached. The
reading of its state is:

* lines and columns count from `0`, a column counts characters;
* `indent` is the indentation base, the column at which the next line starts;
* after a newline the indentation is still pending: it is written in front of the next
  character, so that a line that stays empty gets none;
* `atLineStart` is that pending state.

Scoped operations (`withIndentAt`, `indented`, `depend`) run a procedure under another
base and put the old one back.
-/

namespace TrialLayout

/-- Text written so far and the position reached. -/
structure Printer where
  output : String
  line : Nat
  column : Nat
  indent : Nat
  atLineStart : Bool
deriving DecidableEq, Repr, Inhabited

namespace Printer

/-- A fresh printer: nothing written, at the start of the first line. -/
def start : Printer := ⟨"", 0, 0, 0, true⟩

/-- The printer of a fragment that continues a line on which `column` characters already
stand. -/
def withStartingColumn (p : Printer) (column : Nat) : Printer :=
  { p with column := column, atLineStart := false }

/-- The column at which the next character will stand, pending indentation included. -/
def effectiveColumn (p : Printer) : Nat := if p.atLineStart then p.indent else p.column

/-- The number of characters that stand on the current line. -/
def lineWidth (p : Printer) : Nat := if p.atLineStart then 0 else p.column

/-- Ends the line. -/
def newline (p : Printer) : Printer :=
  { p with
    output := p.output.push '\n'
    line := p.line + 1
    column := 0
    atLineStart := true }

/-- Writes the pending indentation, if there is any. -/
def settle (p : Printer) : Printer :=
  if p.atLineStart then
    { p with
      output := Text.addSpaces p.output p.indent
      column := p.indent
      atLineStart := false }
  else p

/-- Adds one character to the current line. -/
def push (p : Printer) (c : Char) : Printer :=
  { p with output := p.output.push c, column := p.column + 1 }

/-- Writes one character; a newline character ends the line. -/
def put (p : Printer) (c : Char) : Printer :=
  if c = '\n' then p.newline else p.settle.push c

/-- Writes a text, character by character. -/
def write (p : Printer) (text : String) : Printer := text.toList.foldl put p

/-- Writes one space. -/
def space (p : Printer) : Printer := p.write " "

@[simp] theorem write_empty (p : Printer) : p.write "" = p := rfl

theorem write_newline (p : Printer) : p.write "\n" = p.newline := rfl

/-- How a text is cut into writes does not matter. -/
theorem write_append (p : Printer) (a b : String) : p.write (a ++ b) = (p.write a).write b := by
  simp [write, List.foldl_append]

/-- Changes the indentation base. -/
def setIndent (p : Printer) (indent : Nat) : Printer := { p with indent := indent }

/-! ## Scopes -/

/-- Runs `body` under the indentation base `column`. -/
def withIndentAt (p : Printer) (column : Nat) (body : Printer → Printer) : Printer :=
  let saved := p.indent
  (body (p.setIndent column)).setIndent saved

/-- The base `indent` moved by `delta`, kept between `0` and `maxWidth`. -/
def shifted (indent : Nat) (delta : Int) : Nat := min (indent + delta).toNat maxWidth

/-- Runs `body` under an indentation base moved by `delta`. -/
def indented (p : Printer) (delta : Int) (body : Printer → Printer) : Printer :=
  p.withIndentAt (shifted p.indent delta) body

/-- Where a part starts that depends on another one, which led from `p` to `q`: under the
column that was reached, or under the old base if the position did not change. -/
def dependBase (p q : Printer) : Printer :=
  if q.line = p.line ∧ q.column = p.column then q else q.setIndent q.column

/-- Runs `left`, then `right` under the column that `left` ended at. Where `left` did not
move the position, `right` keeps the base. -/
def depend (p : Printer) (left right : Printer → Printer) : Printer :=
  let line := p.line
  let column := p.column
  let q := left p
  if q.line = line ∧ q.column = column then right q else q.withIndentAt q.column right

/-! ## Results -/

/-- The text with the trailing white space of every line removed. -/
def finish (p : Printer) : String := Text.finish p.output

/-- The finished text without trailing blank lines, ended by exactly one newline. -/
def finalize (p : Printer) : String := Text.finalize p.output

end Printer

end TrialLayout
