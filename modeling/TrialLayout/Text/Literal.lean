import TrialLayout.Text.Blank

/-!
# Character and string literals

Inside a literal a backslash and the closing quote are escaped, newline, tab and
carriage return have letters of their own, and every other control character is written
as a backslash and its decimal code point. Where such a number is followed by a digit of
the literal itself, the empty escape `\&` keeps the two apart.
-/

namespace TrialLayout.Text

/-- Control characters that are written by number. -/
def isNumbered (c : Char) : Bool :=
  isControl c && !(c == '\n' || c == '\t' || c == '\r')

/-- One character inside a literal closed by `quote`. -/
def escape (quote c : Char) : List Char :=
  if c = '\\' then ['\\', '\\']
  else if c = '\n' then ['\\', 'n']
  else if c = '\t' then ['\\', 't']
  else if c = '\r' then ['\\', 'r']
  else if c = quote then ['\\', c]
  else if isControl c then '\\' :: c.toNat.repr.toList
  else [c]

/-- The empty escape, where a numbered character stands before a digit. -/
def digitGuard (c : Char) (rest : List Char) : List Char :=
  if isNumbered c && rest.head?.any Char.isDigit then ['\\', '&'] else []

/-- The characters between the quotes of a string literal. -/
def escapeString : List Char → List Char
  | [] => []
  | c :: rest => escape '"' c ++ digitGuard c rest ++ escapeString rest

/-- A character as a literal in single quotes. -/
def charLiteral (c : Char) : String :=
  String.ofList ('\'' :: escape '\'' c ++ ['\''])

/-- A text as a literal in double quotes. -/
def stringLiteral (text : String) : String :=
  String.ofList ('"' :: escapeString text.toList ++ ['"'])

example : charLiteral '\'' = "'\\''" := by decide

example : stringLiteral "say \"x\"" = "\"say \\\"x\\\"\"" := by decide

example : stringLiteral "\x012" = "\"\\1\\&2\"" := by decide

end TrialLayout.Text
