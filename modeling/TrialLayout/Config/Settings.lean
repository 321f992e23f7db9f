import TrialLayout.Config

/-!
# Configurations as settings tables

A configuration can be given as a table from field names to values. A missing field
keeps its default, an unknown name is passed over, and a known field whose value is
not a width (a whole number from `0` to `maxWidth`) makes the whole table unusable.
-/

namespace TrialLayout

/-- A value standing in a settings table. -/
inductive Setting where
  | number (value : Int)
  | other
deriving DecidableEq, Repr

namespace Setting

/-- The width that a value denotes, if it denotes one. -/
def width? : Setting → Option Nat
  | number (.ofNat n) => if n ≤ maxWidth then some n else none
  | _ => none

end Setting

namespace Config

/-- The named fields of a configuration. -/
inductive Field where
  | columnLimit
  | indentSpaces
  | shortName
  | smallColumnLimit
  | overflowMargin
deriving DecidableEq, Repr

namespace Field

/-- Every field, in the order of the table that `Config.toSettings` writes. -/
def all : List Field :=
  [columnLimit, indentSpaces, shortName, smallColumnLimit, overflowMargin]

/-- The name a field has in a settings table. -/
def key : Field → String
  | columnLimit => "column_limit"
  | indentSpaces => "indent_spaces"
  | shortName => "short_name"
  | smallColumnLimit => "small_column_limit"
  | overflowMargin => "overflow_margin"

/-- The field of a given name. -/
def ofKey? (name : String) : Option Field := all.find? (·.key == name)

end Field

/-- The value of a field. -/
def get (cfg : Config) : Field → Nat
  | .columnLimit => cfg.columnLimit
  | .indentSpaces => cfg.indentSpaces
  | .shortName => cfg.shortName
  | .smallColumnLimit => cfg.smallColumnLimit
  | .overflowMargin => cfg.overflowMargin

/-- The configuration with one field replaced. -/
def set (cfg : Config) (field : Field) (width : Nat) : Config :=
  match field with
  | .columnLimit => { cfg with columnLimit := width }
  | .indentSpaces => { cfg with indentSpaces := width }
  | .shortName => { cfg with shortName := width }
  | .smallColumnLimit => { cfg with smallColumnLimit := width }
  | .overflowMargin => { cfg with overflowMargin := width }

/-- Takes one entry of a settings table into account. -/
def assign (cfg : Config) (entry : String × Setting) : Option Config :=
  match Field.ofKey? entry.1 with
  | none => some cfg
  | some field => entry.2.width?.map (cfg.set field)

/-- Reads a settings table over the defaults. -/
def ofSettings (table : List (String × Setting)) : Option Config :=
  table.foldlM assign {}

/-- All five fields as a settings table. -/
def toSettings (cfg : Config) : List (String × Nat) :=
  Field.all.map fun field => (field.key, cfg.get field)

@[simp] theorem get_set_self (cfg : Config) (field : Field) (width : Nat) :
    (cfg.set field width).get field = width := by
  cases field <;> rfl

theorem get_set_of_ne (cfg : Config) {field other : Field} (width : Nat) (h : other ≠ field) :
    (cfg.set field width).get other = cfg.get other := by
  cases field <;> cases other <;> try rfl
  all_goals exact absurd rfl h

end Config

end TrialLayout
