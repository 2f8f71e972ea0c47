import FilterSql.Document.TomlFormat
import FilterSql.Error
/-!
# Configuration

What the command line takes from its configuration file: where the schema is, how results are
printed, and whether in color.
-/
namespace FilterSql

inductive OutputFormat where
  | text
  | json
  deriving DecidableEq, Repr

namespace OutputFormat

def all : List OutputFormat := [text, json]

def name : OutputFormat → String
  | text => "text"
  | json => "json"

def ofName? (s : String) : Option OutputFormat := all.find? (·.name == s)

end OutputFormat

structure Config where
  schemaPath : Option String := none
  output : OutputFormat := .text
  color : Bool := true
  deriving DecidableEq, Repr

namespace Config

variable {α : Type} [DocumentFormat α]

open Document

def output? (a : α) : Option OutputFormat :=
  (DocumentFormat.alternative? a).bind OutputFormat.ofName?

/-- The configuration in a document; everything may be left out. -/
def ofDocument? (a : α) : Option Config := do
  match ← slots? [["schema_path"], ["output"], ["color"]] a with
  | [schemaPath, output, color] =>
    some {
      schemaPath := ← schemaPath.withDefault? (optional? text?) none
      output := ← output.withDefault? output? .text
      color := ← color.withDefault? flag? true }
  | _ => none

def parse (s : String) : Except Error Config :=
  match (Toml.parse? s).bind ofDocument? with
  | some c => .ok c
  | none => .error .badConfig

structure Overrides where
  schemaPath : Option String := none
  output : Option OutputFormat := none
  color : Option Bool := none

def override (c : Config) (o : Overrides) : Config where
  schemaPath := o.schemaPath.or c.schemaPath
  output := o.output.getD c.output
  color := o.color.getD c.color

end Config
end FilterSql
