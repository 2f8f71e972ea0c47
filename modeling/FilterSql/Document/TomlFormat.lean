import FilterSql.Document.Shape
import FilterSql.Toml.Parser
/-!
# TOML as a document format
-/
namespace FilterSql.Toml

def shape : Toml → Shape Toml
  | text s => .text s
  | whole n => .whole n
  | flag b => .flag b
  | number | moment => .other
  | list items => .list items
  | table _ fields => .record fields
  | tables entries => .list (entries.map fun e => table e.1 e.2)

def isHollow : Toml → Bool
  | list items => items.isEmpty
  | table _ fields => fields.isEmpty
  | tables entries => entries.isEmpty
  | _ => false

/-- An alternative is a text, or the only key of a table, behind which there is no content. -/
def alternative? : Toml → Option String
  | text s => some s
  | table _ [(k, v)] => if isHollow v then some k else none
  | _ => none

instance : DocumentFormat Toml where
  shape? t := some t.shape
  alternative? := alternative?
  allowsExcess := true

end FilterSql.Toml
