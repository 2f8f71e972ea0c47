import FilterSql.Document.JsonFormat
import FilterSql.Document.TomlFormat
import FilterSql.Registry
/-!
# Schema documents

A schema lists entities, and an entity lists fields. Tables and columns that are not given take
their default names.
-/
namespace FilterSql.Schema

variable {α : Type} [DocumentFormat α]

open Document

def kind? (a : α) : Option ScalarKind :=
  (DocumentFormat.alternative? a).bind ScalarKind.ofName?

def field? (a : α) : Option (String × Field) := do
  match ← slots? [["name"], ["column"], ["type", "typ"], ["nullable"]] a with
  | [name, column, kind, nullable] =>
    let name ← name.required? text?
    let column ← column.optional? text?
    let kind ← kind.withDefault? kind? .other
    let nullable ← nullable.withDefault? flag? false
    some (name, ⟨column.getD (snakeCase name), kind, nullable⟩)
  | _ => none

def entity? (a : α) : Option Entity := do
  match ← slots? [["name"], ["table"], ["field", "fields"]] a with
  | [name, table, fields] =>
    let name ← name.required? text?
    let table ← table.optional? text?
    let fields ← fields.withDefault? (items? field?) []
    let entity : Entity := { name := name, table := table.getD (snakeCase name) }
    some (fields.foldl (fun e f => e.declare f.1 f.2) entity)
  | _ => none

def registry? (a : α) : Option Registry := do
  match ← slots? [["entity", "entities"]] a with
  | [entities] => (entities.withDefault? (items? entity?) []).map Registry.ofList
  | _ => none

inductive Format where
  | toml
  | json
  deriving DecidableEq, Repr

def parse (format : Format) (s : String) : Except Error Registry :=
  let r := match format with
    | .toml => (Toml.parse? s).bind registry?
    | .json => (JsonText.parse? s.toList).bind registry?
  match r with
  | some r => .ok r
  | none => .error .badSchema

end FilterSql.Schema
