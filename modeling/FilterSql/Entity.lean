import FilterSql.Dictionary
/-!
# Entities

An entity has a name and a table, and declares properties. Each property has a column, the kind
of its values and a mark that says whether it may be absent.
-/
namespace FilterSql

inductive ScalarKind where
  | int
  | long
  | short
  | byte
  | float
  | double
  | bool
  | text
  | timestamp
  | decimal
  | other
  deriving DecidableEq, Repr

namespace ScalarKind

def names : ScalarKind → List String
  | int => ["int", "integer", "i32"]
  | long => ["long", "bigint", "i64"]
  | short => ["short", "smallint", "i16"]
  | byte => ["byte", "tinyint", "i8"]
  | float => ["float", "real", "f32"]
  | double => ["double", "f64"]
  | bool => ["bool", "boolean"]
  | text => ["text", "string", "varchar"]
  | timestamp => ["timestamp", "date", "datetime"]
  | decimal => ["decimal", "numeric"]
  | other => ["other"]

def all : List ScalarKind :=
  [int, long, short, byte, float, double, bool, text, timestamp, decimal, other]

def name (k : ScalarKind) : String := k.names.headD ""

def ofName? (s : String) : Option ScalarKind := all.find? (·.names.contains s)

end ScalarKind

/-- The default name of a table or column: a lower-case letter stands for each ASCII capital,
after an underscore unless it is the first character. -/
def snakeCase (name : String) : String :=
  match name.toList with
  | [] => ""
  | c :: s => String.ofList (c.toLower :: s.flatMap fun c =>
      if c.isUpper then ['_', c.toLower] else [c])

structure Field where
  column : String
  kind : ScalarKind
  /-- On a property that may be absent, zero is a value like any other. -/
  nullable : Bool := false
  deriving DecidableEq, Repr

structure Entity where
  name : String
  table : String
  fields : Dictionary Field := .empty
  deriving DecidableEq, Repr

namespace Entity

def declare (e : Entity) (property : String) (field : Field) : Entity :=
  { e with fields := e.fields.insert property field }

def field? (e : Entity) (property : String) : Option Field := e.fields.find? property

def column? (e : Entity) (property : String) : Option String := (e.field? property).map (·.column)

def kind? (e : Entity) (property : String) : Option ScalarKind := (e.field? property).map (·.kind)

/-- A property without declaration is its own column. -/
def columnOf (e : Entity) (property : String) : String := (e.column? property).getD property

end Entity
end FilterSql
