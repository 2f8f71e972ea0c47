import FilterSql.Registry
import FilterSql.Sql.Reference
/-!
# Name resolution

Finished SQL texts refer to entities and properties; resolving them gives tables and columns. A
text about one entity is resolved from that entity's declarations alone. In a text about several
entities every path `Entity.property` is looked up first, and the names found are recorded.
-/
namespace FilterSql

/-- Logical names and their physical names, in both directions. For a physical name of several
logical ones the reverse direction holds the one inserted last. -/
structure NameTable where
  forward : Dictionary String := .empty
  reverse : Dictionary String := .empty
  deriving DecidableEq, Repr

namespace NameTable

def empty : NameTable := {}

def insert (t : NameTable) (logical physical : String) : NameTable :=
  ⟨t.forward.insert logical physical, t.reverse.insert physical logical⟩

def physical? (t : NameTable) (logical : String) : Option String := t.forward.find? logical

def logical? (t : NameTable) (physical : String) : Option String := t.reverse.find? physical

def size (t : NameTable) : Nat := t.forward.size

def isEmpty (t : NameTable) : Bool := t.forward.isEmpty

def sorted (t : NameTable) : List (String × String) := t.forward.sorted

end NameTable

structure Resolution where
  names : NameTable := .empty
  entities : Dictionary Entity := .empty

namespace Resolution

/-- Look up a path, its entity only if no earlier path named it. -/
def lookUp (provider : Provider) (r : Resolution) (path : String × String) :
    Except Error Resolution := do
  let (name, property) := path
  let entity ← match r.entities.find? name with
    | some e => pure e
    | none => provider name
  return ⟨r.names.insert (name ++ "." ++ property) (entity.table ++ "." ++ entity.columnOf property),
    r.entities.insert name entity⟩

def ofSql (provider : Provider) (sql : String) : Except Error Resolution :=
  (Sql.qualifiedPaths sql).foldlM (lookUp provider) {}

/-- What a reference is replaced by: a path by its physical name, a single name by the table of
the entity that some path refers to by that name. -/
def replacement? (r : Resolution) (path : String) : Option String :=
  if path.toList.contains '.' then r.names.physical? path
  else (r.entities.find? path).map (·.table)

def resolve (r : Resolution) (sql : String) : String := Sql.resolve r.replacement? sql

end Resolution

/-- The words of SQL that are never read as properties. -/
def reservedWords : List String :=
  ["SELECT", "FROM", "WHERE", "AND", "OR", "NOT", "IN", "LIKE", "BETWEEN", "ORDER", "BY", "ASC",
    "DESC", "AS", "COUNT", "GROUP", "JOIN", "INNER", "LEFT", "RIGHT", "OUTER", "ON", "LIMIT",
    "OFFSET", "NULL", "IS"]

def isReserved (word : String) : Bool :=
  reservedWords.any fun r => Text.sameLetters r.toList word.toList

namespace Entity

def replacement? (e : Entity) (path : String) : Option String :=
  match Text.cutAt '.' path.toList with
  | some (name, property) =>
    if String.ofList name = e.name then some (e.table ++ "." ++ e.columnOf (String.ofList property))
    else none
  | none =>
    if path = e.name then some e.table
    else if isReserved path then none
    else e.column? path

def resolve (e : Entity) (sql : String) : String := Sql.resolve e.replacement? sql

end Entity
end FilterSql
