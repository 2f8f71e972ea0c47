import FilterSql.Entity
import FilterSql.Error
import FilterSql.Text.Uppercase
/-!
# Registries

A provider finds the entity that a name refers to. A registry is a provider that holds its
entities itself: it looks for the name, then for the name with its first character in upper case,
so that `order.id` in a hand-written text refers to `Order`.
-/
namespace FilterSql

abbrev Provider := String → Except Error Entity

structure Registry where
  entities : Dictionary Entity := .empty
  deriving Repr

namespace Registry

def empty : Registry := {}

/-- An entity replaces an earlier one of the same name. -/
def register (r : Registry) (e : Entity) : Registry := ⟨r.entities.insert e.name e⟩

def ofList (es : List Entity) : Registry := es.foldl register empty

def size (r : Registry) : Nat := r.entities.size

def isEmpty (r : Registry) : Bool := r.entities.isEmpty

def sorted (r : Registry) : List Entity := r.entities.sorted.map (·.2)

def capitalized (name : String) : String := String.ofList (Text.upperFirst name.toList)

def find? (r : Registry) (name : String) : Option Entity :=
  (r.entities.find? name).or (r.entities.find? (capitalized name))

def resolve (r : Registry) : Provider := fun name =>
  match r.find? name with
  | some e => .ok e
  | none => .error (.unknownEntity name)

end Registry
end FilterSql
