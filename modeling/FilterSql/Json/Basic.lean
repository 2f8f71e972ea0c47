import FilterSql.Number.Binary
import FilterSql.Dictionary
/-!
# JSON values

A whole number keeps its digits; every other number is a binary floating-point number. A record
keeps its fields as they were given. Its normal form has every key once, with the field given
last, and the keys in order.
-/
namespace FilterSql

inductive Json where
  | null
  | flag (b : Bool)
  | whole (n : Int)
  | number (x : Binary)
  | text (s : String)
  | list (items : List Json)
  | record (fields : List (String × Json))
  deriving Repr

namespace Json

instance : Inhabited Json := ⟨null⟩

mutual

def normalize : Json → Json
  | list items => list (normalizeItems items)
  | record fields => record (Dictionary.ofList (normalizeFields fields)).sorted
  | null => null
  | flag b => flag b
  | whole n => whole n
  | number x => number x
  | text s => text s

def normalizeItems : List Json → List Json
  | [] => []
  | v :: vs => normalize v :: normalizeItems vs

def normalizeFields : List (String × Json) → List (String × Json)
  | [] => []
  | (k, v) :: fs => (k, normalize v) :: normalizeFields fs

end

/-- The last field of a record with the given key. -/
def field? : Json → String → Option Json
  | record fields, key => fields.reverse.lookup key
  | _, _ => none

end Json
end FilterSql
