import FilterSql.Document.Shape
import FilterSql.Json.Text
/-!
# JSON as a document format

Of a text, a part is read only when a reader asks for it, so the values of ignored fields are held
to the grammar alone. A value that has been read already can stand for a document too.
-/
namespace FilterSql

namespace JsonText

def keyed? (fields : List (Quoted × JsonText)) : Option (List (String × JsonText)) :=
  fields.mapM fun f => f.1.text?.map fun k => (k, f.2)

def shape? : JsonText → Option (Shape JsonText)
  | null => some .null
  | flag b => some (.flag b)
  | numeral n =>
    match n.value? with
    | some (.whole n) => some (.whole n)
    | some _ => some .other
    | none => none
  | quoted q => q.text?.map .text
  | list items => some (.list items)
  | record fields => (keyed? fields).map .record

/-- An alternative is a text, or a record that has the text as its only key, with null. -/
def alternative? : JsonText → Option String
  | quoted q => q.text?
  | record [(k, null)] => k.text?
  | _ => none

instance : DocumentFormat JsonText where
  shape? := shape?
  alternative? := alternative?
  allowsExcess := false

end JsonText

namespace Json

def shape : Json → Shape Json
  | null => .null
  | flag b => .flag b
  | whole n => .whole n
  | number _ => .other
  | text s => .text s
  | list items => .list items
  | record fields => .record fields

def alternative? : Json → Option String
  | text s => some s
  | record [(k, null)] => some k
  | _ => none

instance : DocumentFormat Json where
  shape? j := some j.shape
  alternative? := alternative?
  allowsExcess := false

end Json
end FilterSql
