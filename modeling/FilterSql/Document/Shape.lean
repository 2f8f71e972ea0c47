import FilterSql.Number.Word
/-!
# Shapes of documents

Schemas, configurations and queries are read from documents in several formats. A format shows
each part of a document as a text, a list, a record and so on; the readers here know shapes only.
A record of known fields may also be written as the list of its fields in their order.
-/
namespace FilterSql

inductive Shape (α : Type) where
  | null
  | flag (b : Bool)
  | whole (n : Int)
  | text (s : String)
  | list (items : List α)
  | record (fields : List (String × α))
  | other

class DocumentFormat (α : Type) where
  shape? : α → Option (Shape α)
  alternative? : α → Option String
  /-- Whether a list of fields may go on after the last field. -/
  allowsExcess : Bool

/-- A field of a record: given, missing in a record, or beyond the end of a list of fields. -/
inductive Slot (α : Type) where
  | given (part : α)
  | missing
  | beyond

namespace Document

variable {α β : Type} [DocumentFormat α]

open DocumentFormat

def text? (a : α) : Option String :=
  match shape? a with
  | some (.text s) => some s
  | _ => none

def flag? (a : α) : Option Bool :=
  match shape? a with
  | some (.flag b) => some b
  | _ => none

def word? (a : α) : Option UInt32 :=
  match shape? a with
  | some (.whole n) => word32? n
  | _ => none

def items? (read : α → Option β) (a : α) : Option (List β) :=
  match shape? a with
  | some (.list items) => items.mapM read
  | _ => none

def slot? (fields : List (String × α)) (names : List String) : Option (Slot α) :=
  match fields.filter fun f => names.contains f.1 with
  | [] => some .missing
  | [f] => some (.given f.2)
  | _ => none

/-- The slots of a record's fields, in the order of their names. Fields of other names are
ignored. -/
def slots? (names : List (List String)) (a : α) : Option (List (Slot α)) :=
  match shape? a with
  | some (.record fields) => names.mapM (slot? fields)
  | some (.list items) =>
    if names.length < items.length && !allowsExcess α then none
    else some ((items.map Slot.given ++ List.replicate names.length Slot.beyond).take names.length)
  | _ => none

def optional? (read : α → Option β) (a : α) : Option (Option β) :=
  match shape? a with
  | some .null => some none
  | _ => (read a).map some

end Document

namespace Slot

variable {α β : Type} [DocumentFormat α]

def required? (read : α → Option β) : Slot α → Option β
  | given a => read a
  | _ => none

def withDefault? (read : α → Option β) (value : β) : Slot α → Option β
  | given a => read a
  | _ => some value

/-- A field that a record may leave out; a list of fields has to reach it. -/
def optional? (read : α → Option β) : Slot α → Option (Option β)
  | given a => Document.optional? read a
  | missing => some none
  | beyond => none

end Slot
end FilterSql
