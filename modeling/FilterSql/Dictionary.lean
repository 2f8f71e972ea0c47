/-!
# Dictionaries

A finite map from texts, kept as a list of pairs. A key that is inserted again keeps its place and
takes the new value, so every key occurs once. Listings are sorted by key, character by character.
-/
namespace FilterSql

structure Dictionary (α : Type) where
  entries : List (String × α) := []
  deriving Repr, DecidableEq

namespace Dictionary

variable {α : Type}

def insertEntry (key : String) (value : α) : List (String × α) → List (String × α)
  | [] => [(key, value)]
  | e :: es => if e.1 = key then (key, value) :: es else e :: insertEntry key value es

def empty : Dictionary α := {}

/-- The value given last to a key counts. -/
def insert (d : Dictionary α) (key : String) (value : α) : Dictionary α :=
  ⟨insertEntry key value d.entries⟩

def find? (d : Dictionary α) (key : String) : Option α := d.entries.lookup key

def contains (d : Dictionary α) (key : String) : Bool := (d.find? key).isSome

def size (d : Dictionary α) : Nat := d.entries.length

def isEmpty (d : Dictionary α) : Bool := d.entries.isEmpty

def ofList (es : List (String × α)) : Dictionary α :=
  es.foldl (fun d e => d.insert e.1 e.2) empty

def sorted (d : Dictionary α) : List (String × α) :=
  d.entries.mergeSort fun a b => decide (a.1 ≤ b.1)

theorem lookup_entry (e : String × α) (es : List (String × α)) (key : String) :
    (e :: es).lookup key = if key = e.1 then some e.2 else es.lookup key := by
  obtain ⟨k, v⟩ := e
  rw [List.lookup_cons]
  by_cases h : key = k
  · rw [if_pos h, beq_iff_eq.2 h]
  · rw [if_neg h, beq_false_of_ne h]

theorem lookup_insertEntry (es : List (String × α)) (key key' : String) (value : α) :
    (insertEntry key value es).lookup key' = if key' = key then some value else es.lookup key' := by
  induction es with
  | nil => exact lookup_entry (key, value) [] key'
  | cons e es ih =>
    unfold insertEntry
    split
    next h => rw [lookup_entry, lookup_entry, h]; split <;> rfl
    next h =>
      rw [lookup_entry, lookup_entry, ih]
      by_cases h' : key' = e.1
      · rw [if_pos h', if_neg (h' ▸ h), if_pos h']
      · rw [if_neg h', if_neg h']

theorem find?_insert (d : Dictionary α) (key key' : String) (value : α) :
    (d.insert key value).find? key' = if key' = key then some value else d.find? key' :=
  lookup_insertEntry d.entries key key' value

end Dictionary
end FilterSql
