/-!
# TOML tables

A TOML text defines tables piece by piece: by pairs, by dotted keys, by headers and by the entries
of a list of tables. A table remembers how it was defined, because that decides what may still be
added to it: nothing is defined twice, and a table that a header has defined is closed to dotted
keys.
-/
namespace FilterSql

structure TableForm where
  inline : Bool := false
  implicit : Bool := false
  dotted : Bool := false
  deriving DecidableEq

/-- A TOML value. Of floating-point numbers and of dates and times it is only kept that they are
there. -/
inductive Toml where
  | text (s : String)
  | whole (n : Int)
  | flag (b : Bool)
  | number
  | moment
  | list (items : List Toml)
  | table (form : TableForm) (fields : List (String × Toml))
  | tables (entries : List (TableForm × List (String × Toml)))

namespace Toml

abbrev Fields := List (String × Toml)

def setField (key : String) (v : Toml) : Fields → Fields
  | [] => [(key, v)]
  | f :: fs => if f.1 = key then (key, v) :: fs else f :: setField key v fs

/-- Change the table at the end of a path, which must not pass through anything else than tables.
Tables that are missing on the way become implicit ones. `inline` says in which kind of table the
path lies, `dotted` whether it belongs to a dotted key. -/
def within? (inline dotted : Bool) (edit : TableForm → Fields → Option Fields) :
    List String → TableForm → Fields → Option Fields
  | [], form, fs => edit form fs
  | key :: path, _, fs =>
    match fs.lookup key with
    | none =>
      let form : TableForm := ⟨inline, true, dotted⟩
      (within? inline dotted edit path form []).map fun sub => fs ++ [(key, table form sub)]
    | some (table form sub) =>
      if form.inline != inline || (dotted && !form.implicit) then none
      else (within? inline dotted edit path form sub).map fun sub =>
        setField key (table form sub) fs
    | some (tables entries) =>
      match entries.getLast? with
      | some (form, sub) =>
        (within? inline dotted edit path form sub).map fun sub =>
          setField key (tables (entries.dropLast ++ [(form, sub)])) fs
      | none => none
    | some _ => none

structure Pair where
  path : List String
  key : String
  value : Toml

/-- Add a pair to a table. A path may only end in a table that is known from dotted keys. -/
def addPair? (inline : Bool) (fs : Fields) (p : Pair) : Option Fields :=
  within? inline true
    (fun form fs =>
      if form.dotted == p.path.isEmpty || (fs.lookup p.key).isSome then none
      else some (fs ++ [(p.key, p.value)]))
    p.path { inline := inline } fs

def addPairs? (inline : Bool) (fs : Fields) (ps : List Pair) : Option Fields :=
  ps.foldlM (addPair? inline) fs

inductive Section where
  | table (path : List String) (key : String) (pairs : List Pair)
  | entry (path : List String) (key : String) (pairs : List Pair)

def addSection? (root : Fields) : Section → Option Fields
  | .table path key pairs =>
    within? false false
      (fun _ fs => do
        let known ← match fs.lookup key with
          | none => some []
          | some (.table form sub) =>
            if form.implicit && !form.dotted && !form.inline then some sub else none
          | some _ => none
        let body ← addPairs? false known pairs
        some (fs.filter (·.1 != key) ++ [(key, .table {} body)]))
      path {} root
  | .entry path key pairs =>
    within? false false
      (fun _ fs => do
        let body ← addPairs? false [] pairs
        match fs.lookup key with
        | none => some (fs ++ [(key, .tables [({}, body)])])
        | some (.tables entries) => some (setField key (.tables (entries ++ [({}, body)])) fs)
        | some _ => none)
      path {} root

def document? (pairs : List Pair) (sections : List Section) : Option Fields := do
  sections.foldlM addSection? (← addPairs? false [] pairs)

end Toml
end FilterSql
