import FilterSql.Text.Blank
import FilterSql.Text.Replace
/-!
# Grouped counts

The count query of a grouped criteria counts a column of the data query, which stands in
parentheses. Inside, columns that carry the alias `count` are renamed, so that the name stays free
for the count itself; a column that is called `count` keeps its name.
-/
namespace FilterSql.GroupedCount

open Text

def unwords (ws : List (List Char)) : List Char := [' '].intercalate ws

def collapse (s : List Char) : List Char := unwords (words s)

/-- Whether the word behind this one can be an alias. -/
def precedesAlias (w : List Char) : Bool :=
  w.getLast? != some ',' && !sameLetters w "SELECT".toList && !sameLetters w "DISTINCT".toList

def takeComma (w : List Char) : List Char × List Char :=
  if w.getLast? = some ',' then (w.dropLast, [',']) else (w, [])

def renameWord (previous : Option (List Char)) (w : List Char) : List Char :=
  let (name, comma) := takeComma w
  if name = "count".toList && previous.any precedesAlias then "_count".toList ++ comma else w

def renameWords (previous : Option (List Char)) : List (List Char) → List (List Char)
  | [] => []
  | w :: ws => renameWord previous w :: renameWords (some w) ws

def renameAliases (s : List Char) : List Char :=
  unwords (renameWords none ((replace ")count".toList ") count".toList s).splitOn ' '))

/-- The data query inside the count, its blanks collapsed and its aliases renamed. -/
def inner (data : List Char) : List Char :=
  let s := collapse data
  match cutBefore " FROM ".toList s with
  | some (columns, rest) => renameAliases columns ++ rest
  | none => s

def lastName (path : List Char) : List Char := (path.splitOn '.').getLast?.getD path

def sql (data column : String) : String :=
  "SELECT COUNT(tc." ++ String.ofList (lastName column.toList) ++ ") count FROM (" ++
    String.ofList (inner data.toList) ++ ") tc"

end FilterSql.GroupedCount
