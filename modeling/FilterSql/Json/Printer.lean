import FilterSql.Json.Basic
import FilterSql.Number.Layout
/-!
# Printing JSON

The compact form has no blanks; the indented form puts every item on a line of its own, two
blanks per level. The fields of a record are printed in the order they have.
-/
namespace FilterSql.Json

def hexDigit (n : Nat) : Char := Nat.digitChar n

/-- Quotes, backslashes and control characters are escaped, and nothing else. -/
def escapeChar (c : Char) : List Char :=
  match c with
  | '"' => ['\\', '"']
  | '\\' => ['\\', '\\']
  | '\x08' => ['\\', 'b']
  | '\x0c' => ['\\', 'f']
  | '\n' => ['\\', 'n']
  | '\r' => ['\\', 'r']
  | '\t' => ['\\', 't']
  | c =>
    if c.toNat < 0x20 then
      ['\\', 'u', '0', '0', hexDigit (c.toNat / 16), hexDigit (c.toNat % 16)]
    else [c]

def quote (s : String) : String :=
  "\"" ++ String.ofList (s.toList.flatMap escapeChar) ++ "\""

mutual

def compact : Json → String
  | null => "null"
  | flag b => if b then "true" else "false"
  | whole n => toString n
  | number x => NumberLayout.json.write x
  | text s => quote s
  | list items => "[" ++ ",".intercalate (compactItems items) ++ "]"
  | record fields =>
    "\x7b" ++ ",".intercalate (compactFields fields) ++ "\x7d"

def compactItems : List Json → List String
  | [] => []
  | v :: vs => compact v :: compactItems vs

def compactFields : List (String × Json) → List String
  | [] => []
  | (k, v) :: fs => (quote k ++ ":" ++ compact v) :: compactFields fs

end

def newLine (level : Nat) : String := "\n" ++ String.ofList (List.replicate (2 * level) ' ')

/-- Items between brackets, one to a line; without items the brackets stand together. -/
def block (level : Nat) (opening closing : String) (items : List String) : String :=
  if items.isEmpty then opening ++ closing
  else
    opening ++ newLine (level + 1) ++ ("," ++ newLine (level + 1)).intercalate items ++
      newLine level ++ closing

mutual

def indentedAt (level : Nat) : Json → String
  | list items => block level "[" "]" (indentedItems (level + 1) items)
  | record fields =>
    block level "\x7b" "\x7d" (indentedFields (level + 1) fields)
  | null => "null"
  | flag b => if b then "true" else "false"
  | whole n => toString n
  | number x => NumberLayout.json.write x
  | text s => quote s

def indentedItems (level : Nat) : List Json → List String
  | [] => []
  | v :: vs => indentedAt level v :: indentedItems level vs

def indentedFields (level : Nat) : List (String × Json) → List String
  | [] => []
  | (k, v) :: fs => (quote k ++ ": " ++ indentedAt level v) :: indentedFields level fs

end

def indented (j : Json) : String := indentedAt 0 j

end FilterSql.Json
