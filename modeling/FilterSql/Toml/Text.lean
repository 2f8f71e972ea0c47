import FilterSql.Json.Lexeme
/-!
# Texts in TOML

Texts stand in one or three quotes of either kind. Between double quotes backslashes start
escapes, between single quotes they do not. In three quotes a text may run over several lines; a
line break right behind the opening quotes does not count.
-/
namespace FilterSql.Toml

def isGap (c : Char) : Bool := c == ' ' || c == '\t'

/-- The characters that may stand in comments and texts: no control characters but the tab. -/
def isPrintable (c : Char) : Bool := c == '\t' || (0x20 ≤ c.toNat && c.toNat != 0x7f)

def dropLineBreak? : List Char → Option (List Char)
  | '\n' :: s => some s
  | '\r' :: '\n' :: s => some s
  | _ => none

def charOf? (n : Nat) : Option Char := if n.isValidChar then some (Char.ofNat n) else none

def escaped? : Char → Option Char
  | 'b' => some '\x08'
  | 't' => some '\t'
  | 'n' => some '\n'
  | 'f' => some '\x0c'
  | 'r' => some '\r'
  | '"' => some '"'
  | '\\' => some '\\'
  | _ => none

def prepend (c : Char) (r : List Char × List Char) : List Char × List Char := (c :: r.1, r.2)

def scanBasic? : List Char → Option (List Char × List Char)
  | '"' :: s => some ([], s)
  | '\\' :: 'u' :: a :: b :: c :: d :: s => do
    let x ← (hexValue? [a, b, c, d]).bind charOf?
    (scanBasic? s).map (prepend x)
  | '\\' :: 'U' :: a :: b :: c :: d :: e :: f :: g :: h :: s => do
    let x ← (hexValue? [a, b, c, d, e, f, g, h]).bind charOf?
    (scanBasic? s).map (prepend x)
  | '\\' :: c :: s => do
    let x ← escaped? c
    (scanBasic? s).map (prepend x)
  | c :: s => if isPrintable c then (scanBasic? s).map (prepend c) else none
  | [] => none

def scanLiteral? : List Char → Option (List Char × List Char)
  | '\'' :: s => some ([], s)
  | c :: s => if isPrintable c then (scanLiteral? s).map (prepend c) else none
  | [] => none

def endsLine (s : List Char) : Bool := (dropLineBreak? (s.dropWhile isGap)).isSome

/-- A text up to its three closing double quotes, and the rest. Up to two quotes right in front of
them belong to the text. A backslash at the end of a line removes the line break and all blanks
and line breaks behind it, which `trimming` says are being passed over. -/
def scanLongBasic? (trimming : Bool) : List Char → Option (List Char × List Char)
  | '"' :: '"' :: '"' :: '"' :: '"' :: s => some (['"', '"'], s)
  | '"' :: '"' :: '"' :: '"' :: s => some (['"'], s)
  | '"' :: '"' :: '"' :: s => some ([], s)
  | '\r' :: '\n' :: s =>
    if trimming then scanLongBasic? true s else (scanLongBasic? false s).map (prepend '\n')
  | '\n' :: s =>
    if trimming then scanLongBasic? true s else (scanLongBasic? false s).map (prepend '\n')
  | '\\' :: 'u' :: a :: b :: c :: d :: s => do
    let x ← (hexValue? [a, b, c, d]).bind charOf?
    (scanLongBasic? false s).map (prepend x)
  | '\\' :: 'U' :: a :: b :: c :: d :: e :: f :: g :: h :: s => do
    let x ← (hexValue? [a, b, c, d, e, f, g, h]).bind charOf?
    (scanLongBasic? false s).map (prepend x)
  | '\\' :: c :: s =>
    if endsLine (c :: s) then scanLongBasic? true (c :: s)
    else do
      let x ← escaped? c
      (scanLongBasic? false s).map (prepend x)
  | c :: s =>
    if trimming && isGap c then scanLongBasic? true s
    else if isPrintable c && c != '\\' then (scanLongBasic? false s).map (prepend c)
    else none
  | [] => none

def scanLongLiteral? : List Char → Option (List Char × List Char)
  | '\'' :: '\'' :: '\'' :: '\'' :: '\'' :: s => some (['\'', '\''], s)
  | '\'' :: '\'' :: '\'' :: '\'' :: s => some (['\''], s)
  | '\'' :: '\'' :: '\'' :: s => some ([], s)
  | '\r' :: '\n' :: s => (scanLongLiteral? s).map (prepend '\n')
  | '\n' :: s => (scanLongLiteral? s).map (prepend '\n')
  | c :: s => if isPrintable c then (scanLongLiteral? s).map (prepend c) else none
  | [] => none

def skipLineBreak (s : List Char) : List Char := (dropLineBreak? s).getD s

def scanText? : List Char → Option (List Char × List Char)
  | '"' :: '"' :: '"' :: s => scanLongBasic? false (skipLineBreak s)
  | '"' :: s => scanBasic? s
  | '\'' :: '\'' :: '\'' :: s => scanLongLiteral? (skipLineBreak s)
  | '\'' :: s => scanLiteral? s
  | _ => none

end FilterSql.Toml
