import FilterSql.Toml.Numeral
import FilterSql.Toml.Text
/-!
# TOML texts

A text is read line by line into pairs and headers; a value may run over several lines. Lists and
inline tables may be nested to a limit, and so may the names of a dotted key.
-/
namespace FilterSql.Toml

def isBareKeyChar (c : Char) : Bool := c.isAlphanum || c == '_' || c == '-'

def takeName? (s : List Char) : Option (String × List Char) := do
  let s := s.dropWhile isGap
  let (name, s) ← match s with
    | '"' :: s => scanBasic? s
    | '\'' :: s => scanLiteral? s
    | s =>
      let name := s.takeWhile isBareKeyChar
      if name.isEmpty then none else some (name, s.dropWhile isBareKeyChar)
  some (String.ofList name, s.dropWhile isGap)

def takeNames? (s : List Char) : Option (List String × List Char) := do
  let (name, rest) ← takeName? s
  match rest with
  | '.' :: r =>
    if r.length < s.length then
      let (names, r) ← takeNames? r
      some (name :: names, r)
    else none
  | r => some ([name], r)
termination_by s.length

/-- One more than the depth to which lists and inline tables may be nested, and one more than the
number of names that a key may have. -/
def nestingLimit : Nat := 80

def takeKey? (s : List Char) : Option ((List String × String) × List Char) := do
  let (names, s) ← takeNames? s
  let last ← names.getLast?
  if names.length < nestingLimit then some ((names.dropLast, last), s) else none

/-- The rest behind blanks, line breaks and comments; `comment` says that a comment has begun,
which has to end with its line. -/
def skipGaps? (comment : Bool) : List Char → Option (List Char)
  | '\n' :: s => skipGaps? false s
  | '\r' :: '\n' :: s => skipGaps? false s
  | c :: s =>
    if comment then if isPrintable c then skipGaps? true s else none
    else if c = '#' then skipGaps? true s
    else if isGap c then skipGaps? false s
    else some (c :: s)
  | [] => if comment then none else some []

/-- The items of a list up to its closing bracket, and the rest. A comma may stand behind the last
item. -/
def takeItems? (item : List Char → Option (Toml × List Char)) (s : List Char) :
    Option (List Toml × List Char) := do
  match ← skipGaps? false s with
  | ']' :: r => some ([], r)
  | s' =>
    let (v, r) ← item s'
    match ← skipGaps? false r with
    | ',' :: r =>
      if r.length < s.length then
        let (vs, r) ← takeItems? item r
        some (v :: vs, r)
      else none
    | ']' :: r => some ([v], r)
    | _ => none
termination_by s.length

def takePair? (value : List Char → Option (Toml × List Char)) (s : List Char) :
    Option (Pair × List Char) := do
  let ((path, key), s) ← takeKey? s
  match s with
  | '=' :: s =>
    let (v, s) ← value (s.dropWhile isGap)
    some (⟨path, key, v⟩, s)
  | _ => none

def takePairs? (value : List Char → Option (Toml × List Char)) (s : List Char) :
    Option (List Pair × List Char) := do
  let (p, r) ← takePair? value s
  match r.dropWhile isGap with
  | ',' :: r =>
    if r.length < s.length then
      let (ps, r) ← takePairs? value r
      some (p :: ps, r)
    else none
  | '}' :: r => some ([p], r)
  | _ => none
termination_by s.length

def takeInline? (value : List Char → Option (Toml × List Char)) (s : List Char) :
    Option (Toml × List Char) := do
  let (pairs, r) ← match s.dropWhile isGap with
    | '}' :: r => some ([], r)
    | s => takePairs? value s
  let fields ← addPairs? true [] pairs
  some (table { inline := true } fields, r)

/-- A value, with room for `room` more lists and inline tables inside one another, and the rest. -/
def takeValue? : Nat → List Char → Option (Toml × List Char)
  | room + 1, '[' :: s => (takeItems? (takeValue? room) s).map fun r => (list r.1, r.2)
  | room + 1, '{' :: s => takeInline? (takeValue? room) s
  | _, '"' :: s => (scanText? ('"' :: s)).map fun r => (text (String.ofList r.1), r.2)
  | _, '\'' :: s => (scanText? ('\'' :: s)).map fun r => (text (String.ofList r.1), r.2)
  | _, 't' :: 'r' :: 'u' :: 'e' :: s => some (flag true, s)
  | _, 'f' :: 'a' :: 'l' :: 's' :: 'e' :: s => some (flag false, s)
  | _, s => takeNumber? s

inductive Line where
  | pair (p : Pair)
  | table (path : List String) (key : String)
  | entry (path : List String) (key : String)

def dropLineEnd? (s : List Char) : Option (List Char) :=
  let s := match s.dropWhile isGap with
    | '#' :: s => s.dropWhile isPrintable
    | s => s
  if s.isEmpty then some [] else dropLineBreak? s

def takeLine? (s : List Char) : Option (Option Line × List Char) := do
  let (line, s) ← match s.dropWhile isGap with
    | '[' :: '[' :: s => do
      let ((path, key), s) ← takeKey? s
      match s with
      | ']' :: ']' :: s => some (some (Line.entry path key), s)
      | _ => none
    | '[' :: s => do
      let ((path, key), s) ← takeKey? s
      match s with
      | ']' :: s => some (some (Line.table path key), s)
      | _ => none
    | [] => some (none, [])
    | c :: s =>
      if c = '#' || c = '\n' || c = '\r' then some (none, c :: s)
      else (takePair? (takeValue? (nestingLimit - 1)) (c :: s)).map fun r =>
        (some (Line.pair r.1), r.2)
  some (line, ← dropLineEnd? s)

def takeLines? (s : List Char) : Option (List Line) :=
  if s.isEmpty then some []
  else do
    let (line, rest) ← takeLine? s
    if rest.length < s.length then
      let lines ← takeLines? rest
      some (line.toList ++ lines)
    else none
termination_by s.length

def sections : List Line → List Pair × List Section
  | [] => ([], [])
  | .pair p :: ls => (p :: (sections ls).1, (sections ls).2)
  | .table path key :: ls => ([], .table path key (sections ls).1 :: (sections ls).2)
  | .entry path key :: ls => ([], .entry path key (sections ls).1 :: (sections ls).2)

def byteOrderMark : Char := '\ufeff'

def parse? (s : String) : Option Toml := do
  let chars := match s.toList with
    | c :: cs => if c = byteOrderMark then cs else c :: cs
    | [] => []
  let (pairs, sections) := sections (← takeLines? chars)
  (document? pairs sections).map (table {})

end FilterSql.Toml
