import FilterSql.Json.Lexeme
/-!
# JSON texts

Reading has two steps. The first accepts the grammar and nothing more, and keeps numerals and
quoted texts as they are written. The second turns what is written into values and refuses
numbers out of range, halves of surrogate pairs and nesting beyond a limit. A part of a text that
nobody reads is only held to the first step.
-/
namespace FilterSql

/-- What a JSON text says, its numerals and quoted texts unread. -/
inductive JsonText where
  | null
  | flag (b : Bool)
  | numeral (n : JsonNumeral)
  | quoted (q : Quoted)
  | list (items : List JsonText)
  | record (fields : List (Quoted × JsonText))

namespace JsonText

inductive Frame where
  | list (items : List JsonText)
  | record (fields : List (Quoted × JsonText)) (key : Option Quoted)

inductive Expected where
  | value
  | valueOrClose
  | key
  | keyOrClose
  | colon
  | separator
  deriving DecidableEq

/-- The state of reading lexemes: the open lists and records, innermost first, and the finished
value once there is one. -/
structure Reading where
  frames : List Frame
  expected : Expected
  result : Option JsonText

def Reading.start : Reading := ⟨[], .value, none⟩

def Expected.takesValue : Expected → Bool
  | .value | .valueOrClose => true
  | _ => false

def Reading.supply (v : JsonText) : List Frame → Option Reading
  | [] => some ⟨[], .separator, some v⟩
  | .list items :: fs => some ⟨.list (v :: items) :: fs, .separator, none⟩
  | .record fields (some k) :: fs => some ⟨.record ((k, v) :: fields) none :: fs, .separator, none⟩
  | .record _ none :: _ => none

def Reading.step (r : Reading) (l : JsonLexeme) : Option Reading :=
  let value (v : JsonText) := if r.expected.takesValue then supply v r.frames else none
  match l with
  | .null => value .null
  | .flag b => value (.flag b)
  | .numeral n => value (.numeral n)
  | .openList =>
    if r.expected.takesValue then some ⟨.list [] :: r.frames, .valueOrClose, none⟩ else none
  | .openRecord =>
    if r.expected.takesValue then some ⟨.record [] none :: r.frames, .keyOrClose, none⟩ else none
  | .quoted q =>
    match r.expected, r.frames with
    | .key, .record fields none :: fs | .keyOrClose, .record fields none :: fs =>
      some ⟨.record fields (some q) :: fs, .colon, none⟩
    | _, _ => value (.quoted q)
  | .colon => if r.expected = .colon then some { r with expected := .value } else none
  | .comma =>
    match r.expected, r.frames with
    | .separator, .list items :: fs => some ⟨.list items :: fs, .value, none⟩
    | .separator, .record fields k :: fs => some ⟨.record fields k :: fs, .key, none⟩
    | _, _ => none
  | .closeList =>
    match r.expected, r.frames with
    | .separator, .list items :: fs | .valueOrClose, .list items :: fs =>
      supply (.list items.reverse) fs
    | _, _ => none
  | .closeRecord =>
    match r.expected, r.frames with
    | .separator, .record fields _ :: fs | .keyOrClose, .record fields _ :: fs =>
      supply (.record fields.reverse) fs
    | _, _ => none

def parse? (s : List Char) : Option JsonText := do
  let lexemes ← jsonLexemes? s
  let r ← lexemes.foldlM Reading.step Reading.start
  r.result

def nestingLimit : Nat := 127

mutual

/-- The value of a text, with room for `room` more open lists and records. -/
def read? : Nat → JsonText → Option Json
  | _, .null => some .null
  | _, .flag b => some (.flag b)
  | _, .numeral n => n.value?
  | _, .quoted q => q.text?.map .text
  | 0, .list _ => none
  | 0, .record _ => none
  | room + 1, .list items => (readItems? room items).map .list
  | room + 1, .record fields => (readFields? room fields).map .record

def readItems? : Nat → List JsonText → Option (List Json)
  | _, [] => some []
  | room, v :: vs => do
    let j ← read? room v
    let js ← readItems? room vs
    some (j :: js)

def readFields? : Nat → List (Quoted × JsonText) → Option (List (String × Json))
  | _, [] => some []
  | room, (k, v) :: fs => do
    let key ← k.text?
    let j ← read? room v
    let js ← readFields? room fs
    some ((key, j) :: js)

end

end JsonText

def Json.parse? (s : String) : Option Json :=
  (JsonText.parse? s.toList).bind (JsonText.read? JsonText.nestingLimit)

end FilterSql
