/-!
# Tokens of SQL texts

An SQL text is cut into quoted literals, tags `${…}`, paths of names joined by points, and
everything else. A quote or a dollar sign that starts neither a literal nor a tag is a token of
its own, so every text has tokens, and together they are the text again.
-/
namespace FilterSql.Sql

inductive TokenKind where
  | literal
  | tag
  | path
  | other
  deriving DecidableEq, Repr

structure Token where
  kind : TokenKind
  chars : List Char
  deriving DecidableEq, Repr

def Token.text (t : Token) : String := String.ofList t.chars

def isNameStart (c : Char) : Bool := c.isAlpha || c == '_'

def isNameChar (c : Char) : Bool := c.isAlphanum || c == '_'

/-- The characters that can start neither a name, nor a literal, nor a tag. -/
def isPlain (c : Char) : Bool := !isNameStart c && c != '\'' && c != '$'

def takeName? : List Char → Option (List Char × List Char)
  | c :: s => if isNameStart c then some (c :: s.takeWhile isNameChar, s.dropWhile isNameChar)
    else none
  | [] => none

/-- What continues a path after its first character, and the rest. A point belongs to the path if
another name follows it. -/
def pathTail : List Char → List Char × List Char
  | '.' :: c :: s =>
    if isNameStart c then ('.' :: c :: (pathTail s).1, (pathTail s).2) else ([], '.' :: c :: s)
  | c :: s => if isNameChar c then (c :: (pathTail s).1, (pathTail s).2) else ([], c :: s)
  | [] => ([], [])

def takePath? : List Char → Option (List Char × List Char)
  | c :: s => if isNameStart c then some (c :: (pathTail s).1, (pathTail s).2) else none
  | [] => none

/-- What ends a literal after its opening quote, and the rest. Two quotes stand for a quote
inside. -/
def literalTail? : List Char → Option (List Char × List Char)
  | '\'' :: '\'' :: s => (literalTail? s).map fun r => ('\'' :: '\'' :: r.1, r.2)
  | '\'' :: s => some (['\''], s)
  | c :: s => (literalTail? s).map fun r => (c :: r.1, r.2)
  | [] => none

def tagTail? : List Char → Option (List Char × List Char)
  | '}' :: s => some (['}'], s)
  | c :: s => (tagTail? s).map fun r => (c :: r.1, r.2)
  | [] => none

def nextToken (c : Char) (s : List Char) : Token × List Char :=
  if c = '\'' then
    match literalTail? s with
    | some r => (⟨.literal, c :: r.1⟩, r.2)
    | none => (⟨.other, [c]⟩, s)
  else if c = '$' then
    match s with
    | '{' :: t =>
      match tagTail? t with
      | some r => (⟨.tag, c :: '{' :: r.1⟩, r.2)
      | none => (⟨.other, [c]⟩, s)
    | _ => (⟨.other, [c]⟩, s)
  else if isNameStart c then (⟨.path, c :: (pathTail s).1⟩, (pathTail s).2)
  else (⟨.other, c :: s.takeWhile isPlain⟩, s.dropWhile isPlain)

theorem pathTail_append (s : List Char) : (pathTail s).1 ++ (pathTail s).2 = s := by
  fun_induction pathTail s <;> simp_all

theorem literalTail?_append {s : List Char} {r : List Char × List Char}
    (h : literalTail? s = some r) : r.1 ++ r.2 = s := by
  fun_induction literalTail? s generalizing r with
  | case1 s ih => obtain ⟨q, hq, rfl⟩ := Option.map_eq_some_iff.1 h; simp [ih hq]
  | case2 s => simp at h; simp [← h]
  | case3 c s _ _ ih => obtain ⟨q, hq, rfl⟩ := Option.map_eq_some_iff.1 h; simp [ih hq]
  | case4 => simp at h

theorem tagTail?_append {s : List Char} {r : List Char × List Char}
    (h : tagTail? s = some r) : r.1 ++ r.2 = s := by
  fun_induction tagTail? s generalizing r with
  | case1 s => simp at h; simp [← h]
  | case2 c s _ ih => obtain ⟨q, hq, rfl⟩ := Option.map_eq_some_iff.1 h; simp [ih hq]
  | case3 => simp at h

theorem nextToken_append (c : Char) (s : List Char) :
    (nextToken c s).1.chars ++ (nextToken c s).2 = c :: s := by
  unfold nextToken
  split
  · split
    · simp [literalTail?_append ‹_›]
    · simp
  · split
    · split
      · split
        · simp [tagTail?_append ‹_›]
        · simp
      · simp
    · split
      · simp [pathTail_append]
      · simp

theorem nextToken_chars_ne_nil (c : Char) (s : List Char) : (nextToken c s).1.chars ≠ [] := by
  unfold nextToken
  repeat' split
  all_goals simp

theorem nextToken_length (c : Char) (s : List Char) :
    (nextToken c s).2.length < (c :: s).length := by
  have h := congrArg List.length (nextToken_append c s)
  have h' := List.length_pos_iff.2 (nextToken_chars_ne_nil c s)
  rw [List.length_append] at h
  omega

def tokens : List Char → List Token
  | [] => []
  | c :: s => (nextToken c s).1 :: tokens (nextToken c s).2
termination_by s => s.length
decreasing_by exact nextToken_length c s

def tokenize (sql : String) : List Token := tokens sql.toList

def concat (ts : List Token) : List Char := ts.flatMap (·.chars)

@[simp] theorem tokens_nil : tokens [] = [] := by simp [tokens]

theorem concat_tokens (s : List Char) : concat (tokens s) = s := by
  fun_induction tokens s with
  | case1 => rfl
  | case2 c s ih =>
    simp only [concat] at ih
    simp [concat, ih, nextToken_append]

end FilterSql.Sql
