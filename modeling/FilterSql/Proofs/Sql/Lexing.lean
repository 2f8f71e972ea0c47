import FilterSql.Sql.Token
import Mathlib.Tactic.Common
/-!
# Tokens of concatenated texts

What a text starts with decides its first token as soon as the rest cannot go on with it. A text is
complete when every quote in it belongs to a literal and every dollar sign to a literal or a tag;
what follows a complete text at a quote or a dollar sign is read by itself.
-/
namespace FilterSql.Sql

def isName : List Char → Bool
  | c :: s => isNameStart c && s.all isNameChar
  | [] => false

/-- Names joined by points. -/
inductive IsPath : List Char → Prop
  | name {n : List Char} (hn : isName n = true) : IsPath n
  | qualified {n p : List Char} (hn : isName n = true) (hp : IsPath p) : IsPath (n ++ '.' :: p)

/-- Whether a text goes on with a path that stands in front of it. -/
def continuesPath : List Char → Bool
  | '.' :: c :: _ => isNameStart c
  | c :: _ => isNameChar c
  | [] => false

theorem isNameChar_of_isNameStart {c : Char} (h : isNameStart c = true) : isNameChar c = true := by
  simp only [isNameStart, isNameChar, Char.isAlphanum, Bool.or_eq_true] at h ⊢
  rcases h with h | h
  · exact Or.inl (Or.inl h)
  · exact Or.inr h

theorem ne_of_true_of_false {α : Type} {p : α → Bool} {a b : α} (ha : p a = true)
    (hb : p b = false) : a ≠ b := by
  rintro rfl
  rw [ha] at hb
  cases hb

theorem isPlain_of_not_isNameStart {c : Char} (hn : isNameStart c = false) (hq : c ≠ '\'')
    (hd : c ≠ '$') : isPlain c = true := by
  simp [isPlain, hn, hq, hd]

theorem isPlain_of_isDigit {c : Char} (h : c.isDigit = true) : isPlain c = true := by
  have hne (m : Char) (hm : m.isDigit = false) : c ≠ m := ne_of_true_of_false h hm
  have hle (m : Char) (hm : 57 < m.toNat) : ¬ m.val ≤ c.val := by
    have hc : c.toNat ≤ 57 := (Char.isDigit_iff_toNat.1 h).2
    rw [UInt32.le_iff_toNat_le]
    change ¬ m.toNat ≤ c.toNat
    omega
  have hupper : c.isUpper = false := decide_eq_false fun hc => hle 'A' (by decide) hc.1
  have hlower : c.isLower = false :=
    Bool.and_eq_false_iff.2 (Or.inl (decide_eq_false (hle 'a' (by decide))))
  have halpha : c.isAlpha = false := Bool.or_eq_false_iff.2 ⟨hupper, hlower⟩
  have hstart : isNameStart c = false := by simp [isNameStart, halpha, hne '_' (by decide)]
  exact isPlain_of_not_isNameStart hstart (hne _ (by decide)) (hne _ (by decide))

theorem pathTail_point {c : Char} (s : List Char) (h : isNameStart c = true) :
    pathTail ('.' :: c :: s) = ('.' :: c :: (pathTail s).1, (pathTail s).2) := by
  rw [pathTail, if_pos h]

theorem pathTail_nameChar {c : Char} (s : List Char) (h : isNameChar c = true) :
    pathTail (c :: s) = (c :: (pathTail s).1, (pathTail s).2) := by
  have hp : c ≠ '.' := ne_of_true_of_false h (by decide)
  rw [pathTail, if_pos h]
  intro d t hc
  exact absurd hc hp

theorem pathTail_of_not_continues {r : List Char} (h : continuesPath r = false) :
    pathTail r = ([], r) := by
  fun_cases pathTail r with
  | case1 c s hc => simp [continuesPath, hc] at h
  | case2 c s hc => simp
  | case3 c s hp hc =>
    rw [continuesPath] at h
    · simp [hc] at h
    · exact hp
  | case4 c s hp hc => simp
  | case5 => simp

theorem pathTail_nameChars {s : List Char} (r : List Char) (h : s.all isNameChar = true) :
    pathTail (s ++ r) = (s ++ (pathTail r).1, (pathTail r).2) := by
  induction s with
  | nil => simp
  | cons c s ih =>
    rw [List.all_cons, Bool.and_eq_true] at h
    rw [List.cons_append, pathTail_nameChar _ h.1, ih h.2]
    simp

theorem isName_cases {n : List Char} (h : isName n = true) :
    ∃ c s, n = c :: s ∧ isNameStart c = true ∧ s.all isNameChar = true := by
  cases n with
  | nil => simp [isName] at h
  | cons c s =>
    rw [isName, Bool.and_eq_true] at h
    exact ⟨c, s, rfl, h.1, h.2⟩

theorem isNameChar_of_mem {n : List Char} (h : isName n = true) {c : Char} (hc : c ∈ n) :
    isNameChar c = true := by
  obtain ⟨d, s, rfl, hd, hs⟩ := isName_cases h
  rcases List.mem_cons.1 hc with rfl | hc
  · exact isNameChar_of_isNameStart hd
  · exact List.all_eq_true.1 hs c hc

theorem not_mem_of_isName {n : List Char} (h : isName n = true) : '.' ∉ n :=
  fun hp => absurd (isNameChar_of_mem h hp) (by decide)

theorem IsPath.chars {p : List Char} (hp : IsPath p) {c : Char} (hc : c ∈ p) :
    isNameChar c = true ∨ c = '.' := by
  induction hp with
  | name hn => exact Or.inl (isNameChar_of_mem hn hc)
  | qualified hn _ ih =>
    rcases List.mem_append.1 hc with hc | hc
    · exact Or.inl (isNameChar_of_mem hn hc)
    rcases List.mem_cons.1 hc with rfl | hc
    · exact Or.inr rfl
    · exact ih hc

theorem isName_concat {n : List Char} (hn : isName n = true) {c : Char}
    (hc : isNameChar c = true) : isName (n ++ [c]) = true := by
  obtain ⟨d, s, rfl, hd, hs⟩ := isName_cases hn
  simp [isName, hd, hs, hc]

theorem isPath_pathTail {n : List Char} (hn : isName n = true) (s : List Char) :
    IsPath (n ++ (pathTail s).1) := by
  fun_induction pathTail s generalizing n with
  | case1 c s hc ih => exact .qualified hn (ih (n := [c]) (by simp [isName, hc]))
  | case3 c s _ hc ih =>
    have hpath := ih (isName_concat hn hc)
    rwa [List.append_assoc, List.singleton_append] at hpath
  | case2 | case4 | case5 =>
    rw [List.append_nil]
    exact .name hn

theorem isPath_of_isNameStart {c : Char} (hc : isNameStart c = true) (s : List Char) :
    IsPath (c :: (pathTail s).1) := isPath_pathTail (n := [c]) (by simp [isName, hc]) s

theorem pathTail_path {p : List Char} (hp : IsPath p) (r : List Char) :
    ∃ c s, p = c :: s ∧ isNameStart c = true ∧
      pathTail (s ++ r) = (s ++ (pathTail r).1, (pathTail r).2) := by
  induction hp with
  | name hn =>
    obtain ⟨c, s, rfl, hc, hs⟩ := isName_cases hn
    exact ⟨c, s, rfl, hc, pathTail_nameChars r hs⟩
  | @qualified n p hn hp ih =>
    obtain ⟨c, s, rfl, hc, hs⟩ := isName_cases hn
    obtain ⟨d, t, rfl, hd, ht⟩ := ih
    refine ⟨c, s ++ '.' :: d :: t, by simp, hc, ?_⟩
    rw [List.append_assoc, pathTail_nameChars _ hs, List.cons_append, List.cons_append,
      pathTail_point _ hd, ht]
    simp

theorem nextToken_name {c : Char} (s : List Char) (h : isNameStart c = true) :
    nextToken c s = (⟨.path, c :: (pathTail s).1⟩, (pathTail s).2) := by
  have hc := isNameChar_of_isNameStart h
  unfold nextToken
  rw [if_neg (ne_of_true_of_false hc (by decide)), if_neg (ne_of_true_of_false hc (by decide)),
    if_pos h]

theorem nextToken_plain {c : Char} (s : List Char) (h : isPlain c = true) :
    nextToken c s = (⟨.other, c :: s.takeWhile isPlain⟩, s.dropWhile isPlain) := by
  simp only [isPlain, Bool.and_eq_true, Bool.not_eq_true', bne_iff_ne] at h
  unfold nextToken
  rw [if_neg h.1.2, if_neg h.2, if_neg (by simp [h.1.1])]

theorem tokens_cons (c : Char) (s : List Char) :
    tokens (c :: s) = (nextToken c s).1 :: tokens (nextToken c s).2 := by
  rw [tokens]

theorem tokens_path {p r : List Char} (hp : IsPath p) (hr : continuesPath r = false) :
    tokens (p ++ r) = ⟨.path, p⟩ :: tokens r := by
  obtain ⟨c, s, rfl, hc, hs⟩ := pathTail_path hp r
  rw [List.cons_append, tokens_cons, nextToken_name _ hc, hs, pathTail_of_not_continues hr]
  simp

theorem tokens_plain {c : Char} (s : List Char) (h : isPlain c = true) :
    tokens (c :: s) = ⟨.other, c :: s.takeWhile isPlain⟩ :: tokens (s.dropWhile isPlain) := by
  rw [tokens_cons, nextToken_plain s h]

theorem tagTail?_char {c : Char} (s : List Char) (h : c ≠ '}') :
    tagTail? (c :: s) = (tagTail? s).map fun r => (c :: r.1, r.2) := by
  rw [tagTail?]
  exact h

theorem tagTail?_of_not_mem {body : List Char} (r : List Char) (h : '}' ∉ body) :
    tagTail? (body ++ '}' :: r) = some (body ++ ['}'], r) := by
  induction body with
  | nil => rfl
  | cons c s ih =>
    rw [List.mem_cons, not_or] at h
    rw [List.cons_append, tagTail?_char _ (Ne.symm h.1), ih h.2]
    rfl

theorem tokens_tag {body : List Char} (r : List Char) (h : '}' ∉ body) :
    tokens ('$' :: '{' :: (body ++ '}' :: r)) =
      ⟨.tag, '$' :: '{' :: (body ++ ['}'])⟩ :: tokens r := by
  rw [tokens_cons]
  simp [nextToken, tagTail?_of_not_mem r h]

/-- A token other than a quote or a dollar sign that stands alone. -/
def Token.isSettled (t : Token) : Bool := t.chars != ['\''] && t.chars != ['$']

/-- No quote and no dollar sign of the text stands alone. -/
def IsComplete (s : List Char) : Prop := ∀ t ∈ tokens s, t.isSettled = true

theorem isComplete_nil : IsComplete [] := by simp [IsComplete]

theorem isComplete_cons {c : Char} {s : List Char} :
    IsComplete (c :: s) ↔
      (nextToken c s).1.isSettled = true ∧ IsComplete (nextToken c s).2 := by
  simp [IsComplete, tokens_cons]

def startsMark (r : List Char) : Prop := ∃ c t, r = c :: t ∧ (c = '\'' ∨ c = '$')

theorem startsMark_quote (r : List Char) : startsMark ('\'' :: r) := ⟨_, r, rfl, Or.inl rfl⟩

theorem startsMark_dollar (r : List Char) : startsMark ('$' :: r) := ⟨_, r, rfl, Or.inr rfl⟩

theorem pathTail_append_stop {m : Char} (hm : isNameChar m = false) (hpoint : m ≠ '.')
    (s t : List Char) : pathTail (s ++ m :: t) = ((pathTail s).1, (pathTail s).2 ++ m :: t) := by
  have hstart : isNameStart m = false :=
    Bool.eq_false_iff.2 fun h => by rw [isNameChar_of_isNameStart h] at hm; cases hm
  have hstop : continuesPath (m :: t) = false := by
    rw [continuesPath]
    · exact hm
    · exact fun _ _ h _ => hpoint h
  fun_induction pathTail s with
  | case1 c s hc ih => rw [List.cons_append, List.cons_append, pathTail_point _ hc, ih]
  | case2 c s hc => exact pathTail_of_not_continues (by simpa [continuesPath] using hc)
  | case3 c s hp hc ih => rw [List.cons_append, pathTail_nameChar _ hc, ih]
  | case4 c s hp hc =>
    apply pathTail_of_not_continues
    by_cases hc' : c = '.'
    · cases s with
      | nil => simpa [hc', continuesPath] using hstart
      | cons d s => exact absurd rfl (hp d s hc')
    · rw [List.cons_append, continuesPath]
      · simpa using hc
      · exact fun _ _ h _ => hc' h
  | case5 => exact pathTail_of_not_continues hstop

theorem pathTail_append_mark {r : List Char} (hr : startsMark r) (s : List Char) :
    pathTail (s ++ r) = ((pathTail s).1, (pathTail s).2 ++ r) := by
  obtain ⟨m, t, rfl, rfl | rfl⟩ := hr
  · exact pathTail_append_stop (by decide) (by decide) s t
  · exact pathTail_append_stop (by decide) (by decide) s t

theorem literalTail?_pair (s : List Char) :
    literalTail? ('\'' :: '\'' :: s) =
      (literalTail? s).map fun r => ('\'' :: '\'' :: r.1, r.2) := by
  rw [literalTail?]

theorem literalTail?_close {s : List Char} (h : s.head? ≠ some '\'') :
    literalTail? ('\'' :: s) = some (['\''], s) := by
  rw [literalTail?]
  rintro t rfl
  exact h rfl

theorem literalTail?_char {c : Char} (s : List Char) (h : c ≠ '\'') :
    literalTail? (c :: s) = (literalTail? s).map fun r => (c :: r.1, r.2) := by
  rw [literalTail?]
  · exact fun _ hc _ => h hc
  · exact h

theorem literalTail?_append_right {s : List Char} {x : List Char × List Char}
    (hx : literalTail? s = some x) {r : List Char} (hr : x.2 ≠ [] ∨ r.head? ≠ some '\'') :
    literalTail? (s ++ r) = some (x.1, x.2 ++ r) := by
  fun_induction literalTail? s generalizing x with
  | case1 s ih =>
    obtain ⟨y, hy, rfl⟩ := Option.map_eq_some_iff.1 hx
    rw [List.cons_append, List.cons_append, literalTail?_pair, ih hy hr]
    rfl
  | case2 s hs =>
    obtain rfl := Option.some.inj hx
    rw [List.cons_append, literalTail?_close]
    cases s with
    | nil => simpa using hr
    | cons c s => simpa using fun hc => hs s (by rw [hc])
  | case3 c s _ hc ih =>
    obtain ⟨y, hy, rfl⟩ := Option.map_eq_some_iff.1 hx
    rw [List.cons_append, literalTail?_char _ hc, ih hy hr]
    rfl
  | case4 => simp at hx

theorem tagTail?_append_right {s : List Char} {x : List Char × List Char}
    (hx : tagTail? s = some x) (r : List Char) : tagTail? (s ++ r) = some (x.1, x.2 ++ r) := by
  fun_induction tagTail? s generalizing x with
  | case1 s =>
    obtain rfl := Option.some.inj hx
    rfl
  | case2 c s hc ih =>
    obtain ⟨y, hy, rfl⟩ := Option.map_eq_some_iff.1 hx
    rw [List.cons_append, tagTail?_char _ hc, ih hy]
    rfl
  | case3 => simp at hx

theorem takeWhile_append_of_head {p : Char → Bool} {r : List Char}
    (hr : ∀ c t, r = c :: t → p c = false) (s : List Char) :
    (s ++ r).takeWhile p = s.takeWhile p ∧ (s ++ r).dropWhile p = s.dropWhile p ++ r := by
  induction s with
  | nil =>
    cases r with
    | nil => simp
    | cons c t => simp [hr c t rfl]
  | cons c s ih =>
    cases hc : p c with
    | true => simp [hc, ih]
    | false => simp [hc]

theorem literalTail?_getLast {s : List Char} {x : List Char × List Char}
    (hx : literalTail? s = some x) : x.1.getLast? = some '\'' := by
  fun_induction literalTail? s generalizing x with
  | case1 s ih =>
    obtain ⟨y, hy, rfl⟩ := Option.map_eq_some_iff.1 hx
    simp [List.getLast?_cons, ih hy]
  | case2 s hs =>
    obtain rfl := Option.some.inj hx
    rfl
  | case3 c s _ hc ih =>
    obtain ⟨y, hy, rfl⟩ := Option.map_eq_some_iff.1 hx
    simp [List.getLast?_cons, ih hy]
  | case4 => simp at hx

/-- A settled literal or tag at the start of a text does not change when the text goes on. Only a
literal at the very end would go on with a quote. -/
theorem nextToken_append_of_isSettled {c : Char} {s r : List Char}
    (hs : (nextToken c s).1.isSettled = true) (hc : c = '\'' ∨ c = '$')
    (hq : r.head? = some '\'' → (c :: s).getLast? ≠ some '\'') :
    nextToken c (s ++ r) = ((nextToken c s).1, (nextToken c s).2 ++ r) := by
  rcases hc with rfl | rfl
  · cases hl : literalTail? s with
    | none => simp [nextToken, hl, Token.isSettled] at hs
    | some x =>
      -- a quote right behind the closing one would make the two a pair
      have hend : x.2 ≠ [] ∨ r.head? ≠ some '\'' := by
        by_contra! h
        apply hq h.2
        have hx := literalTail?_append hl
        rw [h.1, List.append_nil] at hx
        rw [List.getLast?_cons, ← hx, literalTail?_getLast hl]
        rfl
      simp [nextToken, hl, literalTail?_append_right hl hend]
  · cases s with
    | nil => simp [nextToken, Token.isSettled] at hs
    | cons d t =>
      by_cases hd : d = '{'
      · subst hd
        cases ht : tagTail? t with
        | none => simp [nextToken, ht, Token.isSettled] at hs
        | some x => simp [nextToken, ht, tagTail?_append_right ht r]
      · simp [nextToken, hd, Token.isSettled] at hs

theorem nextToken_append_mark {c : Char} {s r : List Char}
    (hs : (nextToken c s).1.isSettled = true) (hr : startsMark r)
    (hq : r.head? = some '\'' → (c :: s).getLast? ≠ some '\'') :
    nextToken c (s ++ r) = ((nextToken c s).1, (nextToken c s).2 ++ r) := by
  by_cases hquote : c = '\''
  · exact nextToken_append_of_isSettled hs (Or.inl hquote) hq
  by_cases hdollar : c = '$'
  · exact nextToken_append_of_isSettled hs (Or.inr hdollar) hq
  by_cases hname : isNameStart c = true
  · rw [nextToken_name _ hname, nextToken_name _ hname, pathTail_append_mark hr]
  · have hplain := isPlain_of_not_isNameStart (by simpa using hname) hquote hdollar
    have hstop : ∀ d t, r = d :: t → isPlain d = false := by
      obtain ⟨m, t, rfl, hm⟩ := hr
      rintro d u h
      obtain ⟨rfl, rfl⟩ := List.cons.inj h
      rcases hm with rfl | rfl <;> decide
    have ht := takeWhile_append_of_head hstop s
    rw [nextToken_plain _ hplain, nextToken_plain _ hplain, ht.1, ht.2]

/-- A complete text is read by itself when a quote or a dollar sign follows it. -/
theorem tokens_append_of_isComplete {s r : List Char} (hs : IsComplete s) (hr : startsMark r)
    (hq : r.head? = some '\'' → s.getLast? ≠ some '\'') :
    tokens (s ++ r) = tokens s ++ tokens r := by
  fun_induction tokens s with
  | case1 => rfl
  | case2 c s ih =>
    obtain ⟨hsettled, hrest⟩ := isComplete_cons.1 hs
    have hlast : r.head? = some '\'' → (nextToken c s).2.getLast? ≠ some '\'' := by
      intro h hl
      apply hq h
      rw [← nextToken_append c s, List.getLast?_append, hl]
      rfl
    rw [List.cons_append, tokens_cons, nextToken_append_mark hsettled hr hq, ih hrest hlast]
    rfl

end FilterSql.Sql
