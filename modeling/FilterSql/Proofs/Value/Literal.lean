import FilterSql.Query.Where
import FilterSql.Proofs.Sql.Quoting
/-!
# Literals of values

A quoted literal is one token of SQL, whatever the value's text is, and undoing the doubling of its
quotes gives the text back. The text of a number has neither quotes nor dollar signs, so the
literals of a list are well quoted when all values are numbers or the first one is none.
-/
namespace FilterSql

open Sql

/-- Two quotes in a row read as one. -/
def Sql.undouble : List Char → List Char
  | '\'' :: '\'' :: s => '\'' :: undouble s
  | c :: s => c :: undouble s
  | [] => []

namespace Value

/-- All values are numbers, or the first value is none. -/
def IsUniform (vs : List Value) : Prop :=
  (∀ v ∈ vs, v.isNumeric = true) ∨ vs.head?.any isNumeric = false

theorem doubleQuotes_cons (c : Char) (s : List Char) :
    doubleQuotes (c :: s) = (if c = '\'' then ['\'', '\''] else [c]) ++ doubleQuotes s := rfl

theorem undouble_doubleQuotes (s : List Char) : undouble (doubleQuotes s) = s := by
  induction s with
  | nil => rfl
  | cons c s ih =>
    rw [doubleQuotes_cons]
    by_cases hc : c = '\''
    · rw [if_pos hc, hc]
      exact congrArg ('\'' :: ·) ih
    · rw [if_neg hc, List.singleton_append, undouble, ih]
      exact fun _ h _ => hc h

theorem literalTail?_doubleQuotes (s : List Char) {r : List Char} (hr : r.head? ≠ some '\'') :
    literalTail? (doubleQuotes s ++ '\'' :: r) = some (doubleQuotes s ++ ['\''], r) := by
  induction s with
  | nil => exact literalTail?_close hr
  | cons c s ih =>
    rw [doubleQuotes_cons]
    by_cases hc : c = '\''
    · rw [if_pos hc, List.append_assoc, List.cons_append, List.singleton_append, literalTail?_pair,
        ih]
      rfl
    · rw [if_neg hc, List.append_assoc, List.singleton_append, literalTail?_char _ hc, ih]
      rfl

theorem toList_literal_quoted (v : Value) :
    (v.literal true).toList = '\'' :: (doubleQuotes v.display.toList ++ ['\'']) := by
  simp [literal]

def literalToken (v : Value) : Token := ⟨.literal, (v.literal true).toList⟩

/-- A quoted value is read as one token by whatever follows it but a quote. -/
theorem tokens_literal (v : Value) {r : List Char} (hr : r.head? ≠ some '\'') :
    tokens ((v.literal true).toList ++ r) = v.literalToken :: tokens r := by
  rw [literalToken, toList_literal_quoted, List.cons_append, List.append_assoc,
    List.singleton_append, tokens_cons]
  simp [nextToken, literalTail?_doubleQuotes _ hr]

theorem inside_outside_literal (v : Value) : inside false (v.literal true).toList = false ∧
    outside false (v.literal true).toList = [] := by
  have hd (s : List Char) : inside true (doubleQuotes s) = true ∧
      outside true (doubleQuotes s) = [] := by
    induction s with
    | nil => exact ⟨rfl, rfl⟩
    | cons c s ih =>
      rw [doubleQuotes_cons]
      by_cases hc : c = '\'' <;> simpa [inside, outside, hc] using ih
  obtain ⟨hi, ho⟩ := hd v.display.toList
  rw [toList_literal_quoted, inside, outside, if_pos rfl, if_pos rfl, inside_append, outside_append,
    Bool.not_false, hi, ho]
  exact ⟨rfl, rfl⟩

theorem wellQuoted_literal (v : Value) : WellQuoted 0 (v.literal true).toList := by
  obtain ⟨hi, ho⟩ := inside_outside_literal v
  exact ⟨⟨hi, by simp [ho]⟩, by rw [ho]; rfl⟩

theorem lacks_of_isDigit {s : List Char} (h : ∀ c ∈ s, c.isDigit = true) : Lacks isMark s :=
  fun c hc => isMark_eq_false (p := Char.isDigit) (by decide) (h c hc)

theorem lacks_toDigits (n : Nat) : Lacks isMark (Nat.toDigits 10 n) :=
  lacks_of_isDigit fun _ hc => Nat.isDigit_of_mem_toDigits (by decide) (by decide) hc

theorem lacks_zeros (n : Nat) : Lacks isMark (NumberLayout.zeros n).toList := by
  apply lacks_of_isDigit
  intro c hc
  rw [NumberLayout.zeros, String.toList_ofList] at hc
  rw [List.eq_of_mem_replicate hc]
  rfl

theorem lacks_position {digits : List Char} (h : Lacks isMark digits) (e : Int) :
    Lacks isMark (NumberLayout.plain.position digits e).toList := by
  have htake (n : Nat) : Lacks isMark (digits.take n) := fun c hc => h c (List.mem_of_mem_take hc)
  have hdrop (n : Nat) : Lacks isMark (digits.drop n) := fun c hc => h c (List.mem_of_mem_drop hc)
  have hnil : Lacks isMark [] := by decide
  have hpoint : Lacks isMark ['.'] := by decide
  have hzero : Lacks isMark ['0', '.'] := by decide
  unfold NumberLayout.position
  split
  · simpa [NumberLayout.plain] using h.append (lacks_zeros _)
  · dsimp only
    split
    · simpa using ((htake _).append hpoint).append (hdrop _)
    · simpa using (hzero.append (lacks_zeros _)).append h

theorem chars_display_int (n : Int64) :
    ∀ c ∈ (display (.int n)).toList, c.isDigit = true ∨ c = '-' := by
  have hnat (m : Nat) : ∀ c ∈ m.repr.toList, c.isDigit = true := by
    intro c hc
    rw [Nat.toList_repr] at hc
    exact Nat.isDigit_of_mem_toDigits (by decide) (by decide) hc
  intro c hc
  rw [display, Int.toString_eq_repr, Int.repr_eq_if] at hc
  split at hc
  · exact Or.inl (hnat _ c hc)
  · rw [String.toList_append] at hc
    rcases List.mem_append.1 hc with hc | hc
    · exact Or.inr (by simpa using hc)
    · exact Or.inl (hnat _ c hc)

theorem lacks_display {v : Value} (h : v.isNumeric = true) : Lacks isMark v.display.toList := by
  have hsign (b : Bool) : Lacks isMark (NumberLayout.signText b).toList := by
    cases b <;> decide
  cases v with
  | int n =>
    intro c hc
    rcases chars_display_int n c hc with hd | rfl
    · exact lacks_of_isDigit (s := [c]) (by simpa using hd) c (by simp)
    · rfl
  | float x =>
    rw [display]
    cases x with
    | nan => decide
    | infinity s =>
      rw [NumberLayout.write, String.toList_append]
      exact (hsign _).append (by decide)
    | finite s m e =>
      rw [NumberLayout.write, String.toList_append]
      refine (hsign s).append ?_
      split
      · decide
      · exact lacks_position (lacks_toDigits _) _
  | null | bool | text | timestamp | choice => simp [isNumeric] at h

theorem toList_listLiterals (vs : List Value) :
    (listLiterals vs).toList =
      [','].intercalate (vs.map fun v => (v.literal !(vs.head?.any isNumeric)).toList) := by
  rw [listLiterals, String.toList_intercalate, List.map_map]
  rfl

theorem literal_false (v : Value) : v.literal false = v.display := rfl

theorem intercalate_closed {P : List Char → Prop} {sep : List Char} (hnil : P []) (hsep : P sep)
    (happend : ∀ s t, P s → P t → P (s ++ t)) {ss : List (List Char)} (h : ∀ s ∈ ss, P s) :
    P (sep.intercalate ss) := by
  induction ss with
  | nil => exact hnil
  | cons s ss ih =>
    have hs := h s List.mem_cons_self
    have hss := ih fun t ht => h t (List.mem_cons_of_mem s ht)
    cases ss with
    | nil => simpa [List.intercalate] using hs
    | cons t ss =>
      rw [List.intercalate_cons_cons]
      exact happend _ _ (happend _ _ hs hsep) hss

theorem lacks_listLiterals {vs : List Value} (h : ∀ v ∈ vs, v.isNumeric = true)
    (hq : vs.head?.any isNumeric = true) : Lacks isMark (listLiterals vs).toList := by
  rw [toList_listLiterals, hq]
  refine intercalate_closed (by decide) (by decide) (fun _ _ hs ht => hs.append ht) fun s hs => ?_
  obtain ⟨v, hv, rfl⟩ := List.mem_map.1 hs
  exact lacks_display (h v hv)

theorem wellQuoted_listLiterals {vs : List Value} (h : IsUniform vs) :
    WellQuoted 0 (listLiterals vs).toList := by
  cases hq : vs.head?.any isNumeric with
  | false =>
    rw [toList_listLiterals, hq]
    refine intercalate_closed .nil (.of_lacks (by decide)) (fun _ _ hs ht => hs.append ht)
      fun s hs => ?_
    obtain ⟨v, -, rfl⟩ := List.mem_map.1 hs
    exact wellQuoted_literal v
  | true =>
    rcases h with h | h
    · exact .of_lacks (lacks_listLiterals h hq)
    · rw [hq] at h
      cases h

def listTokens (vs : List Value) : List Token :=
  (vs.map literalToken).intersperse ⟨.other, [',']⟩

theorem intercalate_literals_cons {quoted : Bool} (v w : Value) (vs : List Value) :
    [','].intercalate ((v :: w :: vs).map fun u => (u.literal quoted).toList) =
      (v.literal quoted).toList ++
        ',' :: [','].intercalate ((w :: vs).map fun u => (u.literal quoted).toList) := by
  rw [List.map_cons, List.map_cons, List.intercalate_cons_cons, List.append_assoc]
  rfl

theorem exists_intercalate_literals (v : Value) (vs : List Value) :
    ∃ s, [','].intercalate ((v :: vs).map fun u => (u.literal true).toList) = '\'' :: s := by
  cases vs <;> simp [List.intercalate, toList_literal_quoted]

theorem startsMark_listLiterals {vs : List Value} (h : vs.head?.any isNumeric = false)
    (hne : vs ≠ []) (r : List Char) : startsMark ((listLiterals vs).toList ++ r) := by
  obtain ⟨v, ws, rfl⟩ := List.exists_cons_of_ne_nil hne
  obtain ⟨s, hs⟩ := exists_intercalate_literals v ws
  rw [toList_listLiterals, h, Bool.not_false, hs]
  exact startsMark_quote _

/-- A list whose first value is no number is read as its literals and the commas between them. -/
theorem tokens_listLiterals {vs : List Value} (h : vs.head?.any isNumeric = false)
    {r : List Char} (hr : r.head? ≠ some '\'') (hne : vs ≠ []) :
    tokens ((listLiterals vs).toList ++ r) = listTokens vs ++ tokens r := by
  rw [toList_listLiterals, h, Bool.not_false]
  clear h
  induction vs with
  | nil => exact absurd rfl hne
  | cons v vs ih =>
    cases vs with
    | nil => simpa [List.intercalate, listTokens] using tokens_literal v hr
    | cons w vs =>
      have hcomma (s : List Char) : tokens (',' :: '\'' :: s) =
          ⟨.other, [',']⟩ :: tokens ('\'' :: s) := by
        rw [tokens_plain _ (by decide)]
        rfl
      -- the next literal's quote ends the token of the comma
      obtain ⟨s, hs⟩ := exists_intercalate_literals w vs
      have ih := ih (by simp)
      rw [hs, List.cons_append] at ih
      rw [intercalate_literals_cons, List.append_assoc, tokens_literal v (by simp), hs,
        List.cons_append, List.cons_append, hcomma, ih]
      rfl

theorem tokens_listLiterals_closed {vs : List Value} (h : vs.head?.any isNumeric = false)
    (hne : vs ≠ []) : tokens (listLiterals vs).toList = listTokens vs := by
  have ht := tokens_listLiterals h (r := []) (by simp) hne
  rwa [List.append_nil, tokens_nil, List.append_nil] at ht

theorem mem_listTokens {vs : List Value} {t : Token} (h : t ∈ listTokens vs) :
    t = ⟨.other, [',']⟩ ∨ t.kind = .literal := by
  rw [listTokens] at h
  induction vs with
  | nil => cases h
  | cons v vs ih =>
    cases vs with
    | nil => exact Or.inr (by rw [List.mem_singleton.1 h]; rfl)
    | cons w vs =>
      rcases List.mem_cons.1 h with rfl | h
      · exact Or.inr rfl
      rcases List.mem_cons.1 h with rfl | h
      · exact Or.inl rfl
      · exact ih h

theorem kind_of_mem_listTokens {vs : List Value} {t : Token} (h : t ∈ listTokens vs) :
    t.kind ≠ .path := by
  rcases mem_listTokens h with rfl | hk
  · exact TokenKind.noConfusion
  · rw [hk]
    exact TokenKind.noConfusion

/-- All values are integers, or the first value is no number. -/
def IsLexical (vs : List Value) : Prop :=
  (∀ v ∈ vs, ∃ n, v = .int n) ∨ vs.head?.any isNumeric = false

theorem isPlain_listLiterals {vs : List Value} (h : ∀ v ∈ vs, ∃ n, v = .int n)
    (hq : vs.head?.any isNumeric = true) : (listLiterals vs).toList.all isPlain = true := by
  have happend (s t : List Char) (hs : s.all isPlain = true) (ht : t.all isPlain = true) :
      (s ++ t).all isPlain = true := by rw [List.all_append, hs, ht]; rfl
  rw [toList_listLiterals, hq]
  refine intercalate_closed (P := fun s => s.all isPlain = true) rfl (by decide) happend ?_
  intro s hs
  obtain ⟨v, hv, rfl⟩ := List.mem_map.1 hs
  obtain ⟨n, rfl⟩ := h v hv
  rw [Bool.not_true, literal_false, List.all_eq_true]
  intro c hc
  rcases chars_display_int n c hc with hd | rfl
  · exact isPlain_of_isDigit hd
  · decide

/-- What is gathered from a list whose first value is no number; nothing behind it is an alias. -/
theorem gather_listLiterals {β : Type} {g : Bool × Token → List β} {vs : List Value}
    (h : vs.head?.any isNumeric = false) (hne : vs ≠ []) (aliased : Bool) {r : List Char}
    (hr : r.head? ≠ some '\'') :
    gather g aliased (tokens ((listLiterals vs).toList ++ r)) =
      (listTokens vs).flatMap (fun t => g (false, t)) ++ gather g false (tokens r) := by
  have hgap : (listTokens vs).all Token.isGap = false := by
    obtain ⟨v, ws, rfl⟩ := List.exists_cons_of_ne_nil hne
    cases ws <;> rfl
  rw [tokens_listLiterals h hr hne, gather_append_of_not_path fun t => kind_of_mem_listTokens,
    hgap, Bool.and_false]

theorem resolveFrom_listLiterals {f : String → Option String} {vs : List Value}
    (h : vs.head?.any isNumeric = false) (hne : vs ≠ []) (aliased : Bool) {r : List Char}
    (hr : r.head? ≠ some '\'') :
    resolveFrom f aliased ((listLiterals vs).toList ++ r) =
      (listLiterals vs).toList ++ resolveFrom f false r := by
  have hconcat : concat (listTokens vs) = (listLiterals vs).toList := by
    rw [← tokens_listLiterals_closed h hne, concat_tokens]
  rw [resolveFrom, resolveFrom, resolveTokens_eq_gather, resolveTokens_eq_gather,
    gather_listLiterals h hne aliased hr, ← hconcat]
  rfl

/-- A list in front of its closing parenthesis has no references. -/
theorem resolves_listLiterals (f : String → Option String) {vs : List Value} (h : IsLexical vs) :
    Resolves f (listLiterals vs ++ ")") (listLiterals vs ++ ")") := by
  have hclose : Resolves f ")" ")" := .plain (by decide)
  cases hq : vs.head?.any isNumeric with
  | true =>
    rcases h with h | h
    · exact (Resolves.plain (isPlain_listLiterals h hq)).append hclose
    · rw [hq] at h
      cases h
  | false =>
    cases vs with
    | nil => exact Resolves.plain (by decide)
    | cons v vs =>
      intro r
      rw [String.toList_append, List.append_assoc, List.append_assoc, ← hclose]
      exact resolveFrom_listLiterals hq (by simp) false (by simp)

end Value
end FilterSql
