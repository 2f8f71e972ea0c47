import FilterSql.Proofs.Sql.Lexemes
import FilterSql.Proofs.Value.Literal
/-!
# Lexemes of lists

A list whose first value is no number is read as one literal for each value and the commas between
them, and a list of integers as the characters of its text. Neither has a parenthesis outside of
literals.
-/
namespace FilterSql.Value

open Sql

theorem flatMap_lexemes_listTokens (vs : List Value) :
    (listTokens vs).flatMap Token.lexemes = listTokens vs := by
  have hone : ∀ t ∈ listTokens vs, t.lexemes = [t] := by
    intro t ht
    rcases mem_listTokens ht with rfl | hk
    · rfl
    · rw [Token.lexemes, if_neg (by rw [hk]; exact TokenKind.noConfusion)]
  rw [List.flatMap_congr hone, List.flatMap_singleton']

theorem lexemes_listLiterals {vs : List Value} (h : vs.head?.any isNumeric = false)
    (hne : vs ≠ []) : lexemes (listLiterals vs).toList = listTokens vs := by
  rw [lexemes, tokens_listLiterals_closed h hne, flatMap_lexemes_listTokens]

/-- The lexemes of a list in front of its closing parenthesis. -/
theorem reads_listLiterals {vs : List Value} (h : IsLexical vs) :
    Reads (lexemes (listLiterals vs).toList ++ [closing]) (listLiterals vs ++ ")") := by
  have hclose : Reads [closing] ")" := .plain (by decide)
  cases hq : vs.head?.any isNumeric with
  | true =>
    rcases h with h | h
    · have hplain := isPlain_listLiterals h hq
      rw [lexemes_of_plain hplain]
      exact (Reads.plain hplain).append hclose
    · rw [hq] at h
      cases h
  | false =>
    cases vs with
    | nil => simpa [listLiterals] using hclose
    | cons v vs =>
      intro r
      have hsplit : (listLiterals (v :: vs) ++ ")").toList ++ r =
          (listLiterals (v :: vs)).toList ++ ')' :: r := by
        rw [String.toList_append, List.append_assoc]
        rfl
      have hrest : lexemes (')' :: r) = [closing] ++ lexemes r := hclose r
      rw [hsplit, lexemes_eq_gather false, gather_listLiterals hq (by simp) false (by simp),
        ← lexemes_eq_gather, hrest, flatMap_lexemes_listTokens,
        lexemes_listLiterals hq (by simp), List.append_assoc]

theorem toList_display_int_ne_nil (n : Int64) : (display (.int n)).toList ≠ [] := by
  rw [display, Int.toString_eq_repr, Int.repr_eq_if]
  split
  · rw [Nat.toList_repr]
    exact Nat.toDigits_ne_nil
  · simp

def isIntegerChar (c : Char) : Bool := c.isDigit || c == '-' || c == ','

theorem isIntegerChar_listLiterals {vs : List Value} (h : ∀ v ∈ vs, ∃ n, v = .int n)
    (hq : vs.head?.any isNumeric = true) :
    ∀ c ∈ (listLiterals vs).toList, isIntegerChar c = true := by
  rw [toList_listLiterals, hq]
  refine intercalate_closed (P := fun s => ∀ c ∈ s, isIntegerChar c = true) nofun
    (List.forall_mem_singleton.2 rfl) (fun _ _ hs ht => List.forall_mem_append.2 ⟨hs, ht⟩)
    fun s hs c hc => ?_
  obtain ⟨v, hv, rfl⟩ := List.mem_map.1 hs
  obtain ⟨n, rfl⟩ := h v hv
  rcases chars_display_int n c hc with hd | rfl
  · rw [isIntegerChar, hd]
    rfl
  · rfl

theorem listLiterals_ne_nil {n : Int64} {vs : List Value} :
    (listLiterals (.int n :: vs)).toList ≠ [] := by
  have hfirst := toList_display_int_ne_nil n
  rw [toList_listLiterals]
  cases vs with
  | nil => simpa [List.intercalate, literal, isNumeric] using hfirst
  | cons w vs =>
    rw [List.map_cons, List.map_cons, List.intercalate_cons_cons]
    exact List.append_ne_nil_of_left_ne_nil (List.append_ne_nil_of_left_ne_nil hfirst _) _

theorem isBlank_of_isIntegerChar {c : Char} (h : isIntegerChar c = true) :
    Text.isBlank c = false := by
  rw [isIntegerChar, Bool.or_eq_true, Bool.or_eq_true, beq_iff_eq, beq_iff_eq] at h
  rcases h with (hd | rfl) | rfl
  · refine Bool.eq_false_iff.2 fun hblank => ?_
    have hdigit : 48 ≤ c.toNat ∧ c.toNat ≤ 57 := Char.isDigit_iff_toNat.1 hd
    simp [Text.isBlank] at hblank
    omega
  · rfl
  · rfl

theorem enclosable_listLiterals {vs : List Value} (h : IsLexical vs) (hne : vs ≠ []) :
    Enclosable (lexemes (listLiterals vs).toList) := by
  obtain ⟨v, ws, rfl⟩ := List.exists_cons_of_ne_nil hne
  cases hq : (v :: ws).head?.any isNumeric with
  | false =>
    rw [lexemes_listLiterals hq hne]
    refine .of_ne (by cases ws <;> exact List.cons_ne_nil _ _) fun t ht => ?_
    rcases mem_listTokens ht with rfl | hk
    · decide
    · constructor <;> rintro rfl <;> cases hk
  | true =>
    rcases h with h | h
    · have hchars := isIntegerChar_listLiterals h hq
      have hsigns : signs (listLiterals (v :: ws)).toList =
          (listLiterals (v :: ws)).toList.map Token.sign := by
        rw [signs, List.filter_eq_self.2 fun c hc => ?_]
        rw [isBlank_of_isIntegerChar (hchars c hc)]
        rfl
      obtain ⟨n, rfl⟩ := h v List.mem_cons_self
      rw [lexemes_of_plain (isPlain_listLiterals h hq), hsigns]
      refine .of_ne (by simpa using listLiterals_ne_nil) fun t ht => ?_
      obtain ⟨c, hc, rfl⟩ := List.mem_map.1 ht
      constructor <;> intro hsign
      · obtain rfl : c = '(' := by simpa [opening, Token.sign] using hsign
        exact absurd (hchars _ hc) (by decide)
      · obtain rfl : c = ')' := by simpa [closing, Token.sign] using hsign
        exact absurd (hchars _ hc) (by decide)
    · rw [hq] at h
      cases h

end FilterSql.Value
