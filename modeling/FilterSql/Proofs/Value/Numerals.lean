import FilterSql.Value
import Mathlib.Algebra.Order.Field.Rat
import Mathlib.Tactic.Linarith
import Mathlib.Tactic.Positivity
import Mathlib.Tactic.Ring
/-!
# Decimal numerals and zero

Whether a value is unset is read off its text. For integer and boolean properties the digits behind
the point are cut off first, so what is taken for zero is every numeral between minus one and one.
-/
namespace FilterSql

theorem digitsValue_concat (s : List Char) (c : Char) :
    digitsValue (s ++ [c]) = 10 * digitsValue s + (c.toNat - '0'.toNat) := by
  rw [digitsValue, digitsValue, List.foldl_append]
  rfl

theorem digitsValue_lt {s : List Char} (hs : s.all Char.isDigit = true) :
    digitsValue s < 10 ^ s.length := by
  induction s using List.reverseRecOn with
  | nil => decide
  | append_singleton s c ih =>
    rw [List.all_append, Bool.and_eq_true, List.all_cons, Bool.and_eq_true] at hs
    have hdigit : c.toNat - '0'.toNat < 10 := by
      have h := hs.2.1
      simp only [Char.isDigit, Bool.and_eq_true, decide_eq_true_eq] at h
      have h9 : c.toNat ≤ '9'.toNat := h.2
      have h0 : '9'.toNat - '0'.toNat = 9 := rfl
      omega
    have hprefix := ih hs.1
    rw [digitsValue_concat, List.length_append, List.length_singleton, pow_succ]
    omega

/-- A decimal numeral: perhaps a sign, at least one digit, and perhaps a point with digits behind
it. -/
structure Numeral where
  /-- Whether the sign is a minus, if there is one. -/
  sign : Option Bool := none
  whole : List Char
  fraction : Option (List Char) := none
  whole_ne_nil : whole ≠ [] := by decide
  whole_digits : whole.all Char.isDigit = true := by decide
  fraction_digits : (fraction.getD []).all Char.isDigit = true := by decide

namespace Numeral

variable (n : Numeral)

def signText : List Char :=
  match n.sign with
  | some true => ['-']
  | some false => ['+']
  | none => []

def text : List Char :=
  n.signText ++ n.whole ++
    match n.fraction with
    | some ds => '.' :: ds
    | none => []

def magnitude : ℚ :=
  digitsValue n.whole + digitsValue (n.fraction.getD []) / 10 ^ (n.fraction.getD []).length

def value : ℚ := if n.sign = some true then -n.magnitude else n.magnitude

theorem magnitude_nonneg : 0 ≤ n.magnitude := by
  unfold magnitude
  positivity

theorem abs_value : |n.value| = n.magnitude := by
  unfold value
  split
  · rw [abs_neg, abs_of_nonneg n.magnitude_nonneg]
  · exact abs_of_nonneg n.magnitude_nonneg

/-- The fraction alone is less than one. -/
theorem abs_value_lt_one_iff : |n.value| < 1 ↔ digitsValue n.whole = 0 := by
  have hlt : (digitsValue (n.fraction.getD []) : ℚ) / 10 ^ (n.fraction.getD []).length < 1 := by
    rw [div_lt_one (by positivity)]
    exact_mod_cast digitsValue_lt n.fraction_digits
  have hnonneg : (0 : ℚ) ≤ digitsValue (n.fraction.getD []) / 10 ^ (n.fraction.getD []).length := by
    positivity
  rw [abs_value, magnitude]
  constructor
  · intro h
    have hwhole : (digitsValue n.whole : ℚ) < 1 := by linarith
    have hwhole : digitsValue n.whole < 1 := by exact_mod_cast hwhole
    omega
  · intro h
    rw [h, Nat.cast_zero, zero_add]
    exact hlt

theorem value_eq_zero_iff_of_fraction (h : n.fraction = none) :
    n.value = 0 ↔ |n.value| < 1 := by
  rw [abs_value_lt_one_iff, ← abs_eq_zero, abs_value, magnitude, h]
  simp [digitsValue]

theorem whole_cons : ∃ c s, n.whole = c :: s ∧ c.isDigit = true := by
  obtain ⟨c, s, h⟩ := List.exists_cons_of_ne_nil n.whole_ne_nil
  have hdigits := n.whole_digits
  rw [h, List.all_cons, Bool.and_eq_true] at hdigits
  exact ⟨c, s, h, hdigits.1⟩

theorem takeWhile_text : n.text.takeWhile (· != '.') = n.signText ++ n.whole := by
  have hsign : n.signText.all (· != '.') = true := by
    rw [signText]
    split <;> decide
  have hwhole : ∀ c ∈ n.whole, (c != '.') = true := by
    intro c hc
    have hdigit := List.all_eq_true.1 n.whole_digits c hc
    rw [bne_iff_ne]
    rintro rfl
    exact absurd hdigit (by decide)
  rw [text, List.takeWhile_append_of_pos fun c hc =>
    (List.mem_append.1 hc).elim (List.all_eq_true.1 hsign c) (hwhole c)]
  cases n.fraction with
  | none => exact List.append_nil _
  | some ds => exact List.append_nil _

theorem takeSign_whole : takeSign (n.signText ++ n.whole) = (n.sign == some true, n.whole) := by
  unfold signText
  cases hs : n.sign with
  | some negative => cases negative <;> rfl
  | none =>
    obtain ⟨c, s, h, hc⟩ := n.whole_cons
    have hne {m : Char} (hm : m.isDigit = false) : c ≠ m :=
      ne_of_apply_ne Char.isDigit (by rw [hc, hm]; exact Bool.noConfusion)
    rw [h, List.nil_append, takeSign]
    · rfl
    · rintro t ⟨⟩
      exact hne (m := '-') rfl rfl
    · rintro t ⟨⟩
      exact hne (m := '+') rfl rfl

theorem isWholeZero_text : Value.isWholeZero n.text = true ↔ |n.value| < 1 := by
  have hread : readWhole? (n.signText ++ n.whole) =
      some (if n.sign == some true then -(digitsValue n.whole : Int) else digitsValue n.whole) := by
    have hempty : n.whole.isEmpty = false := by simpa using n.whole_ne_nil
    rw [readWhole?, takeSign_whole]
    simp [hempty, n.whole_digits]
  rw [Value.isWholeZero, takeWhile_text, hread, abs_value_lt_one_iff, beq_iff_eq, Option.some_inj]
  split <;> omega

end Numeral

namespace Value

/-- The text of a value is a decimal numeral of the number. -/
def Denotes (v : Value) (r : ℚ) : Prop := ∃ n : Numeral, v.display.toList = n.text ∧ n.value = r

variable {v : Value} {r : ℚ}

theorem not_denotes_of_lacks_digits (h : v.display.toList.any Char.isDigit = false) :
    ¬ v.Denotes r := by
  rintro ⟨n, hn, -⟩
  obtain ⟨c, s, hwhole, hc⟩ := n.whole_cons
  have hmem : c ∈ v.display.toList := by
    rw [hn, Numeral.text, hwhole]
    simp
  exact List.any_eq_false.1 h c hmem hc

theorem Denotes.isVoid_eq_false (h : v.Denotes r) : v.isVoid = false := by
  cases v with
  | null => exact absurd h (not_denotes_of_lacks_digits (by decide))
  | text s | choice s =>
    rw [isVoid, Bool.eq_false_iff]
    intro hs
    obtain rfl := String.isEmpty_iff.1 hs
    exact absurd h (not_denotes_of_lacks_digits (by decide))
  | bool | int | float | timestamp => rfl

end Value

def ScalarKind.isWhole : ScalarKind → Bool
  | int | long | short | byte | bool => true
  | float | double | text | timestamp | decimal | other => false

/-- On an integer or boolean property exactly the numerals between minus one and one say as little
as zero. -/
theorem Value.Denotes.isUnset_iff {v : Value} {r : ℚ} {f : Field} (h : v.Denotes r)
    (hnull : f.nullable = false) (hkind : f.kind.isWhole = true) :
    v.isUnset (some f) = true ↔ |r| < 1 := by
  have hzero : isWholeZero v.display.toList = true ↔ |r| < 1 := by
    obtain ⟨n, hn, rfl⟩ := h
    rw [hn]
    exact n.isWholeZero_text
  have hbool (b : Bool) : v ≠ .bool b := by
    rintro rfl
    cases b <;> exact absurd h (not_denotes_of_lacks_digits (by decide))
  unfold isUnset
  simp only [hnull, Bool.not_false, Bool.true_and]
  cases hk : f.kind with
  | int | long | short | byte => exact hzero
  | bool =>
    cases v with
    | bool b => exact absurd rfl (hbool b)
    | null | int | float | text | timestamp | choice => exact hzero
  | float | double | text | timestamp | decimal | other => rw [hk] at hkind; cases hkind

end FilterSql
