import FilterSql.Names
import FilterSql.Proofs.Sql.Shapes
import FilterSql.Proofs.Value.Literal
/-!
# Quoting and reading

Doubling the quotes of a text gives the texts whose quotes stand in pairs, and undoubling goes back.
So what is quoted is read as one literal with the same content, and every literal that is read is
the quoted form of its content.
-/
namespace FilterSql

open Sql Value

namespace Sql

/-- The content of a literal: its outer quotes are taken off, and two quotes in a row read as one. -/
def unquote (literal : String) : String := String.ofList (undouble literal.toList.tail.dropLast)

theorem undouble_char {c : Char} (hc : c ≠ '\'') (s : List Char) :
    undouble (c :: s) = c :: undouble s := by
  rw [undouble]
  exact fun _ h _ => hc h

theorem Paired.doubleQuotes_undouble {s : List Char} (h : Paired s) :
    doubleQuotes (undouble s) = s := by
  induction h with
  | nil => rfl
  | pair _ ih => rw [undouble, doubleQuotes_cons, if_pos rfl, ih]; rfl
  | char hc _ ih => rw [undouble_char hc, doubleQuotes_cons, if_neg hc, ih]; rfl

theorem unquote_quoted (body : List Char) :
    unquote (String.ofList ('\'' :: (body ++ ['\'']))) = String.ofList (undouble body) := by
  simp [unquote]

end Sql

namespace Value

theorem unquote_literal (v : Value) : unquote (v.literal true) = v.display := by
  rw [← String.ofList_toList (s := v.literal true), toList_literal_quoted, unquote_quoted,
    undouble_doubleQuotes, String.ofList_toList]

theorem literal_unquote {t : Token} {r : List Char} (h : t.IsShaped r) (hk : t.kind = .literal) :
    (text (unquote t.text)).literal true = t.text := by
  cases h with
  | literal h =>
    obtain ⟨body, rfl, hpaired, -⟩ := h
    rw [Token.text, unquote_quoted, ← String.toList_inj, toList_literal_quoted, display,
      String.toList_ofList, String.toList_ofList, hpaired.doubleQuotes_undouble]
  | _ => cases hk

theorem tokenize_closedList {vs : List Value} (hne : vs ≠ [])
    (h : vs.head?.any isNumeric = false) :
    tokenize (listLiterals vs ++ ")") = listTokens vs ++ [⟨.other, [')']⟩] := by
  have hclose : tokens [')'] = [⟨.other, [')']⟩] := by
    rw [tokens_plain [] (by decide)]
    exact congrArg _ tokens_nil
  rw [tokenize, String.toList_append, tokens_listLiterals h (by simp) hne]
  exact congrArg (listTokens vs ++ ·) hclose

theorem resolve_closedList (f : String → Option String) {vs : List Value} (hne : vs ≠ [])
    (h : vs.head?.any isNumeric = false) :
    Sql.resolve f (listLiterals vs ++ ")") = listLiterals vs ++ ")" := by
  have hclose : resolveFrom f false [')'] = [')'] := by
    have hplain : resolveFrom f false ([')'] ++ []) = [')'] ++ resolveFrom f false [] :=
      resolveFrom_plain (by decide) []
    rwa [resolveFrom_nil, List.append_nil] at hplain
  rw [← String.toList_inj, toList_resolve, String.toList_append,
    resolveFrom_listLiterals h hne false (by simp)]
  exact congrArg ((listLiterals vs).toList ++ ·) hclose

/-- Quoting and reading are inverse. A quoted value is read as one literal in front of every text
that does not start with a quote, and its content is the value's text; every literal of a text is
the quoted form of its content. So a list whose first value is no number is read as one literal for
each value and the separators between and behind them, and resolving names leaves it as it is. -/
theorem tokenize_literal_append :
    (∀ (v : Value) (t : String), t.toList.head? ≠ some '\'' →
      tokenize (v.literal true ++ t) = ⟨.literal, (v.literal true).toList⟩ :: tokenize t) ∧
    (∀ v : Value, unquote (v.literal true) = v.display) ∧
    (∀ sql, ∀ t ∈ tokenize sql, t.kind = .literal →
      (text (unquote t.text)).literal true = t.text) ∧
    ∀ vs : List Value, vs ≠ [] → vs.head?.any isNumeric = false →
      tokenize (listLiterals vs ++ ")") =
        (vs.map fun v => ⟨.literal, (v.literal true).toList⟩).intersperse ⟨.other, [',']⟩ ++
          [⟨.other, [')']⟩] ∧
      (∀ e : Entity, e.resolve (listLiterals vs ++ ")") = listLiterals vs ++ ")") ∧
      ∀ r : Resolution, r.resolve (listLiterals vs ++ ")") = listLiterals vs ++ ")" := by
  refine ⟨fun v t ht => ?_, unquote_literal, fun sql t ht hk => ?_, fun vs hne h => ?_⟩
  · rw [tokenize, String.toList_append, tokens_literal v ht]
    rfl
  · obtain ⟨r, hr⟩ := (lexes_tokens sql.toList).exists_isShaped ht
    exact literal_unquote hr hk
  · exact ⟨tokenize_closedList hne h, fun _ => resolve_closedList _ hne h,
      fun _ => resolve_closedList _ hne h⟩

end Value

def namedValues : List Value := [.text "id", .text "", .int 2]

def namedEntity : Entity :=
  { name := "Item", table := "t_item", fields := .ofList [("id", ⟨"item_id", .int, false⟩)] }

theorem tokenize_quotes :
    tokenize ((Value.text "''").literal true ++ " id") =
      ⟨.literal, "''''''".toList⟩ :: tokenize " id" ∧
    (Value.text (unquote "''''''")).literal true = "''''''" ∧
    tokenize (listLiterals namedValues ++ ")") =
      [⟨.literal, "'id'".toList⟩, ⟨.other, [',']⟩, ⟨.literal, "''".toList⟩, ⟨.other, [',']⟩,
        ⟨.literal, "'2'".toList⟩, ⟨.other, [')']⟩] ∧
    namedEntity.resolve (listLiterals namedValues ++ ")") = "'id','','2')" ∧
    namedEntity.resolve "id" = "item_id" := by
  obtain ⟨hread, -, hquoted, hlist⟩ := Value.tokenize_literal_append
  obtain ⟨htokens, hresolve, -⟩ := hlist namedValues (List.cons_ne_nil _ _) rfl
  have hmem : (⟨.literal, "''''''".toList⟩ : Token) ∈ tokenize "''''''" := by decide +kernel
  have hcontent := hquoted _ _ hmem rfl
  rw [Token.text, String.ofList_toList] at hcontent
  refine ⟨(hread (.text "''") " id" (by decide)).trans ?_, hcontent, htokens.trans ?_,
    (hresolve namedEntity).trans ?_, ?_⟩
  · decide +kernel
  · decide +kernel
  · decide +kernel
  · decide +kernel

end FilterSql
