import FilterSql.Query.GroupedCount
import FilterSql.Proofs.Sql.Quoting
import FilterSql.Proofs.Text.Replacing
import FilterSql.Proofs.Text.Squeezing
/-!
# Words between single blanks

A text in which single blanks stand between words is cut into these words again, whether it is cut
at every blank character or at spaces alone. Collapsing leaves it as it is, and a word with a space
on both sides is found in it where it is one of the words, and nowhere else.
-/
namespace FilterSql

open Sql Text

namespace GroupedCount

theorem unwords_singleton (w : List Char) : unwords [w] = w := List.intercalate_singleton

theorem unwords_cons_cons (w v : List Char) (ws : List (List Char)) :
    unwords (w :: v :: ws) = w ++ ' ' :: unwords (v :: ws) := by
  rw [unwords, List.intercalate_cons_cons, List.append_assoc]
  rfl

theorem unwords_cons (w : List Char) (ws : List (List Char)) :
    unwords (w :: ws) = w ++ ws.flatMap (' ' :: ·) := by
  induction ws generalizing w with
  | nil => rw [unwords_singleton, List.flatMap_nil, List.append_nil]
  | cons v ws ih => rw [unwords_cons_cons, ih, List.flatMap_cons, List.cons_append]

theorem unwords_append {ws vs : List (List Char)} (hws : ws ≠ []) (hvs : vs ≠ []) :
    unwords (ws ++ vs) = unwords ws ++ ' ' :: unwords vs := by
  obtain ⟨w, ws, rfl⟩ := List.exists_cons_of_ne_nil hws
  obtain ⟨v, vs, rfl⟩ := List.exists_cons_of_ne_nil hvs
  rw [List.cons_append, unwords_cons, unwords_cons, unwords_cons, List.flatMap_append,
    List.flatMap_cons, List.append_assoc]
  rfl

theorem unwords_cons_of_ne_nil (w : List Char) {ws : List (List Char)} (h : ws ≠ []) :
    unwords (w :: ws) = w ++ ' ' :: unwords ws := by
  obtain ⟨v, ws, rfl⟩ := List.exists_cons_of_ne_nil h
  exact unwords_cons_cons w v ws

theorem splitOnP_unwords {p : Char → Bool} (hp : p ' ' = true) {w : List Char}
    {ws : List (List Char)} (h : ∀ v ∈ w :: ws, Lacks p v) :
    (unwords (w :: ws)).splitOnP p = w :: ws := by
  induction ws generalizing w with
  | nil =>
    rw [unwords_singleton]
    exact List.splitOnP_eq_singleton (h w List.mem_cons_self)
  | cons v ws ih =>
    rw [List.forall_mem_cons] at h
    rw [unwords_cons_cons, List.splitOnP_append_cons_of_forall_mem h.1 _ hp, ih h.2]

/-- A word: it is not empty and has no blank in it. -/
structure IsUnbroken (w : List Char) : Prop where
  ne_nil : w ≠ []
  blank : Lacks isBlank w

theorem IsUnbroken.space {w : List Char} (hw : IsUnbroken w) : ' ' ∉ w := fun h =>
  absurd (hw.blank _ h) (by decide)

theorem not_blank_unwords {ws : List (List Char)} (hne : ws ≠ [])
    (h : ∀ w ∈ ws, IsUnbroken w) : ∃ c ∈ unwords ws, isBlank c = false := by
  obtain ⟨w, ws, rfl⟩ := List.exists_cons_of_ne_nil hne
  obtain ⟨hw, hblank⟩ := h w List.mem_cons_self
  obtain ⟨c, u, rfl⟩ := List.exists_cons_of_ne_nil hw
  exact ⟨c, unwords_cons .. ▸ List.mem_cons_self, hblank c List.mem_cons_self⟩

theorem words_unwords {ws : List (List Char)} (h : ∀ w ∈ ws, IsUnbroken w) :
    words (unwords ws) = ws := by
  cases ws with
  | nil => rfl
  | cons w ws =>
    rw [words, splitOnP_unwords (by decide) fun v hv => (h v hv).blank, List.filter_eq_self]
    exact fun v hv => by simpa using (h v hv).ne_nil

theorem words_append_blank (s t : List Char) : words (s ++ ' ' :: t) = words s ++ words t := by
  rw [words, List.splitOnP_append_cons _ _ (by decide), List.filter_append]
  rfl

theorem words_ne_nil {s : List Char} (h : ∃ c ∈ s, isBlank c = false) : words s ≠ [] := by
  intro hnil
  obtain ⟨c, hc, hblank⟩ := h
  have hsqueeze : squeeze true s = [] := by rw [squeeze_true, hnil, List.flatMap_nil]
  obtain ⟨-, hs⟩ | ⟨t, ht⟩ := squeeze_true_cases s
  · rw [hs c hc] at hblank
    cases hblank
  · rw [hsqueeze] at ht
    cases ht

theorem collapse_unwords_append {ws : List (List Char)} (h : ∀ w ∈ ws, IsUnbroken w)
    (hne : ws ≠ []) {m : List Char} (hm : IsUnbroken m) {s : List Char}
    (hs : ∃ c ∈ s, isBlank c = false) :
    collapse (unwords ws ++ ' ' :: (m ++ ' ' :: s)) =
      unwords ws ++ ' ' :: (m ++ ' ' :: collapse s) := by
  have hword : words m = [m] := by
    have hone : words (unwords [m]) = [m] := words_unwords (List.forall_mem_singleton.2 hm)
    rwa [unwords_singleton] at hone
  have hrest : unwords ([m] ++ words s) = m ++ ' ' :: collapse s := by
    rw [unwords_append (List.cons_ne_nil _ _) (words_ne_nil hs), unwords_singleton, collapse]
  rw [collapse, words_append_blank, words_append_blank, words_unwords h, hword,
    unwords_append hne (by simp), hrest]

theorem replace_unwords {old new : List Char} (hold : old ≠ []) (hblank : ' ' ∉ old)
    (ws : List (List Char)) :
    replace old new (unwords ws) = unwords (ws.map (replace old new)) := by
  have hspace (s : List Char) : replace old new (' ' :: s) = ' ' :: replace old new s := by
    refine replace_cons_of_not_occurs fun h => ?_
    obtain ⟨c, u, rfl⟩ := List.exists_cons_of_ne_nil hold
    exact hblank ((List.cons_prefix_cons.1 h).1 ▸ List.mem_cons_self)
  cases ws with
  | nil => exact replace_nil
  | cons w ws =>
    induction ws generalizing w with
    | nil => rw [List.map_singleton, unwords_singleton, unwords_singleton]
    | cons v ws ih =>
      rw [unwords_cons_cons, replace_append_stop hblank, hspace, ih]
      exact (unwords_cons_cons ..).symm

theorem cutBefore_of_prefix {mark s : List Char} (h : mark <+: s) :
    cutBefore mark s = some ([], s) := by
  cases s with
  | nil =>
    obtain rfl := List.prefix_nil.1 h
    rfl
  | cons c s => rw [cutBefore, if_pos (List.isPrefixOf_iff_prefix.2 h)]

theorem cutBefore_append_of_not_mem {m : Char} {u p : List Char} (hp : m ∉ p) (t : List Char) :
    cutBefore (m :: u) (p ++ t) = (cutBefore (m :: u) t).map fun r => (p ++ r.1, r.2) := by
  induction p with
  | nil => simp
  | cons c p ih =>
    rw [List.mem_cons, not_or] at hp
    have hc : ¬ (m :: u).isPrefixOf (c :: (p ++ t)) = true := fun h =>
      hp.1 (List.cons_prefix_cons.1 (List.isPrefixOf_iff_prefix.1 h)).1
    rw [List.cons_append, cutBefore, if_neg hc, ih hp.2, Option.map_map]
    rfl

/-- A word between spaces is none of the words in front of it, so the text is cut there. -/
theorem cutBefore_unwords {m : List Char} (hm : ' ' ∉ m) {w : List Char} {ws : List (List Char)}
    (h : ∀ v ∈ w :: ws, ' ' ∉ v) (hnot : m ∉ ws) (t : List Char) :
    cutBefore (' ' :: (m ++ [' '])) (unwords (w :: ws) ++ ' ' :: (m ++ ' ' :: t)) =
      some (unwords (w :: ws), ' ' :: (m ++ ' ' :: t)) := by
  induction ws generalizing w with
  | nil =>
    have hfound : ' ' :: (m ++ [' ']) <+: ' ' :: (m ++ ' ' :: t) := ⟨t, by simp⟩
    rw [unwords_singleton, cutBefore_append_of_not_mem (h w List.mem_cons_self),
      cutBefore_of_prefix hfound]
    simp
  | cons v ws ih =>
    rw [List.forall_mem_cons] at h
    rw [List.mem_cons, not_or] at hnot
    -- what follows `v` starts with a space, so `m` in its place would be `v`
    have hother : ¬ ' ' :: (m ++ [' ']) <+:
        ' ' :: (unwords (v :: ws) ++ ' ' :: (m ++ ' ' :: t)) := by
      rw [List.cons_prefix_cons]
      rintro ⟨-, r, hr⟩
      obtain ⟨u, hu⟩ : ∃ u, ws.flatMap (' ' :: ·) ++ ' ' :: (m ++ ' ' :: t) = ' ' :: u := by
        cases ws with
        | nil => exact ⟨_, rfl⟩
        | cons x ws => exact ⟨_, rfl⟩
      have hm' : cutAt ' ' (m ++ ' ' :: r) = some (m, r) := cutAt_eq_some.2 ⟨rfl, hm⟩
      have hv' : cutAt ' ' (v ++ ' ' :: u) = some (v, u) :=
        cutAt_eq_some.2 ⟨rfl, h.2 v List.mem_cons_self⟩
      rw [unwords_cons, List.append_assoc, List.append_assoc, hu, List.singleton_append] at hr
      rw [hr, hv'] at hm'
      exact hnot.1 (Prod.mk.inj (Option.some.inj hm')).1.symm
    rw [unwords_cons_cons, List.append_assoc, cutBefore_append_of_not_mem h.1, List.cons_append,
      cutBefore, if_neg (mt List.isPrefixOf_iff_prefix.1 hother), ih h.2 hnot.2]
    rfl

end GroupedCount
end FilterSql
