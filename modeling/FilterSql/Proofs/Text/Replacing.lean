import FilterSql.Text.Replace
import Mathlib.Tactic.Common
/-!
# Replacing, occurrence by occurrence

A text and its replacement agree character by character, except where an occurrence gives way to
the new text. In front of a text that holds no occurrence and that none can reach out of, nothing
changes.
-/
namespace FilterSql.Text

variable {old new : List Char}

theorem replaceFrom_skip (u s : List Char) :
    replaceFrom old new u.length (u ++ s) = replaceFrom old new 0 s := by
  induction u with
  | nil => rfl
  | cons c u ih => simpa [replaceFrom] using ih

@[simp] theorem replace_nil : replace old new [] = [] := by simp [replace, replaceFrom]

theorem replace_cons_of_not_occurs {c : Char} {s : List Char} (h : ¬ old <+: c :: s) :
    replace old new (c :: s) = c :: replace old new s := by
  rw [replace, replaceFrom, if_neg]
  · rfl
  · rwa [List.isPrefixOf_iff_prefix]

theorem replace_append_old (h : old ≠ []) (s : List Char) :
    replace old new (old ++ s) = new ++ replace old new s := by
  obtain ⟨c, u, rfl⟩ := List.exists_cons_of_ne_nil h
  have hp : (c :: u).isPrefixOf (c :: (u ++ s)) = true :=
    List.isPrefixOf_iff_prefix.2 ⟨s, rfl⟩
  rw [List.cons_append, replace, replaceFrom, if_pos hp]
  exact congrArg (new ++ ·) (replaceFrom_skip u s)

theorem cutAt_of_not_mem {mark : Char} {s : List Char} (h : mark ∉ s) : cutAt mark s = none := by
  induction s with
  | nil => rfl
  | cons c s ih =>
    rw [List.mem_cons, not_or] at h
    rw [cutAt, if_neg (Ne.symm h.1), ih h.2]
    rfl

theorem cutAt_eq_some {mark : Char} {s a b : List Char} :
    cutAt mark s = some (a, b) ↔ s = a ++ mark :: b ∧ mark ∉ a := by
  constructor
  · intro h
    refine ⟨cutAt_append h, ?_⟩
    induction s generalizing a with
    | nil => cases h
    | cons c s ih =>
      rw [cutAt] at h
      split at h
      · obtain ⟨rfl, -⟩ := Prod.mk.inj (Option.some.inj h)
        exact List.not_mem_nil
      next hc =>
        obtain ⟨r, hr, hrs⟩ := Option.map_eq_some_iff.1 h
        obtain ⟨rfl, rfl⟩ := Prod.mk.inj hrs
        rw [List.mem_cons, not_or]
        exact ⟨Ne.symm hc, ih hr⟩
  · rintro ⟨rfl, ha⟩
    induction a with
    | nil => rw [List.nil_append, cutAt, if_pos rfl]
    | cons c a ih =>
      rw [List.mem_cons, not_or] at ha
      rw [List.cons_append, cutAt, if_neg (Ne.symm ha.1), ih ha.2]
      rfl

/-- Texts that agree but for occurrences of one text that stand as another. -/
inductive Replaced (old new : List Char) : List Char → List Char → Prop
  | nil : Replaced old new [] []
  | keep (c : Char) {s t : List Char} (h : Replaced old new s t) :
    Replaced old new (c :: s) (c :: t)
  | swap {s t : List Char} (h : Replaced old new s t) : Replaced old new (old ++ s) (new ++ t)

theorem replaced_replace (h : old ≠ []) (s : List Char) :
    Replaced old new s (replace old new s) := by
  induction hn : s.length using Nat.strongRecOn generalizing s with
  | _ n ih =>
    by_cases hp : old <+: s
    · obtain ⟨r, rfl⟩ := hp
      have hpos := List.length_pos_iff.2 h
      rw [List.length_append] at hn
      rw [replace_append_old h]
      exact (ih r.length (by omega) r rfl).swap
    · cases s with
      | nil =>
        rw [replace_nil]
        exact .nil
      | cons c s =>
        rw [List.length_cons] at hn
        rw [replace_cons_of_not_occurs hp]
        exact (ih s.length (by omega) s rfl).keep c

/-- Nothing changes in front of a text in which no occurrence can start. -/
theorem replace_append_of_head {m : Char} {u p : List Char} (hp : m ∉ p) (t : List Char) :
    replace (m :: u) new (p ++ t) = p ++ replace (m :: u) new t := by
  induction p with
  | nil => rfl
  | cons c p ih =>
    rw [List.mem_cons, not_or] at hp
    have hc : ¬ m :: u <+: c :: (p ++ t) := fun h => hp.1 (List.cons_prefix_cons.1 h).1
    rw [List.cons_append, replace_cons_of_not_occurs hc, ih hp.2, List.cons_append]

/-- An occurrence cannot reach over a character that it does not have. -/
theorem prefix_append_stop {m : Char} (hm : m ∉ old) {s t : List Char} :
    old <+: s ++ m :: t ↔ old <+: s := by
  refine ⟨fun h => ?_, fun h => h.trans (List.prefix_append _ _)⟩
  -- either the occurrence ends in front of `m`, inside `s`, or it holds `m`
  rcases List.prefix_or_prefix_of_prefix h (List.prefix_append s (m :: t)) with h' | h'
  · exact h'
  · obtain ⟨u, rfl⟩ := h'
    rw [List.prefix_append_right_inj] at h
    cases u with
    | nil => simp
    | cons d u =>
      obtain ⟨rfl, -⟩ := List.cons_prefix_cons.1 h
      exact absurd (List.mem_append_right s List.mem_cons_self) hm

theorem replaceFrom_append_stop {m : Char} (hm : m ∉ old) {skip : Nat} {s : List Char}
    (hskip : skip ≤ s.length) (t : List Char) :
    replaceFrom old new skip (s ++ m :: t) =
      replaceFrom old new skip s ++ replace old new (m :: t) := by
  induction s generalizing skip with
  | nil =>
    obtain rfl := Nat.le_zero.1 hskip
    rfl
  | cons c s ih =>
    cases skip with
    | succ n => exact ih (Nat.le_of_succ_le_succ hskip)
    | zero =>
      have hiff := prefix_append_stop hm (s := c :: s) (t := t)
      rw [List.cons_append] at hiff
      rw [List.cons_append, replaceFrom, replaceFrom]
      by_cases hp : old <+: c :: s
      · have hlen : old.length - 1 ≤ s.length := Nat.sub_le_of_le_add hp.length_le
        rw [if_pos (List.isPrefixOf_iff_prefix.2 (hiff.2 hp)),
          if_pos (List.isPrefixOf_iff_prefix.2 hp), ih hlen, List.append_assoc]
      · rw [if_neg (mt List.isPrefixOf_iff_prefix.1 (mt hiff.1 hp)),
          if_neg (mt List.isPrefixOf_iff_prefix.1 hp), ih (Nat.zero_le _), List.cons_append]

theorem replace_append_stop {m : Char} (hm : m ∉ old) (s t : List Char) :
    replace old new (s ++ m :: t) = replace old new s ++ replace old new (m :: t) :=
  replaceFrom_append_stop hm (Nat.zero_le _) t

theorem replace_of_not_infix {s : List Char} (h : ¬ old <:+: s) : replace old new s = s := by
  induction s with
  | nil => exact replace_nil
  | cons c s ih =>
    rw [List.infix_cons_iff, not_or] at h
    rw [replace_cons_of_not_occurs h.1, ih h.2]

theorem replace_append_of_stop {m : Char} {s : List Char} (hm : m ∉ old) (hs : ¬ old <:+: s)
    (t : List Char) : replace old new (s ++ m :: t) = s ++ replace old new (m :: t) := by
  rw [replace_append_stop hm, replace_of_not_infix hs]

/-- In front of every other text, `s` stays as it is. -/
def Unreplaced (old new : List Char) (s : String) : Prop :=
  ∀ r, replace old new (s.toList ++ r) = s.toList ++ replace old new r

namespace Unreplaced

theorem empty : Unreplaced old new "" := fun _ => rfl

theorem append {s t : String} (hs : Unreplaced old new s) (ht : Unreplaced old new t) :
    Unreplaced old new (s ++ t) := by
  intro r
  rw [String.toList_append, List.append_assoc, List.append_assoc, hs, ht]

theorem of_not_mem {m : Char} {u : List Char} {s : String} (h : m ∉ s.toList) :
    Unreplaced (m :: u) new s := replace_append_of_head h

theorem replace_eq {s : String} (h : Unreplaced old new s) :
    replace old new s.toList = s.toList := by
  have hs := h []
  rwa [List.append_nil, replace_nil, List.append_nil] at hs

end Unreplaced

end FilterSql.Text
