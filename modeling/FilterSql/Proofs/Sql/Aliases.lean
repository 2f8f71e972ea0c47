import FilterSql.Proofs.Sql.Quoting
import Mathlib.Data.List.Chain
/-!
# Aliases

No two paths of a text stand side by side, and neither do two gaps. So a path is an alias exactly if
one gap stands in front of it and the word `AS`, itself no alias, in front of the gap.
-/
namespace FilterSql.Sql

/-- Whether a path behind these tokens, of which the last comes first, is an alias. -/
def behindAs : List Token → Bool
  | gap :: w :: before => gap.isGap && w.isAs && !behindAs before
  | _ => false

/-- Tokens that can stand side by side. -/
structure Token.Apart (t u : Token) : Prop where
  paths : t.kind = .path → u.kind ≠ .path
  gaps : t.isGap = true → u.isGap = false

theorem pathTail_stops (s : List Char) {c : Char} {r : List Char} (h : (pathTail s).2 = c :: r) :
    isNameStart c = false := by
  fun_induction pathTail s with
  | case1 d s hd ih => exact ih h
  | case2 d s hd =>
    obtain ⟨rfl, -⟩ := List.cons.inj h
    decide
  | case3 d s hp hd ih => exact ih h
  | case4 d s hp hd =>
    obtain ⟨rfl, -⟩ := List.cons.inj h
    exact Bool.eq_false_iff.2 fun hc => hd (isNameChar_of_isNameStart hc)
  | case5 => cases h

theorem isAlpha_of_isBlank {c : Char} (h : Text.isBlank c = true) : c.isAlpha = false := by
  refine Bool.eq_false_iff.2 fun ha => ?_
  have hletter : 65 ≤ c.toNat ∧ c.toNat ≤ 122 := by
    rcases Bool.or_eq_true .. ▸ ha with hu | hl
    · obtain ⟨hlow, hhigh⟩ := of_decide_eq_true hu
      exact ⟨UInt32.le_iff_toNat_le.1 hlow,
        Nat.le_trans (UInt32.le_iff_toNat_le.1 hhigh) (by decide)⟩
    · obtain ⟨hlow, hhigh⟩ := Bool.and_eq_true_iff.1 hl
      exact ⟨Nat.le_trans (by decide) (UInt32.le_iff_toNat_le.1 (of_decide_eq_true hlow)),
        UInt32.le_iff_toNat_le.1 (of_decide_eq_true hhigh)⟩
  simp [Text.isBlank] at h
  omega

theorem isBlank_of_isNameChar {c : Char} (h : isNameChar c = true) : Text.isBlank c = false := by
  refine Bool.eq_false_iff.2 fun hblank => ?_
  have hdigit : c.isDigit = true := by
    rw [isNameChar, Char.isAlphanum, isAlpha_of_isBlank hblank, Bool.false_or, Bool.or_eq_true] at h
    refine h.resolve_right fun hc => ?_
    rw [eq_of_beq hc] at hblank
    cases hblank
  have hrange : 48 ≤ c.toNat ∧ c.toNat ≤ 57 := Char.isDigit_iff_toNat.1 hdigit
  simp [Text.isBlank] at hblank
  omega

theorem isPlain_of_isBlank {c : Char} (h : Text.isBlank c = true) : isPlain c = true := by
  have hne (m : Char) (hm : Text.isBlank m = false) : c ≠ m := ne_of_true_of_false h hm
  have hstart : isNameStart c = false := by
    rw [isNameStart, isAlpha_of_isBlank h, Bool.false_or]
    exact beq_eq_false_iff_ne.2 (hne '_' (by decide))
  exact isPlain_of_not_isNameStart hstart (hne _ (by decide)) (hne _ (by decide))

theorem isPlain_of_isGap {c : Char} {s : List Char} (h : (nextToken c s).1.isGap = true) :
    isPlain c = true := by
  obtain ⟨d, u, hu⟩ := List.exists_cons_of_ne_nil (nextToken_chars_ne_nil c s)
  have hc := nextToken_append c s
  rw [hu, List.cons_append] at hc
  obtain ⟨rfl, -⟩ := List.cons.inj hc
  rw [Token.isGap, hu, Bool.and_eq_true, List.all_cons, Bool.and_eq_true] at h
  exact isPlain_of_isBlank h.2.1

theorem apart_nextToken {c d : Char} {s r : List Char} (h : (nextToken c s).2 = d :: r) :
    (nextToken c s).1.Apart (nextToken d r).1 := by
  constructor
  · intro hc hd
    have hname := isNameStart_of_nextToken hd
    rw [nextToken_name _ (isNameStart_of_nextToken hc)] at h
    rw [pathTail_stops s h] at hname
    cases hname
  · intro hc
    refine Bool.eq_false_iff.2 fun hd => ?_
    rw [nextToken_plain _ (isPlain_of_isGap hc)] at h
    have hstop := List.head?_dropWhile_not isPlain s
    rw [show s.dropWhile isPlain = d :: r from h] at hstop
    exact absurd (isPlain_of_isGap hd) (by simpa using hstop)

theorem isChain_tokens (s : List Char) : (tokens s).IsChain Token.Apart := by
  fun_induction tokens s with
  | case1 => exact .nil
  | case2 c s ih =>
    cases hr : (nextToken c s).2 with
    | nil =>
      rw [tokens_nil]
      exact .singleton _
    | cons d r =>
      rw [hr, tokens_cons] at ih
      rw [tokens_cons]
      exact .cons_cons (apart_nextToken hr) ih

theorem aliasedAfter_concat (aliased : Bool) (ts : List Token) (t : Token) :
    aliasedAfter aliased (ts ++ [t]) = t.awaitsAlias (aliasedAfter aliased ts) := by
  rw [aliasedAfter, List.foldl_append]
  rfl

/-- The mark that resolving carries says in front of a path whether the path is an alias. -/
theorem aliasedAfter_eq_behindAs {ts : List Token} (h : ts.IsChain fun t u => u.Apart t)
    (hhead : ∀ t ∈ ts.head?, t.kind ≠ .path) : aliasedAfter false ts.reverse = behindAs ts := by
  fun_induction behindAs ts with
  | case1 gap w before ih =>
    obtain ⟨hgap, hbefore⟩ := List.isChain_cons_cons.1 h
    rw [List.reverse_cons, aliasedAfter_concat, Token.awaitsAlias, if_neg (hhead gap rfl),
      List.reverse_cons, aliasedAfter_concat, Token.awaitsAlias]
    by_cases hw : w.kind = .path
    · obtain ⟨hfirst, hrest⟩ := List.isChain_cons.1 hbefore
      rw [if_pos hw, ih hrest fun t ht hk => (hfirst t ht).paths hk hw, Bool.and_comm,
        Bool.and_comm (!_), Bool.and_assoc]
    · have has : w.isAs = false := by simp [Token.isAs, hw]
      rw [if_neg hw, has, Bool.and_false, Bool.false_and]
      cases hg : w.isGap with
      | false => rw [Bool.and_false, Bool.false_and]
      | true => rw [hgap.gaps hg, Bool.and_false]
  | case2 ts hts =>
    cases ts with
    | nil => rfl
    | cons t ts =>
      cases ts with
      | nil =>
        change t.awaitsAlias false = false
        rw [Token.awaitsAlias, if_neg (hhead t rfl), Bool.false_and]
      | cons u ts => exact absurd rfl (hts t u ts)

theorem isReference_eq {s : List Char} {before after : List Token} {t : Token}
    (h : tokens s = before ++ t :: after) :
    t.isReference (aliasedAfter false before) =
      (t.kind == .path && !behindAs before.reverse && !t.isAs) := by
  cases hk : t.kind == .path with
  | false => rw [Token.isReference, hk]; rfl
  | true =>
    have hchain : (before ++ [t]).IsChain Token.Apart := by
      have hall := isChain_tokens s
      rw [h, List.append_cons] at hall
      exact hall.left_of_append
    have hreverse : (t :: before.reverse).IsChain fun u v => v.Apart u := by
      rw [← List.reverse_concat, List.isChain_reverse]
      exact hchain
    obtain ⟨hlast, hbefore⟩ := List.isChain_cons.1 hreverse
    have hmark := aliasedAfter_eq_behindAs hbefore fun u hu hku =>
      (hlast u hu).paths hku (beq_iff_eq.1 hk)
    rw [List.reverse_reverse] at hmark
    rw [Token.isReference, hk, hmark]

theorem length_markReferences (aliased : Bool) (ts : List Token) :
    (markReferences aliased ts).length = ts.length := by
  induction ts generalizing aliased with
  | nil => rfl
  | cons t ts ih => rw [markReferences_cons, List.length_cons, ih, List.length_cons]

theorem getElem?_markReferences (aliased : Bool) (ts : List Token) (i : Nat) :
    (markReferences aliased ts)[i]? =
      ts[i]?.map fun t => (t.isReference (aliasedAfter aliased (ts.take i)), t) := by
  induction ts generalizing aliased i with
  | nil => rfl
  | cons t ts ih =>
    rw [markReferences_cons]
    cases i with
    | zero => rfl
    | succ i => exact ih _ i

end FilterSql.Sql
