import FilterSql.Proofs.Sql.Endings
/-!
# Texts without quotes

A text without quotes and dollar signs is read as paths and plain characters. In front of any text
it neither adds to the literals of that text nor takes from them, before and after names are
resolved; so the literals of a statement are those of its pieces, one piece after the other.
-/
namespace FilterSql.Sql

/-- A text without quotes and dollar signs is read as paths and runs of plain characters. -/
@[elab_as_elim]
theorem Lacks.induction {motive : (s : List Char) → Lacks isQuote s → Prop}
    (nil : ∀ h, motive [] h)
    (path : ∀ c s h, isNameStart c = true → (h' : Lacks isQuote (pathTail s).2) →
      motive (pathTail s).2 h' → motive (c :: s) h)
    (plain : ∀ c s h, isPlain c = true → (h' : Lacks isQuote (s.dropWhile isPlain)) →
      motive (s.dropWhile isPlain) h' → motive (c :: s) h)
    {s : List Char} (hs : Lacks isQuote s) : motive s hs := by
  induction hn : s.length using Nat.strongRecOn generalizing s with
  | _ n ih =>
    cases s with
    | nil => exact nil hs
    | cons c s =>
      have hlen := nextToken_length c s
      have hlacks : Lacks isQuote (nextToken c s).2 := by
        intro d hd
        refine hs d ?_
        rw [← nextToken_append c s]
        exact List.mem_append_right _ hd
      have hrest := ih _ (by omega) hlacks rfl
      by_cases hname : isNameStart c = true
      · simp only [nextToken_name _ hname] at hlacks hrest
        exact path c s hs hname hlacks hrest
      · have hne (m : Char) (hm : isQuote m = true) : c ≠ m :=
          (ne_of_true_of_false hm (hs c List.mem_cons_self)).symm
        have hplain :=
          isPlain_of_not_isNameStart (Bool.eq_false_iff.2 hname) (hne _ rfl) (hne _ rfl)
        simp only [nextToken_plain _ hplain] at hlacks hrest
        exact plain c s hs hplain hlacks hrest

variable {f : String → Option String} {aliased : Bool}

def literals (s : List Char) : List Token := (tokens s).filter (·.kind == .literal)

@[simp] theorem literals_nil : literals [] = [] := by simp [literals]

theorem literals_of_lacks {s : List Char} (hs : Lacks isQuote s) : literals s = [] := by
  induction hs using Lacks.induction with
  | nil => exact literals_nil
  | path c s _ hc _ ih =>
    rw [literals, tokens_cons, nextToken_name _ hc, List.filter_cons_of_neg (by simp)]
    exact ih
  | plain c s _ hc _ ih =>
    rw [literals, tokens_plain _ hc, List.filter_cons_of_neg (by simp)]
    exact ih

theorem isComplete_of_lacks {s : List Char} (hs : Lacks isQuote s) : IsComplete s :=
  (Balanced.of_lacks hs).unquoted.1

theorem tokens_append_of_lacks {s r : List Char} (hs : Lacks isQuote s) (hr : startsMark r) :
    tokens (s ++ r) = tokens s ++ tokens r := by
  refine tokens_append_of_isComplete (isComplete_of_lacks hs) hr fun _ hlast => ?_
  exact absurd (hs _ (List.mem_of_getLast? hlast)) (by decide)

/-- Every text is one without quotes and dollar signs in front of nothing or of either of them. -/
theorem exists_lacks_append (r : List Char) :
    ∃ u v, r = u ++ v ∧ Lacks isQuote u ∧ (v = [] ∨ startsMark v) := by
  refine ⟨r.takeWhile (!isQuote ·), r.dropWhile (!isQuote ·), List.takeWhile_append_dropWhile.symm,
    ?_, ?_⟩
  · intro c hc
    simpa using List.all_eq_true.1 List.all_takeWhile c hc
  · cases hv : r.dropWhile (!isQuote ·) with
    | nil => exact Or.inl rfl
    | cons c t =>
      have hc : isQuote c = true := by
        have h := List.head?_dropWhile_not (!isQuote ·) r
        rw [hv] at h
        simpa using h
      rw [isQuote, Bool.or_eq_true, beq_iff_eq, beq_iff_eq] at hc
      exact Or.inr ⟨c, t, rfl, hc⟩

theorem literals_append {s : List Char} (hs : Lacks isQuote s) (r : List Char) :
    literals (s ++ r) = literals r := by
  -- in front of a quote or a dollar sign both texts are read by themselves
  have hmark {u v : List Char} (hu : Lacks isQuote u) (hv : v = [] ∨ startsMark v) :
      literals (u ++ v) = literals v := by
    rcases hv with rfl | hv
    · rw [List.append_nil, literals_of_lacks hu, literals_nil]
    · have hnone := literals_of_lacks hu
      rw [literals] at hnone
      rw [literals, tokens_append_of_lacks hu hv, List.filter_append, hnone, List.nil_append,
        literals]
  obtain ⟨u, v, rfl, hu, hv⟩ := exists_lacks_append r
  rw [← List.append_assoc, hmark (hs.append hu) hv, hmark hu hv]

theorem literals_literal {s : List Char} {x : List Char × List Char}
    (hx : literalTail? s = some x) :
    literals ('\'' :: s) = ⟨.literal, '\'' :: x.1⟩ :: literals x.2 := by
  have hnext : nextToken '\'' s = (⟨.literal, '\'' :: x.1⟩, x.2) := by simp [nextToken, hx]
  rw [literals, tokens_cons, hnext]
  exact List.filter_cons_of_pos rfl

theorem literals_char {c : Char} (hc : isQuote c = false) (s : List Char) :
    literals (c :: s) = literals s :=
  literals_append (s := [c]) (List.forall_mem_singleton.2 hc) s

theorem literals_append_of_balanced {s r : List Char} (h : Balanced s) (hr : Lacks isQuote r) :
    literals (s ++ r) = literals s := by
  induction h using Balanced.induction with
  | nil => rw [List.nil_append, literals_nil, literals_of_lacks hr]
  | char c s _ hc _ ih => rw [List.cons_append, literals_char hc, literals_char hc, ih]
  | literal s x _ hx _ ih =>
    have hend : x.2 ≠ [] ∨ r.head? ≠ some '\'' :=
      Or.inr fun h => absurd (hr _ (List.mem_of_head? h)) (by decide)
    rw [List.cons_append, literals_literal (literalTail?_append_right hx hend), ih,
      literals_literal hx]

theorem lacks_resolveFrom (hf : Yields (Lacks isQuote) f) {s : List Char} (hs : Lacks isQuote s) :
    Lacks isQuote (resolveFrom f aliased s) := by
  rw [← filter_eq_nil_iff_lacks, filter_resolveFrom hf (fun _ => isMark_of_isQuote),
    filter_eq_nil_iff_lacks]
  exact hs

theorem exists_nextToken_chars (c : Char) (s : List Char) :
    ∃ u, (nextToken c s).1.chars = c :: u := by
  have h := nextToken_append c s
  cases hu : (nextToken c s).1.chars with
  | nil => exact absurd hu (nextToken_chars_ne_nil c s)
  | cons d u =>
    rw [hu, List.cons_append] at h
    rw [(List.cons.inj h).1]
    exact ⟨u, rfl⟩

theorem resolveFrom_of_startsMark {r : List Char} (hr : startsMark r) :
    resolveFrom f aliased r = resolveFrom f false r ∧ startsMark (resolveFrom f false r) := by
  obtain ⟨c, t, rfl, hc⟩ := hr
  obtain ⟨u, hu⟩ := exists_nextToken_chars c t
  have hname : isNameStart c = false := by rcases hc with rfl | rfl <;> rfl
  have hblank : Text.isBlank c = false := by rcases hc with rfl | rfl <;> rfl
  have hpath : (nextToken c t).1.kind ≠ .path := by
    intro h
    rw [isNameStart_of_nextToken h] at hname
    cases hname
  have hgap : (nextToken c t).1.isGap = false := by
    rw [Token.isGap, hu, List.all_cons, hblank, Bool.false_and, Bool.and_false]
  have hresolve (b : Bool) : resolveFrom f b (c :: t) =
      c :: (u ++ resolveFrom f false (nextToken c t).2) := by
    rw [resolveFrom, tokens_cons, resolveTokens_cons_of_not_path _ hpath, hgap, Bool.and_false, hu]
    rfl
  rw [hresolve, hresolve]
  exact ⟨rfl, c, _, rfl, hc⟩

theorem literals_resolveFrom_append (hf : Yields (Lacks isQuote) f) {s : List Char}
    (hs : Lacks isQuote s) (r : List Char) :
    literals (resolveFrom f aliased (s ++ r)) = literals (resolveFrom f false r) := by
  have hmark {u v : List Char} (b : Bool) (hu : Lacks isQuote u) (hv : v = [] ∨ startsMark v) :
      literals (resolveFrom f b (u ++ v)) = literals (resolveFrom f false v) := by
    rcases hv with rfl | hv
    · rw [List.append_nil, literals_of_lacks (lacks_resolveFrom hf hu), resolveFrom_nil,
        literals_nil]
    · rw [resolveFrom_append (tokens_append_of_lacks hu hv),
        literals_append (lacks_resolveFrom hf hu), (resolveFrom_of_startsMark hv).1]
  obtain ⟨u, v, rfl, hu, hv⟩ := exists_lacks_append r
  rw [← List.append_assoc, hmark _ (hs.append hu) hv, hmark _ hu hv]

/-- In front of every other text `s` has these literals, after its names are resolved. -/
def Shows (f : String → Option String) (ts : List Token) (s : String) : Prop :=
  ∀ r, literals (resolveFrom f false (s.toList ++ r)) = ts ++ literals (resolveFrom f false r)

namespace Shows

theorem of_lacks (hf : Yields (Lacks isQuote) f) {s : String} (hs : Lacks isQuote s.toList) :
    Shows f [] s := fun r => literals_resolveFrom_append hf hs r

theorem append {ts us : List Token} {s t : String} (hs : Shows f ts s) (ht : Shows f us t) :
    Shows f (ts ++ us) (s ++ t) := by
  intro r
  rw [String.toList_append, List.append_assoc, hs, ht, List.append_assoc]

theorem literals_resolve {ts : List Token} {s : String} (hs : Shows f ts s) :
    literals (resolve f s).toList = ts := by
  have h := hs []
  rwa [List.append_nil, ← toList_resolve, resolveFrom_nil, literals_nil, List.append_nil] at h

end Shows

end FilterSql.Sql
