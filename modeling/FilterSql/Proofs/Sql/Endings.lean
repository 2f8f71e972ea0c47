import FilterSql.Proofs.Sql.Quoting
/-!
# Cutting in front of a blank

No path reaches over a blank, and a run of plain characters may be cut in front of it. A literal or
a tag reaches over it only where it is opened in front and closed behind: so a text is read by
itself in front of a blank if it opens none, or if nothing behind the blank closes one.
-/
namespace FilterSql.Sql

variable {f : String → Option String} {aliased : Bool}

def isCloser (c : Char) : Bool := c == '\'' || c == '}'

def isDelimiter (c : Char) : Bool := isCloser c || c == '$'

theorem isDelimiter_of_isCloser {c : Char} (h : isCloser c = true) : isDelimiter c = true := by
  rw [isDelimiter, h, Bool.true_or]

theorem lacks_isDelimiter_of_isName {n : List Char} (hn : isName n = true) :
    Lacks isDelimiter n := by
  intro c hc
  have hne {m : Char} (hm : isNameChar m = false) : c ≠ m :=
    ne_of_true_of_false (isNameChar_of_mem hn hc) hm
  simp [isDelimiter, isCloser, hne (m := '\'') rfl, hne (m := '}') rfl, hne (m := '$') rfl]

/-- No literal and no tag that is opened in a text reaches over a blank behind it. -/
def ClosesBefore (s r : List Char) : Prop :=
  ∀ c t, isQuote c = true → c :: t <:+ s →
    nextToken c (t ++ ' ' :: r) = ((nextToken c t).1, (nextToken c t).2 ++ ' ' :: r)

theorem ClosesBefore.suffix {s t r : List Char} (h : ClosesBefore s r) (ht : t <:+ s) :
    ClosesBefore t r := fun c u hc hu => h c u hc (hu.trans ht)

theorem ClosesBefore.of_lacks_quotes {s : List Char} (hs : Lacks isQuote s) (r : List Char) :
    ClosesBefore s r := by
  intro c t hc ht
  rw [hs c (ht.subset List.mem_cons_self)] at hc
  cases hc

theorem literalTail?_eq_none {r : List Char} (hr : '\'' ∉ r) : literalTail? r = none := by
  induction r with
  | nil => rw [literalTail?]
  | cons c r ih =>
    rw [List.mem_cons, not_or] at hr
    rw [literalTail?_char r (Ne.symm hr.1), ih hr.2, Option.map_none]

theorem literalTail?_append_eq_none {s r : List Char} (hs : literalTail? s = none)
    (hr : '\'' ∉ r) : literalTail? (s ++ r) = none := by
  fun_induction literalTail? s with
  | case1 s ih =>
    rw [List.cons_append, List.cons_append, literalTail?_pair, ih (Option.map_eq_none_iff.1 hs),
      Option.map_none]
  | case2 s => cases hs
  | case3 c s _ hc ih =>
    rw [List.cons_append, literalTail?_char _ hc, ih (Option.map_eq_none_iff.1 hs),
      Option.map_none]
  | case4 => exact literalTail?_eq_none hr

theorem tagTail?_eq_none_iff {s : List Char} : tagTail? s = none ↔ '}' ∉ s := by
  fun_induction tagTail? s with
  | case1 s => simp
  | case2 c s hc ih =>
    rw [Option.map_eq_none_iff, ih, List.mem_cons, not_or]
    exact (and_iff_right (Ne.symm hc)).symm
  | case3 => simp

theorem ClosesBefore.of_lacks_closers (s : List Char) {r : List Char} (hr : Lacks isCloser r) :
    ClosesBefore s r := by
  have hnot {m : Char} (hm : isCloser m = true) (hblank : m ≠ ' ') : m ∉ ' ' :: r := by
    rw [List.mem_cons, not_or]
    exact ⟨hblank, fun h => by rw [hr m h] at hm; cases hm⟩
  intro c t hc _
  rw [isQuote, Bool.or_eq_true, beq_iff_eq, beq_iff_eq] at hc
  rcases hc with rfl | rfl
  · cases hl : literalTail? t with
    | none => simp [nextToken, hl, literalTail?_append_eq_none hl (hnot (by decide) (by decide))]
    | some x => simp [nextToken, hl, literalTail?_append_right hl (r := ' ' :: r) (by simp)]
  · cases t with
    | nil => simp [nextToken]
    | cons d t =>
      by_cases hd : d = '{'
      · subst hd
        cases hg : tagTail? t with
        | none =>
          have hnone : tagTail? (t ++ ' ' :: r) = none := by
            rw [tagTail?_eq_none_iff] at hg ⊢
            rw [List.mem_append, not_or]
            exact ⟨hg, hnot (by decide) (by decide)⟩
          simp [nextToken, hg, hnone]
        | some x => simp [nextToken, hg, tagTail?_append_right hg]
      · simp [nextToken, hd]

/-- A text is read by itself in front of a character that no path and no literal or tag of it
reaches over. Of the text `P` is asked wherever a token of it ends. -/
theorem gather_append_stop {β : Type} {g : Bool × Token → List β} (hg : Additive g) {m : Char}
    (hname : isNameChar m = false) (hpoint : m ≠ '.') {r : List Char}
    {P : List Char → Prop} (hnext : ∀ c s, P (c :: s) → P (nextToken c s).2)
    (hquote : ∀ c s, P (c :: s) → isQuote c = true →
      nextToken c (s ++ m :: r) = ((nextToken c s).1, (nextToken c s).2 ++ m :: r))
    {s : List Char} (hs : P s) :
    gather g aliased (tokens (s ++ m :: r)) =
      gather g aliased (tokens s) ++
        gather g (aliasedAfter aliased (tokens s)) (tokens (m :: r)) := by
  fun_induction tokens s generalizing aliased with
  | case1 => simp [aliasedAfter]
  | case2 c s ih =>
    have hrest (b : Bool) := @ih b (hnext c s hs)
    by_cases hc : isQuote c = true
    · rw [List.cons_append, tokens_cons, hquote c s hs hc, gather_cons, gather_cons,
        List.append_assoc, hrest]
      rfl
    by_cases hstart : isNameStart c = true
    · have hstop := pathTail_append_stop hname hpoint s r
      rw [nextToken_name _ hstart] at hrest ⊢
      rw [List.cons_append, tokens_cons, nextToken_name _ hstart, hstop, gather_cons, gather_cons,
        List.append_assoc, hrest]
      rfl
    · -- the run of plain characters goes on at `m`, where it may be cut all the same
      have hplain : isPlain c = true := by
        rw [isQuote, Bool.or_eq_true, not_or, beq_iff_eq, beq_iff_eq] at hc
        exact isPlain_of_not_isNameStart (Bool.eq_false_iff.2 hstart) hc.1 hc.2
      have hall : (c :: s.takeWhile isPlain).all isPlain = true := by
        rw [List.all_cons, hplain, Bool.true_and]
        exact List.all_takeWhile
      have hsplit : c :: s = (c :: s.takeWhile isPlain) ++ s.dropWhile isPlain := by
        rw [List.cons_append, List.takeWhile_append_dropWhile]
      have hmark : aliasedAfter aliased (tokens (c :: s)) =
          aliasedAfter (aliased && (c :: s.takeWhile isPlain).all Text.isBlank)
            (tokens (s.dropWhile isPlain)) := by
        rw [tokens_plain s hplain]
        rfl
      simp only [nextToken_plain _ hplain] at hrest
      rw [← tokens_cons, hmark, hsplit, List.append_assoc, gather_plain hg hall,
        gather_plain hg hall, hrest, List.append_assoc]

theorem gather_append_of_closesBefore {β : Type} {g : Bool × Token → List β} (hg : Additive g)
    {s r : List Char} (hs : ClosesBefore s r) :
    gather g aliased (tokens (s ++ ' ' :: r)) =
      gather g aliased (tokens s) ++
        gather g (aliasedAfter aliased (tokens s)) (tokens (' ' :: r)) :=
  gather_append_stop hg (by decide) (by decide) (P := fun s => ClosesBefore s r)
    (fun c s hs => hs.suffix ⟨_, nextToken_append c s⟩)
    (fun c s hs hc => hs c s hc List.suffix_rfl) hs

theorem resolveFrom_append_of_closesBefore {s r : List Char} (h : ClosesBefore s r) :
    resolveFrom f aliased (s ++ ' ' :: r) =
      resolveFrom f aliased s ++ resolveFrom f (aliasedAfter aliased (tokens s)) (' ' :: r) := by
  simp only [resolveFrom, resolveTokens_eq_gather]
  exact gather_append_of_closesBefore additive_replaceReference h

/-- A complete text is read by itself in front of a character that goes on with no path and no
literal. -/
theorem gather_append_of_isComplete {β : Type} {g : Bool × Token → List β} (hg : Additive g)
    {s r : List Char} (hs : IsComplete s) {m : Char} (hname : isNameChar m = false)
    (hpoint : m ≠ '.') (hquote : m ≠ '\'') :
    gather g aliased (tokens (s ++ m :: r)) =
      gather g aliased (tokens s) ++
        gather g (aliasedAfter aliased (tokens s)) (tokens (m :: r)) := by
  refine gather_append_stop hg hname hpoint (P := IsComplete)
    (fun c s h => (isComplete_cons.1 h).2) (fun c s h hc => ?_) hs
  rw [isQuote, Bool.or_eq_true, beq_iff_eq, beq_iff_eq] at hc
  exact nextToken_append_of_isSettled (isComplete_cons.1 h).1 hc fun hm =>
    absurd (Option.some.inj hm) hquote

end FilterSql.Sql
