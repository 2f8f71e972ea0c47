import FilterSql.Proofs.Sql.Resolving
/-!
# Quotes and placeholders

Every quote changes between inside and outside. A text is balanced when its quotes come in pairs and
no dollar sign stands outside of them; then the characters outside are those of all its tokens but
the literals. Only quotes, dollar signs and question marks matter for this, so a change that keeps
their sequence, such as resolving names without any of them, keeps the placeholders.
-/
namespace FilterSql.Sql

/-- Whether the end of a text is inside of quotes, given whether its start is. -/
def inside : Bool → List Char → Bool
  | q, [] => q
  | q, c :: s => inside (if c = '\'' then !q else q) s

/-- The characters outside of quotes, given whether the start is inside. -/
def outside : Bool → List Char → List Char
  | _, [] => []
  | q, c :: s =>
    if c = '\'' then outside (!q) s
    else if q then outside q s
    else c :: outside q s

/-- The quotes of the text come in pairs, and no dollar sign stands outside of them. -/
structure Balanced (s : List Char) : Prop where
  paired : inside false s = false
  noDollar : '$' ∉ outside false s

/-- Besides, exactly `n` question marks stand outside of the quotes. -/
structure WellQuoted (n : Nat) (s : List Char) : Prop extends Balanced s where
  count : (outside false s).count '?' = n

/-- The characters that decide where literals and tags are. -/
def isQuote (c : Char) : Bool := c == '\'' || c == '$'

def isMark (c : Char) : Bool := isQuote c || c == '?'

theorem isMark_of_isQuote {c : Char} (h : isQuote c = true) : isMark c = true := by
  rw [isMark, h]
  rfl

def Lacks (p : Char → Bool) (s : List Char) : Prop := ∀ c ∈ s, p c = false

instance (p : Char → Bool) (s : List Char) : Decidable (Lacks p s) :=
  decidable_of_iff (s.all (!p ·) = true) (by simp [Lacks])

def unquoted (s : List Char) : List Char :=
  (tokens s).flatMap fun t => if t.kind = .literal then [] else t.chars

def placeholders (sql : String) : Nat := (unquoted sql.toList).count '?'

theorem inside_append (q : Bool) (s t : List Char) :
    inside q (s ++ t) = inside (inside q s) t := by
  induction s generalizing q with
  | nil => rfl
  | cons c s ih => exact ih _

theorem outside_append (q : Bool) (s t : List Char) :
    outside q (s ++ t) = outside q s ++ outside (inside q s) t := by
  induction s generalizing q with
  | nil => rfl
  | cons c s ih =>
    rw [List.cons_append, outside, outside, inside]
    by_cases hc : c = '\''
    · simp only [if_pos hc, ih]
    · cases q <;> simp [hc, ih]

theorem inside_of_not_mem {s : List Char} (h : '\'' ∉ s) (q : Bool) : inside q s = q := by
  induction s with
  | nil => rfl
  | cons c s ih =>
    rw [List.mem_cons, not_or] at h
    rw [inside, if_neg (Ne.symm h.1), ih h.2]

theorem outside_of_not_mem {s : List Char} (h : '\'' ∉ s) : outside false s = s := by
  induction s with
  | nil => rfl
  | cons c s ih =>
    rw [List.mem_cons, not_or] at h
    simp [outside, Ne.symm h.1, ih h.2]

theorem outside_true_of_not_mem {s : List Char} (h : '\'' ∉ s) : outside true s = [] := by
  induction s with
  | nil => rfl
  | cons c s ih =>
    rw [List.mem_cons, not_or] at h
    rw [outside, if_neg (Ne.symm h.1), if_pos rfl, ih h.2]

namespace Balanced

variable {s t : List Char}

theorem nil : Balanced [] := ⟨rfl, by simp [outside]⟩

theorem outside_append (hs : Balanced s) (t : List Char) :
    outside false (s ++ t) = outside false s ++ outside false t := by
  rw [Sql.outside_append, hs.paired]

theorem append (hs : Balanced s) (ht : Balanced t) : Balanced (s ++ t) := by
  constructor
  · rw [inside_append, hs.paired, ht.paired]
  · rw [hs.outside_append, List.mem_append, not_or]
    exact ⟨hs.noDollar, ht.noDollar⟩

theorem of_lacks (h : Lacks isQuote s) : Balanced s := by
  have hq : '\'' ∉ s := fun hc => absurd (h _ hc) (by decide)
  have hd : '$' ∉ s := fun hc => absurd (h _ hc) (by decide)
  exact ⟨inside_of_not_mem hq false, by rwa [outside_of_not_mem hq]⟩

end Balanced

namespace WellQuoted

variable {m n : Nat} {s t : List Char}

theorem nil : WellQuoted 0 [] := ⟨.nil, rfl⟩

theorem append (hs : WellQuoted m s) (ht : WellQuoted n t) : WellQuoted (m + n) (s ++ t) := by
  refine ⟨hs.toBalanced.append ht.toBalanced, ?_⟩
  rw [hs.outside_append, List.count_append, hs.count, ht.count]

theorem of_lacks (h : Lacks isMark s) : WellQuoted 0 s := by
  have hq : '\'' ∉ s := fun hc => absurd (h _ hc) (by decide)
  have hp : '?' ∉ s := fun hc => absurd (h _ hc) (by decide)
  refine ⟨.of_lacks fun c hc => ?_, ?_⟩
  · exact (Bool.or_eq_false_iff.1 (h c hc)).1
  · rw [outside_of_not_mem hq, List.count_eq_zero_of_not_mem hp]

end WellQuoted

variable {p : Char → Bool}

theorem filter_eq_nil_iff_lacks {s : List Char} : s.filter p = [] ↔ Lacks p s := by
  simp [Lacks]

theorem Lacks.append {s t : List Char} (hs : Lacks p s) (ht : Lacks p t) : Lacks p (s ++ t) := by
  rw [← filter_eq_nil_iff_lacks, List.filter_append, filter_eq_nil_iff_lacks.2 hs,
    filter_eq_nil_iff_lacks.2 ht]
  rfl

theorem Lacks.mono {q : Char → Bool} (hp : ∀ c, p c = true → q c = true) {s : List Char}
    (h : Lacks q s) : Lacks p s := by
  intro c hc
  have hq := h c hc
  cases hpc : p c with
  | false => rfl
  | true => rw [hp c hpc] at hq; exact hq

theorem inside_filter (hp : p '\'' = true) (q : Bool) (s : List Char) :
    inside q (s.filter p) = inside q s := by
  induction s generalizing q with
  | nil => rfl
  | cons c s ih =>
    by_cases hc : p c = true
    · rw [List.filter_cons_of_pos hc]
      exact ih _
    · have hq : c ≠ '\'' := by rintro rfl; exact hc hp
      rw [List.filter_cons_of_neg hc, inside, if_neg hq]
      exact ih q

theorem outside_filter (hp : p '\'' = true) (q : Bool) (s : List Char) :
    outside q (s.filter p) = (outside q s).filter p := by
  induction s generalizing q with
  | nil => rfl
  | cons c s ih =>
    by_cases hq : c = '\''
    · subst hq
      rw [List.filter_cons_of_pos hp, outside, outside]
      exact ih _
    · cases q <;> cases hc : p c <;> simp [outside, hq, hc, ih]

theorem mem_outside_filter (hp : p '\'' = true) {c : Char} (hc : p c = true) (s : List Char) :
    c ∈ outside false (s.filter p) ↔ c ∈ outside false s := by
  rw [outside_filter hp, List.mem_filter]
  exact and_iff_left hc

theorem Balanced.congr {s t : List Char} (hs : Balanced s)
    (h : t.filter isQuote = s.filter isQuote) : Balanced t := by
  constructor
  · rw [← inside_filter (p := isQuote) rfl, h, inside_filter rfl, hs.paired]
  · rw [← mem_outside_filter (p := isQuote) rfl rfl, h, mem_outside_filter rfl rfl]
    exact hs.noDollar

theorem filter_isQuote_of_isMark {s t : List Char} (h : t.filter isMark = s.filter isMark) :
    t.filter isQuote = s.filter isQuote := by
  have hq (u : List Char) : (u.filter isMark).filter isQuote = u.filter isQuote := by
    rw [List.filter_filter]
    refine congrArg (u.filter ·) (funext fun c => ?_)
    cases hc : isQuote c <;> simp [isMark, hc]
  rw [← hq s, ← hq t, h]

theorem WellQuoted.congr {n : Nat} {s t : List Char} (hs : WellQuoted n s)
    (h : t.filter isMark = s.filter isMark) : WellQuoted n t := by
  have hcount (u : List Char) :
      (outside false (u.filter isMark)).count '?' = (outside false u).count '?' := by
    rw [outside_filter rfl, List.count_filter (by decide)]
  refine ⟨hs.toBalanced.congr (filter_isQuote_of_isMark h), ?_⟩
  rw [← hcount, h, hcount, hs.count]

theorem inside_literalTail {s : List Char} {x : List Char × List Char}
    (hx : literalTail? s = some x) : inside true x.1 = false ∧ outside true x.1 = [] := by
  fun_induction literalTail? s generalizing x with
  | case1 s ih =>
    obtain ⟨y, hy, rfl⟩ := Option.map_eq_some_iff.1 hx
    simpa [inside, outside] using ih hy
  | case2 s hs =>
    obtain rfl := Option.some.inj hx
    exact ⟨rfl, rfl⟩
  | case3 c s _ hc ih =>
    obtain ⟨y, hy, rfl⟩ := Option.map_eq_some_iff.1 hx
    have hc' : ¬ c = '\'' := hc
    simpa [inside, outside, hc'] using ih hy
  | case4 => simp at hx

/-- Without an end of the literal all quotes that follow are pairs. -/
theorem inside_of_literalTail_none {s : List Char} (h : literalTail? s = none) :
    inside true s = true := by
  fun_induction literalTail? s with
  | case1 s ih => simpa [inside] using ih (by simpa using h)
  | case2 s hs => simp at h
  | case3 c s _ hc ih =>
    have hc' : ¬ c = '\'' := hc
    simpa [inside, hc'] using ih (by simpa using h)
  | case4 => rfl

theorem isMark_eq_false {p : Char → Bool} (hp : Lacks p ['\'', '$', '?']) {c : Char}
    (hc : p c = true) : isMark c = false := by
  have hne (m : Char) (hm : m ∈ ['\'', '$', '?']) : c ≠ m := ne_of_true_of_false hc (hp m hm)
  simp [isMark, isQuote, hne '\'' (by simp), hne '$' (by simp), hne '?' (by simp)]

theorem IsPath.lacks {p : List Char} (hp : IsPath p) : Lacks isMark p := by
  intro c hc
  rcases hp.chars hc with hname | rfl
  · exact isMark_eq_false (by decide) hname
  · rfl

theorem lacks_path {c : Char} (s : List Char) (hc : isNameStart c = true) :
    Lacks isMark (c :: (pathTail s).1) := (isPath_of_isNameStart hc s).lacks

theorem isNameStart_of_nextToken {c : Char} {s : List Char}
    (h : (nextToken c s).1.kind = .path) : isNameStart c = true := by
  by_contra hc
  revert h
  unfold nextToken
  repeat' split
  all_goals simp_all

theorem isPath_of_mem_tokens {s : List Char} {t : Token} (ht : t ∈ tokens s)
    (hk : t.kind = .path) : IsPath t.chars := by
  fun_induction tokens s with
  | case1 => cases ht
  | case2 c s ih =>
    rcases List.mem_cons.1 ht with rfl | ht
    · have hname := isNameStart_of_nextToken hk
      rw [nextToken_name _ hname]
      exact isPath_of_isNameStart hname s
    · exact ih ht

theorem getLast?_resolveFrom {f : String → Option String} {aliased : Bool} {s : List Char}
    {m : Char} (hs : s.getLast? = some m) (hm : isNameChar m = false) (hp : m ≠ '.') :
    (resolveFrom f aliased s).getLast? = some m := by
  induction hn : s.length using Nat.strongRecOn generalizing s aliased with
  | _ n ih =>
    cases s with
    | nil => cases hs
    | cons c s =>
      have hlen := nextToken_length c s
      rw [← nextToken_append c s, List.getLast?_append] at hs
      rw [resolveFrom_cons, List.getLast?_append]
      -- the last character is in the rest, or it ends the first token, which is then no path
      cases hr : (nextToken c s).2.getLast? with
      | some d =>
        rw [hr] at hs
        rw [ih _ (by omega) (hr.trans hs) rfl]
        rfl
      | none =>
        rw [hr] at hs
        have hpath : (nextToken c s).1.kind ≠ .path := by
          intro h
          have hc := isNameStart_of_nextToken h
          have hmem := List.mem_of_getLast? hs
          rw [nextToken_name _ hc] at hmem
          rcases (isPath_of_isNameStart hc s).chars hmem with h | h
          · rw [h] at hm
            cases hm
          · exact hp h
        have hkept : (nextToken c s).1.isReference aliased = false := by
          simp [Token.isReference, hpath]
        rw [List.getLast?_eq_none_iff.1 hr, hkept, resolveFrom_nil]
        exact hs

theorem nextToken_of_paired {c : Char} {s : List Char} (hp : inside false (c :: s) = false)
    (hd : '$' ∉ outside false (c :: s)) :
    (nextToken c s).1.isSettled = true ∧ inside false (nextToken c s).1.chars = false ∧
      outside false (nextToken c s).1.chars =
        if (nextToken c s).1.kind = .literal then [] else (nextToken c s).1.chars := by
  by_cases hquote : c = '\''
  · subst hquote
    cases hl : literalTail? s with
    | none =>
      have hi : inside true s = false := hp
      rw [inside_of_literalTail_none hl] at hi
      cases hi
    | some x =>
      have hx := inside_literalTail hl
      have hne : x.1 ≠ [] := by rintro h; simp [h, inside] at hx
      simp [nextToken, hl, Token.isSettled, inside, outside, hx, hne]
  by_cases hdollar : c = '$'
  · subst hdollar
    exact absurd (by simp [outside]) hd
  have hnone (u : List Char) (hu : '\'' ∉ u) (k : TokenKind) (hk : k ≠ .literal)
      (hs : Token.isSettled ⟨k, u⟩ = true) :
      Token.isSettled ⟨k, u⟩ = true ∧ inside false u = false ∧
        outside false u = if k = .literal then [] else u :=
    ⟨hs, inside_of_not_mem hu false, by rw [outside_of_not_mem hu, if_neg hk]⟩
  have hsettled (u : List Char) (k : TokenKind) : Token.isSettled ⟨k, c :: u⟩ = true := by
    simp [Token.isSettled, hquote, hdollar]
  by_cases hname : isNameStart c = true
  · rw [nextToken_name _ hname]
    refine hnone _ (fun h => ?_) .path (by decide) (hsettled _ _)
    simpa [isMark, isQuote] using lacks_path s hname _ h
  · have hplain := isPlain_of_not_isNameStart (by simpa using hname) hquote hdollar
    rw [nextToken_plain _ hplain]
    refine hnone _ (fun h => ?_) .other (by decide) (hsettled _ _)
    rcases List.mem_cons.1 h with h | h
    · exact hquote h.symm
    · simpa [isPlain] using List.all_eq_true.1 List.all_takeWhile _ h

/-- Balanced texts are literals and single characters that open neither a literal nor a tag. -/
@[elab_as_elim]
theorem Balanced.induction {motive : (s : List Char) → Balanced s → Prop}
    (nil : ∀ h, motive [] h)
    (char : ∀ c s h, isQuote c = false → (h' : Balanced s) → motive s h' → motive (c :: s) h)
    (literal : ∀ s x h, literalTail? s = some x → (h' : Balanced x.2) → motive x.2 h' →
      motive ('\'' :: s) h)
    {s : List Char} (hs : Balanced s) : motive s hs := by
  induction hn : s.length using Nat.strongRecOn generalizing s with
  | _ n ih =>
    cases s with
    | nil => exact nil hs
    | cons c s =>
      rw [List.length_cons] at hn
      obtain ⟨hpaired, hdollar⟩ := id hs
      by_cases hq : c = '\''
      · subst hq
        rw [inside, if_pos rfl, Bool.not_false] at hpaired
        rw [outside, if_pos rfl, Bool.not_false] at hdollar
        cases hx : literalTail? s with
        | none =>
          -- a quote that closes nothing leaves the text inside
          rw [inside_of_literalTail_none hx] at hpaired
          cases hpaired
        | some x =>
          obtain ⟨hinside, houtside⟩ := inside_literalTail hx
          have happend := literalTail?_append hx
          rw [← happend, inside_append, hinside] at hpaired
          rw [← happend, Sql.outside_append, hinside, houtside] at hdollar
          rw [← happend, List.length_append] at hn
          have hrest : Balanced x.2 := ⟨hpaired, hdollar⟩
          exact literal s x hs hx hrest (ih _ (by omega) hrest rfl)
      · rw [inside, if_neg hq] at hpaired
        rw [outside, if_neg hq, if_neg Bool.false_ne_true, List.mem_cons, not_or] at hdollar
        have hrest : Balanced s := ⟨hpaired, hdollar.2⟩
        have hc : isQuote c = false := by simp [isQuote, hq, Ne.symm hdollar.1]
        exact char c s hs hc hrest (ih _ (by omega) hrest rfl)

theorem Balanced.unquoted {s : List Char} (h : Balanced s) :
    IsComplete s ∧ unquoted s = outside false s := by
  obtain ⟨hp, hd⟩ := h
  induction hn : s.length using Nat.strongRecOn generalizing s with
  | _ n ih =>
    cases s with
    | nil => exact ⟨isComplete_nil, by simp [Sql.unquoted, outside]⟩
    | cons c s =>
      obtain ⟨hs, hi, ho⟩ := nextToken_of_paired hp hd
      have hlen := nextToken_length c s
      rw [← nextToken_append c s, inside_append, hi] at hp
      rw [← nextToken_append c s, Sql.outside_append, hi, List.mem_append, not_or] at hd
      obtain ⟨hc, hu⟩ := ih _ (by omega) hp hd.2 rfl
      refine ⟨isComplete_cons.2 ⟨hs, hc⟩, ?_⟩
      rw [Sql.unquoted, tokens_cons, List.flatMap_cons, ← ho, ← nextToken_append c s,
        Sql.outside_append, hi, ← hu]
      rfl

theorem WellQuoted.placeholders {n : Nat} {s : String} (h : WellQuoted n s.toList) :
    placeholders s = n := by
  rw [Sql.placeholders, h.unquoted.2, h.count]

/-- Every path that is replaced is replaced by a text with the property. -/
def Yields (Q : List Char → Prop) (f : String → Option String) : Prop :=
  ∀ s t, IsPath s.toList → f s = some t → Q t.toList

variable {f : String → Option String} {aliased : Bool}

theorem Yields.replaced {Q : List Char → Prop} (hf : Yields Q f) (hQ : ∀ p, IsPath p → Q p)
    {p : List Char} (hp : IsPath p) : Q (replaced f p) := by
  rw [Sql.replaced]
  cases h : f (String.ofList p) with
  | none => exact hQ p hp
  | some t => exact hf _ t (by rwa [String.toList_ofList]) h

theorem kind_of_isReference {t : Token} (h : t.isReference aliased = true) : t.kind = .path := by
  rw [Token.isReference, Bool.and_eq_true, Bool.and_eq_true, beq_iff_eq] at h
  exact h.1.1

theorem replaceReference_eq (f : String → Option String) (b : Bool) (t : Token) :
    replaceReference f (b, t) = if b then { t with chars := replaced f t.chars } else t := by
  cases b with
  | false => rfl
  | true =>
    rw [replaceReference, Sql.replaced, Token.text]
    cases f (String.ofList t.chars) <;> rfl

theorem filter_resolveTokens (hf : Yields (Lacks p) f) (hp : ∀ c, p c = true → isMark c = true)
    {ts : List Token} (hts : ∀ t ∈ ts, t.kind = .path → IsPath t.chars) :
    (resolveTokens f aliased ts).filter p = (concat ts).filter p := by
  induction ts generalizing aliased with
  | nil => rfl
  | cons t ts ih =>
    rw [List.forall_mem_cons] at hts
    have ht : (replaceReference f (t.isReference aliased, t)).chars.filter p =
        t.chars.filter p := by
      rw [replaceReference_eq]
      split
      next href =>
        have hpath := hts.1 (kind_of_isReference href)
        have hlacks := hf.replaced (fun _ hq => hq.lacks.mono hp) hpath
        exact (filter_eq_nil_iff_lacks.2 hlacks).trans
          (filter_eq_nil_iff_lacks.2 (hpath.lacks.mono hp)).symm
      next => rfl
    rw [resolveTokens_cons, List.filter_append, ht, ih hts.2, ← List.filter_append]
    rfl

/-- Resolving keeps the marks of a text in their order. -/
theorem filter_resolveFrom (hf : Yields (Lacks p) f) (hp : ∀ c, p c = true → isMark c = true)
    (s : List Char) : (resolveFrom f aliased s).filter p = s.filter p := by
  rw [resolveFrom, filter_resolveTokens hf hp fun _ => isPath_of_mem_tokens, concat_tokens]

end FilterSql.Sql
