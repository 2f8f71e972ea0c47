import FilterSql.Proofs.Sql.Renaming
/-!
# The shapes of tokens

What a token looks like, and what may stand behind it, can be said without reading the text from
left to right: names and runs are as long as the text allows, quotes inside a literal come in pairs
and none follows it, and a quote or a dollar sign stands alone only where nothing completes a
literal or a tag. These shapes leave one way to cut a text, and it is cut that way.
-/
namespace FilterSql.Sql

/-- The quotes of a text stand in pairs, the two of a pair side by side. -/
inductive Paired : List Char → Prop
  | nil : Paired []
  | pair {s : List Char} (h : Paired s) : Paired ('\'' :: '\'' :: s)
  | char {c : Char} {s : List Char} (hc : c ≠ '\'') (h : Paired s) : Paired (c :: s)

/-- A quote, a text whose quotes stand in pairs, and a quote. A quote that followed would make a
pair with the closing one. -/
def IsLiteral (p r : List Char) : Prop :=
  ∃ body, p = '\'' :: (body ++ ['\'']) ∧ Paired body ∧ r.head? ≠ some '\''

def IsTag (p : List Char) : Prop := ∃ body, p = '$' :: '{' :: (body ++ ['}']) ∧ '}' ∉ body

def IsRun (p : List Char) : Prop := p ≠ [] ∧ p.all isPlain = true

/-- `p` satisfies `P`, and nothing that it could take from the text behind it would do so with it. -/
def IsLongest (P : List Char → Prop) (p r : List Char) : Prop :=
  P p ∧ ∀ q, q <+: r → P (p ++ q) → q = []

/-- The shape of a token in front of a text. -/
inductive Token.IsShaped : Token → List Char → Prop
  | literal {p r : List Char} (h : IsLiteral p r) : IsShaped ⟨.literal, p⟩ r
  | tag {p r : List Char} (h : IsTag p) : IsShaped ⟨.tag, p⟩ r
  | path {p r : List Char} (h : IsLongest IsPath p r) : IsShaped ⟨.path, p⟩ r
  | run {p r : List Char} (h : IsLongest IsRun p r) : IsShaped ⟨.other, p⟩ r
  | quote {r : List Char} (h : ∀ p s, p ++ s = '\'' :: r → ¬ IsLiteral p s) :
    IsShaped ⟨.other, ['\'']⟩ r
  | dollar {r : List Char} (h : ∀ p s, p ++ s = '$' :: r → ¬ IsTag p) : IsShaped ⟨.other, ['$']⟩ r

/-- The text is put together of tokens, each in its shape in front of those behind it. -/
inductive Lexes : List Char → List Token → Prop
  | nil : Lexes [] []
  | cons {t : Token} {s : List Char} {ts : List Token} (ht : t.IsShaped s) (h : Lexes s ts) :
    Lexes (t.chars ++ s) (t :: ts)

structure Token.Separate (t u : Token) : Prop where
  paths : t.kind = .path → u.kind ≠ .path
  literals : t.kind = .literal → u.kind ≠ .literal
  runs : IsRun t.chars → ¬ IsRun u.chars

variable {s p q r : List Char} {t u : Token} {ts : List Token}

theorem Paired.literalTail?_eq (h : Paired s) (hr : r.head? ≠ some '\'') :
    literalTail? (s ++ '\'' :: r) = some (s ++ ['\''], r) := by
  induction h with
  | nil => exact literalTail?_close hr
  | pair _ ih =>
    rw [List.cons_append, List.cons_append, literalTail?_pair, ih]
    rfl
  | char hc _ ih =>
    rw [List.cons_append, literalTail?_char _ hc, ih]
    rfl

theorem paired_of_literalTail? {x : List Char × List Char} (hx : literalTail? s = some x) :
    ∃ body, x.1 = body ++ ['\''] ∧ Paired body := by
  fun_induction literalTail? s generalizing x with
  | case1 s ih =>
    obtain ⟨y, hy, rfl⟩ := Option.map_eq_some_iff.1 hx
    obtain ⟨body, hbody, hpaired⟩ := ih hy
    exact ⟨'\'' :: '\'' :: body, congrArg (fun s => '\'' :: '\'' :: s) hbody, hpaired.pair⟩
  | case2 s hs =>
    obtain rfl := Option.some.inj hx
    exact ⟨[], rfl, .nil⟩
  | case3 c s _ hc ih =>
    obtain ⟨y, hy, rfl⟩ := Option.map_eq_some_iff.1 hx
    obtain ⟨body, hbody, hpaired⟩ := ih hy
    exact ⟨c :: body, congrArg (c :: ·) hbody, hpaired.char hc⟩
  | case4 => cases hx

theorem isLiteral_of_literalTail? {x : List Char × List Char} (hx : literalTail? s = some x) :
    IsLiteral ('\'' :: x.1) x.2 := by
  obtain ⟨body, hbody, hpaired⟩ := paired_of_literalTail? hx
  exact ⟨body, congrArg ('\'' :: ·) hbody, hpaired, (literalTail?_some hx).1⟩

/-- A quote stands alone exactly where no literal can be completed. -/
theorem literalTail?_eq_none_iff :
    literalTail? r = none ↔ ∀ p s, p ++ s = '\'' :: r → ¬ IsLiteral p s := by
  constructor
  · rintro h p s hs ⟨body, rfl, hpaired, hstop⟩
    rw [List.cons_append, List.append_assoc, List.singleton_append] at hs
    obtain ⟨-, rfl⟩ := List.cons.inj hs
    rw [hpaired.literalTail?_eq hstop] at h
    cases h
  · intro h
    cases hx : literalTail? r with
    | none => rfl
    | some x =>
      exact absurd (isLiteral_of_literalTail? hx) (h _ _ (congrArg _ (literalTail?_append hx)))

theorem forall_not_isTag_iff :
    (∀ p s, p ++ s = '$' :: r → ¬ IsTag p) ↔ ∀ u, r = '{' :: u → '}' ∉ u := by
  constructor
  · rintro h u rfl hmem
    obtain ⟨x, hx⟩ := Option.ne_none_iff_exists'.1 (mt tagTail?_eq_none_iff.1 (not_not.2 hmem))
    obtain ⟨body, hbody, hbrace⟩ := tagTail?_some hx
    have hcut := congrArg (fun s => '$' :: '{' :: s) (tagTail?_append hx)
    exact h _ x.2 hcut ⟨body, congrArg (fun s => '$' :: '{' :: s) hbrace, hbody⟩
  · rintro h p s hs ⟨body, rfl, -⟩
    obtain ⟨-, rfl⟩ := List.cons.inj hs
    exact h _ rfl (by simp)

theorem isName_append (hp : isName p = true) (hq : q.all isNameChar = true) :
    isName (p ++ q) = true := by
  obtain ⟨c, s, rfl, hc, hs⟩ := isName_cases hp
  rw [List.cons_append, isName, hc, List.all_append, hs, hq]
  rfl

theorem all_isNameChar_of_isName (h : isName p = true) : p.all isNameChar = true :=
  List.all_eq_true.2 fun _ hc => isNameChar_of_mem h hc

theorem IsPath.append_name (hp : IsPath p) (hq : q.all isNameChar = true) : IsPath (p ++ q) := by
  induction hp with
  | name hn => exact .name (isName_append hn hq)
  | qualified hn _ ih =>
    rw [List.append_assoc, List.cons_append]
    exact .qualified hn ih

theorem IsPath.append_point (hp : IsPath p) (hq : IsPath q) : IsPath (p ++ '.' :: q) := by
  induction hp with
  | name hn => exact .qualified hn hq
  | qualified hn _ ih =>
    rw [List.append_assoc, List.cons_append]
    exact .qualified hn ih

theorem IsPath.append (hp : IsPath p) (hq : IsPath q) : IsPath (p ++ q) := by
  cases hq with
  | name hn => exact hp.append_name (all_isNameChar_of_isName hn)
  | qualified hn hq =>
    rw [← List.append_assoc]
    exact (hp.append_name (all_isNameChar_of_isName hn)).append_point hq

/-- A path is read to its end and no further exactly if it cannot be extended. -/
theorem isLongest_isPath_iff :
    IsLongest IsPath p r ↔ IsPath p ∧ continuesPath r = false := by
  refine and_congr_right fun hp => ⟨fun h => Bool.eq_false_iff.2 fun hr => ?_, fun hr q hq hpq => ?_⟩
  · fun_cases continuesPath r with
    | case1 c s =>
      have hc : isNameStart c = true := hr
      have hpath := hp.append_point (.name (n := [c]) (by simp [isName, hc]))
      cases h ['.', c] ⟨s, rfl⟩ hpath
    | case2 c s hpoint =>
      rw [continuesPath] at hr
      · cases h [c] ⟨s, rfl⟩ (hp.append_name (by rw [List.all_cons, hr]; rfl))
      · exact hpoint
    | case3 => cases hr
  · -- both `p` and `p ++ q` are what is read at the start of the text
    obtain ⟨s, rfl⟩ := hq
    obtain ⟨c, u, rfl, -, hu⟩ := pathTail_path hp (q ++ s)
    obtain ⟨d, v, hv, -, hv'⟩ := pathTail_path hpq s
    rw [List.cons_append] at hv
    obtain ⟨rfl, rfl⟩ := List.cons.inj hv
    rw [List.append_assoc, hu, pathTail_of_not_continues hr, List.append_nil] at hv'
    have hread := congrArg (fun x => x.1.length) hv'
    simp only [List.length_append] at hread
    exact List.length_eq_zero_iff.1 (by omega)

theorem IsRun.append (hp : IsRun p) (hq : q.all isPlain = true) : IsRun (p ++ q) :=
  ⟨List.append_ne_nil_of_left_ne_nil hp.1 q, by rw [List.all_append, hp.2, hq]; rfl⟩

theorem isLongest_isRun_iff :
    IsLongest IsRun p r ↔ IsRun p ∧ ∀ d u, r = d :: u → isPlain d = false := by
  refine and_congr_right fun hp => ⟨?_, fun hr q hq hpq => ?_⟩
  · rintro h d u rfl
    refine Bool.eq_false_iff.2 fun hd => ?_
    cases h [d] ⟨u, rfl⟩ (hp.append (by rw [List.all_cons, hd]; rfl))
  · obtain ⟨s, rfl⟩ := hq
    cases q with
    | nil => rfl
    | cons d q =>
      have hall := hpq.2
      rw [List.all_append, List.all_cons, hr d _ rfl, Bool.false_and, Bool.and_false] at hall
      cases hall

theorem Token.isShaped_iff : t.IsShaped r ↔ t.EndsBefore r := by
  constructor
  · intro h
    cases h with
    | literal h =>
      obtain ⟨body, rfl, hpaired, hr⟩ := h
      exact .literal (hpaired.literalTail?_eq (by simp)) hr
    | tag h =>
      obtain ⟨body, rfl, hbody⟩ := h
      exact .tag hbody
    | path h => exact .path (isLongest_isPath_iff.1 h).1 (isLongest_isPath_iff.1 h).2
    | run h =>
      obtain ⟨⟨hne, hp⟩, hr⟩ := isLongest_isRun_iff.1 h
      obtain ⟨c, p, rfl⟩ := List.exists_cons_of_ne_nil hne
      rw [List.all_cons, Bool.and_eq_true] at hp
      exact .plain hp.1 hp.2 hr
    | quote h => exact .quote (literalTail?_eq_none_iff.2 h)
    | dollar h => exact .dollar (forall_not_isTag_iff.1 h)
  · intro h
    cases h with
    | literal hbody hr =>
      obtain ⟨body, hclosed, hpaired⟩ := paired_of_literalTail? hbody
      exact .literal ⟨body, congrArg ('\'' :: ·) hclosed, hpaired, hr⟩
    | tag hbody => exact .tag ⟨_, rfl, hbody⟩
    | path hp hr => exact .path (isLongest_isPath_iff.2 ⟨hp, hr⟩)
    | @plain c run r hc hrun hr =>
      have hall : (c :: run).all isPlain = true := by rw [List.all_cons, hc, hrun]; rfl
      exact .run (isLongest_isRun_iff.2 ⟨⟨List.cons_ne_nil _ _, hall⟩, hr⟩)
    | quote hr => exact .quote (literalTail?_eq_none_iff.1 hr)
    | dollar hr => exact .dollar (forall_not_isTag_iff.2 hr)

theorem lexes_tokens (s : List Char) : Lexes s (tokens s) := by
  fun_induction tokens s with
  | case1 => exact .nil
  | case2 c s ih =>
    rw [← nextToken_append c s]
    exact .cons (Token.isShaped_iff.2 (endsBefore_nextToken c s)) ih

/-- There is one way to cut a text into tokens of these shapes. -/
theorem Lexes.eq_tokens (h : Lexes s ts) : ts = tokens s := by
  induction h with
  | nil => exact tokens_nil.symm
  | cons ht _ ih => rw [(Token.isShaped_iff.1 ht).tokens_eq, ← ih]

theorem Lexes.exists_isShaped (h : Lexes s ts) (ht : t ∈ ts) : ∃ r, t.IsShaped r := by
  induction h with
  | nil => cases ht
  | cons hu _ ih =>
    rcases List.mem_cons.1 ht with rfl | ht
    · exact ⟨_, hu⟩
    · exact ih ht

theorem Lexes.concat_eq (h : Lexes s ts) : concat ts = s := by
  rw [h.eq_tokens, concat_tokens]

theorem IsRun.cons_isPlain (h : IsRun p) : ∃ c s, p = c :: s ∧ isPlain c = true := by
  obtain ⟨c, s, rfl⟩ := List.exists_cons_of_ne_nil h.1
  have hall := h.2
  rw [List.all_cons, Bool.and_eq_true] at hall
  exact ⟨c, s, rfl, hall.1⟩

theorem Token.IsShaped.isLongest_isRun (h : t.IsShaped r) (ht : IsRun t.chars) :
    IsLongest IsRun t.chars r := by
  obtain ⟨c, s, hs, hc⟩ := ht.cons_isPlain
  cases h with
  | run h => exact h
  | path h =>
    obtain ⟨d, u, rfl, hd⟩ := ne_nil_of_isPath h.1
    obtain ⟨rfl, -⟩ := List.cons.inj hs
    rw [not_isNameStart_of_isPlain hc] at hd
    cases hd
  | literal h =>
    obtain ⟨body, rfl, -⟩ := h
    obtain ⟨rfl, -⟩ := List.cons.inj hs
    cases hc
  | tag h =>
    obtain ⟨body, rfl, -⟩ := h
    obtain ⟨rfl, -⟩ := List.cons.inj hs
    cases hc
  | quote | dollar =>
    obtain ⟨rfl, -⟩ := List.cons.inj hs
    cases hc

theorem Token.IsShaped.chars_ne_nil (h : t.IsShaped r) : t.chars ≠ [] := by
  cases h with
  | literal h | tag h =>
    obtain ⟨body, rfl, -⟩ := h
    exact List.cons_ne_nil _ _
  | path h =>
    obtain ⟨c, s, rfl, -⟩ := ne_nil_of_isPath h.1
    exact List.cons_ne_nil c s
  | run h => exact h.1.1
  | quote | dollar => exact List.cons_ne_nil _ _

theorem Token.IsShaped.separate (ht : t.IsShaped (u.chars ++ s)) (hu : u.IsShaped s) :
    t.Separate u := by
  have hprefix : u.chars <+: u.chars ++ s := List.prefix_append _ _
  constructor
  · intro htk huk
    cases ht with
    | path hp =>
      cases hu with
      | path hq => exact (IsShaped.path hq).chars_ne_nil (hp.2 _ hprefix (hp.1.append hq.1))
      | _ => cases huk
    | _ => cases htk
  · intro htk huk
    cases ht with
    | literal hp =>
      obtain ⟨body, -, -, hstop⟩ := hp
      cases hu with
      | literal hq =>
        obtain ⟨body', rfl, -⟩ := hq
        exact hstop rfl
      | _ => cases huk
    | _ => cases htk
  · intro htr hur
    exact hu.chars_ne_nil ((ht.isLongest_isRun htr).2 _ hprefix (htr.append hur.2))

theorem Lexes.isChain (h : Lexes s ts) : ts.IsChain Token.Separate := by
  induction h with
  | nil => exact .nil
  | cons ht h ih =>
    cases h with
    | nil => exact .singleton _
    | cons hu h => exact .cons_cons (ht.separate hu) ih

/-- Every text is cut into tokens of the shapes in exactly one way. None of them is empty, together
they are the text again, and neither two paths, nor two literals, nor two runs stand side by side. -/
theorem lexes_iff_eq_tokenize (sql : String) :
    (∀ ts, Lexes sql.toList ts ↔ ts = tokenize sql) ∧
    (∀ t ∈ tokenize sql, t.chars ≠ []) ∧
    concat (tokenize sql) = sql.toList ∧
    (tokenize sql).IsChain Token.Separate := by
  have hlexes : Lexes sql.toList (tokenize sql) := lexes_tokens sql.toList
  refine ⟨fun ts => ⟨Lexes.eq_tokens, ?_⟩, fun t ht => ?_, hlexes.concat_eq, hlexes.isChain⟩
  · rintro rfl
    exact hlexes
  · obtain ⟨r, hr⟩ := hlexes.exists_isShaped ht
    exact hr.chars_ne_nil

/-- A text with a pair of quotes in a literal, a pair behind a quote that nothing closes, a dollar
sign beside a tag, and a point that no name follows. -/
def mixedText : String := "x.1 'it''s' $\x7ba\x7d$ 'y''"

theorem lexes_mixedText :
    (tokenize mixedText).map (·.text) =
      ["x", ".1 ", "'it''s'", " ", "$\x7ba\x7d", "$", " ", "'", "y", "''"] ∧
    Lexes mixedText.toList (tokenize mixedText) ∧ ∀ t ∈ tokenize mixedText, t.chars ≠ [] := by
  obtain ⟨hlexes, hne, -⟩ := lexes_iff_eq_tokenize mixedText
  exact ⟨by decide +kernel, (hlexes _).2 rfl, hne⟩

end FilterSql.Sql
