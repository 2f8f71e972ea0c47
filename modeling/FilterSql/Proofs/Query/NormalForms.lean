import FilterSql.Criteria.Build
import FilterSql.Proofs.Criteria.Suppression
import FilterSql.Proofs.Query.Projections
import FilterSql.Proofs.Sql.Aliases
/-!
# Normal forms of projections

A plain projection is accepted with any blanks around it, any gaps around `as`, and arrows for
points. What it becomes is a path with an alias behind ` AS `, and this is read as itself. The text
of an expression without a function has the same form, so both ways to add a projection store one
text for all spellings of it.
-/
namespace FilterSql

open Sql Text

theorem dropWhile_append_stop {p : Char → Bool} {s t : List Char} (hs : ∀ c ∈ s, p c = true)
    (ht : ∀ c ∈ t.head?, p c = false) : (s ++ t).dropWhile p = t := by
  rw [List.dropWhile_append_of_pos hs]
  cases t with
  | nil => rfl
  | cons c r => rw [List.dropWhile_cons_of_neg (by simp [ht c rfl])]

/-- A text that has a character of a name at both ends. -/
structure IsTight (s : List Char) : Prop where
  head : ∃ c ∈ s.head?, isNameChar c = true
  last : ∃ c ∈ s.getLast?, isNameChar c = true

theorem isTight_of_isName {n : List Char} (hn : isName n = true) : IsTight n := by
  have hne : n ≠ [] := by
    rintro rfl
    cases hn
  exact ⟨⟨n.head hne, List.head_mem_head? hne, isNameChar_of_mem hn (List.head_mem hne)⟩,
    ⟨n.getLast hne, List.getLast_mem_getLast? hne, isNameChar_of_mem hn (List.getLast_mem hne)⟩⟩

theorem IsTight.append {s t : List Char} (hs : IsTight s) (r : List Char) (ht : IsTight t) :
    IsTight (s ++ (r ++ t)) := by
  obtain ⟨c, hc, hname⟩ := hs.head
  obtain ⟨d, hd, hname'⟩ := ht.last
  refine ⟨⟨c, ?_, hname⟩, ⟨d, ?_, hname'⟩⟩
  · rw [List.head?_append, Option.mem_def.1 hc]
    rfl
  · rw [← List.append_assoc, List.getLast?_append, Option.mem_def.1 hd]
    rfl

theorem IsTight.trim {before s after : List Char} (hs : IsTight s)
    (hbefore : ∀ c ∈ before, isBlank c = true) (hafter : ∀ c ∈ after, isBlank c = true) :
    trim (before ++ (s ++ after)) = s := by
  obtain ⟨c, hc, hname⟩ := hs.head
  obtain ⟨d, hd, hname'⟩ := hs.last
  have hfront : (before ++ (s ++ after)).dropWhile isBlank = s ++ after := by
    refine dropWhile_append_stop hbefore ?_
    rw [List.head?_append, Option.mem_def.1 hc]
    rintro _ ⟨⟩
    exact isBlank_of_isNameChar hname
  have hback : (s ++ after).reverse.dropWhile isBlank = s.reverse := by
    rw [List.reverse_append]
    refine dropWhile_append_stop (fun c hc => hafter c (List.mem_reverse.1 hc)) ?_
    rw [List.head?_reverse, Option.mem_def.1 hd]
    rintro _ ⟨⟩
    exact isBlank_of_isNameChar hname'
  rw [Text.trim, hfront, hback, List.reverse_reverse]

/-- The text `u` spells the path `p`. -/
inductive SpellsPath : List Char → List Char → Prop
  | name {n : List Char} (hn : isName n = true) : SpellsPath n n
  | linked {n u p : List Char} (hn : isName n = true) (link : Expression.Link)
    (h : SpellsPath u p) : SpellsPath (n ++ (link.text.toList ++ u)) (n ++ '.' :: p)

namespace SpellsPath

variable {u p r : List Char}

theorem isPath (h : SpellsPath u p) : IsPath p := by
  induction h with
  | name hn => exact .name hn
  | linked hn _ _ ih => exact .qualified hn ih

theorem of_isPath (h : IsPath p) : SpellsPath p p := by
  induction h with
  | name hn => exact .name hn
  | qualified hn _ ih => exact .linked hn .point ih

theorem isTight (h : SpellsPath u p) : IsTight u := by
  induction h with
  | name hn => exact isTight_of_isName hn
  | linked hn _ _ ih => exact (isTight_of_isName hn).append _ ih

theorem lacks_arrow {s : List Char} (h : '-' ∉ s) : ¬ ['-', '>'] <:+: s :=
  fun harrow => h (harrow.subset (by simp))

theorem lacks_dash {n : List Char} (hn : isName n = true) : '-' ∉ n :=
  fun h => absurd (isNameChar_of_mem hn h) (by decide)

theorem arrowsToPoints_append (h : SpellsPath u p) (hr : '-' ∉ r) :
    arrowsToPoints (u ++ r) = p ++ r := by
  induction h with
  | name hn =>
    refine arrowsToPoints_eq_self (lacks_arrow ?_)
    simpa using ⟨lacks_dash hn, hr⟩
  | @linked n u p hn link _ ih =>
    have hname := lacks_arrow (lacks_dash hn)
    rw [List.append_assoc, List.append_assoc, List.append_assoc]
    cases link with
    | arrow =>
      rw [FilterSql.arrowsToPoints_append hname (by simp [Expression.Link.text])]
      change n ++ '.' :: arrowsToPoints (u ++ r) = _
      rw [ih]
      rfl
    | point =>
      rw [FilterSql.arrowsToPoints_append hname (by simp [Expression.Link.text])]
      change n ++ arrowsToPoints ('.' :: (u ++ r)) = _
      rw [arrowsToPoints, ih]
      · rfl
      · rintro t ⟨⟩

end SpellsPath

theorem takePath?_append {p r : List Char} (hp : IsPath p) (hr : continuesPath r = false) :
    takePath? (p ++ r) = some (p, r) := by
  obtain ⟨c, s, rfl, hc, hs⟩ := pathTail_path hp r
  rw [List.cons_append, takePath?, if_pos hc, hs, pathTail_of_not_continues hr, List.append_nil]

namespace Projection

variable {u p a before gap word gap' after : List Char}

theorem not_isGap_of_isNameChar {c : Char} (h : isNameChar c = true) : isGap c = false := by
  have hne (d : Char) (hd : isNameChar d = false) : (c == d) = false :=
    beq_eq_false_iff_ne.2 (ne_of_true_of_false h hd)
  rw [isGap, hne ' ' (by decide), hne '\t' (by decide), hne '\r' (by decide),
    hne '\n' (by decide)]
  rfl

/-- One blank or several of those that may stand around `as`. -/
def IsGap (gap : List Char) : Prop := gap ≠ [] ∧ ∀ c ∈ gap, isGap c = true

theorem IsGap.blank : IsGap [' '] := ⟨List.cons_ne_nil _ _, List.forall_mem_singleton.2 rfl⟩

theorem IsGap.cons (h : IsGap gap) : ∃ c s, gap = c :: s ∧ isGap c = true ∧
    ∀ d ∈ s, isGap d = true := by
  obtain ⟨c, s, rfl⟩ := List.exists_cons_of_ne_nil h.1
  exact ⟨c, s, rfl, List.forall_mem_cons.1 h.2⟩

theorem IsGap.dropGap? (h : IsGap gap) {s : List Char} (hs : IsTight s) :
    dropGap? (gap ++ s) = some s := by
  obtain ⟨c, t, rfl, hc, ht⟩ := h.cons
  obtain ⟨d, hd, hname⟩ := hs.head
  rw [List.cons_append, Projection.dropGap?, if_pos hc, dropWhile_append_stop ht]
  rw [Option.mem_def.1 hd]
  rintro _ ⟨⟩
  exact not_isGap_of_isNameChar hname

def IsAliasWord (word : List Char) : Prop := word = ['a', 's'] ∨ word = ['A', 'S']

theorem IsAliasWord.isName (h : IsAliasWord word) : isName word = true := by
  rcases h with rfl | rfl <;> decide

theorem readAlias?_spaced (hgap : IsGap gap) (hword : IsAliasWord word) (hgap' : IsGap gap')
    (ha : isName a = true) : readAlias? (gap ++ (word ++ (gap' ++ a))) = some (some a) := by
  have hname := isTight_of_isName ha
  have hread := takeName?_append ha .nil
  rw [List.append_nil] at hread
  have hempty : (gap ++ (word ++ (gap' ++ a))).isEmpty = false := by
    obtain ⟨c, s, rfl, -⟩ := hgap.cons
    rfl
  rw [readAlias?, hempty, if_neg (by simp),
    hgap.dropGap? ((isTight_of_isName hword.isName).append gap' hname)]
  rcases hword with rfl | rfl
  all_goals
    change (dropGap? (gap' ++ a)).bind _ = _
    rw [hgap'.dropGap? hname, Option.bind_some]
    beta_reduce
    rw [hread]

theorem continuesPath_gap (hgap : IsGap gap) (s : List Char) :
    continuesPath (gap ++ s) = false := by
  obtain ⟨c, t, rfl, hc, -⟩ := hgap.cons
  rw [List.cons_append, continuesPath]
  · refine Bool.eq_false_iff.2 fun hname => ?_
    rw [not_isGap_of_isNameChar hname] at hc
    cases hc
  · exact fun _ _ hd => absurd hd (ne_of_true_of_false hc (by decide))

theorem parse_eq_ok {s : String} {t : String} (h : ofChars? s.toList = some t) :
    parse s = .ok t := by
  rw [parse, h]

theorem parse_path (hu : SpellsPath u p) (hbefore : ∀ c ∈ before, isBlank c = true)
    (hafter : ∀ c ∈ after, isBlank c = true) :
    parse (String.ofList (before ++ (u ++ after))) = .ok (String.ofList p) := by
  have harrows := hu.arrowsToPoints_append (r := []) (by simp)
  have hpath := takePath?_append hu.isPath (r := []) rfl
  rw [List.append_nil, List.append_nil] at harrows
  rw [List.append_nil] at hpath
  refine parse_eq_ok ?_
  rw [String.toList_ofList, ofChars?, hu.isTight.trim hbefore hafter, harrows, hpath]
  simp [readAlias?]

theorem parse_aliased (hu : SpellsPath u p) (hbefore : ∀ c ∈ before, isBlank c = true)
    (hgap : IsGap gap) (hword : IsAliasWord word) (hgap' : IsGap gap') (ha : isName a = true)
    (hafter : ∀ c ∈ after, isBlank c = true) :
    parse (String.ofList (before ++ (u ++ (gap ++ (word ++ (gap' ++ a))) ++ after))) =
      .ok (String.ofList p ++ " AS " ++ String.ofList a) := by
  have hdash {g : List Char} (hg : IsGap g) : '-' ∉ g :=
    fun h => ne_of_true_of_false (hg.2 _ h) (b := '-') (by decide) rfl
  have hrest : '-' ∉ gap ++ (word ++ (gap' ++ a)) := by
    simp only [List.mem_append, not_or]
    exact ⟨hdash hgap, SpellsPath.lacks_dash hword.isName, hdash hgap',
      SpellsPath.lacks_dash ha⟩
  have htight : IsTight (u ++ (gap ++ (word ++ (gap' ++ a)))) := by
    have h := hu.isTight.append (gap ++ (word ++ gap')) (isTight_of_isName ha)
    simpa only [List.append_assoc] using h
  refine parse_eq_ok ?_
  rw [String.toList_ofList, ofChars?, htight.trim hbefore hafter, hu.arrowsToPoints_append hrest,
    takePath?_append hu.isPath (continuesPath_gap hgap _)]
  simp [readAlias?_spaced hgap hword hgap' ha, String.append_assoc]

theorem parse_sql {x : Expression} (hx : x.IsLexical) (hf : x.function = none) :
    parse x.sql = .ok x.sql := by
  have hpath := SpellsPath.of_isPath hx.reference
  have hblank : ∀ c ∈ ([] : List Char), isBlank c = true := nofun
  have hgap : IsGap [' '] := .blank
  rw [Expression.sql_eq, hf, Expression.aliasClause]
  cases ha : x.aliasName with
  | none =>
    have hread := parse_path hpath hblank hblank
    simpa using hread
  | some a =>
    have hread := parse_aliased hpath hblank hgap (.inr rfl) hgap (hx.aliasName a ha) hblank
    have htext : String.ofList ([] ++ (x.reference.toList ++
        ([' '] ++ (['A', 'S'] ++ ([' '] ++ a.toList))) ++ [])) = x.reference ++ (" AS " ++ a) := by
      rw [← String.toList_inj]
      simp
    rw [htext] at hread
    simpa [String.append_assoc] using hread

/-- An accepted text becomes a path, with or without an alias. -/
theorem exists_path_of_parse {s t : String} (h : parse s = .ok t) :
    ∃ path : String, IsPath path.toList ∧
      (t = path ∨ ∃ a : String, isName a.toList = true ∧ t = path ++ " AS " ++ a) := by
  obtain ⟨x, hx, hf, rfl⟩ := exists_sql_of_parse h
  refine ⟨x.reference, hx.reference, ?_⟩
  rw [Expression.sql_eq, hf, Expression.aliasClause]
  cases ha : x.aliasName with
  | none => exact Or.inl (String.append_empty ..)
  | some a => exact Or.inr ⟨a, hx.aliasName a ha, (String.append_assoc ..).symm⟩

section

variable {E p a : String} (hE : isName E.toList = true) (hp : isName p.toList = true)
  (ha : isName a.toList = true)
include hE hp ha

theorem parse_linked (link : Expression.Link) {before gap word gap' after : String}
    (hbefore : ∀ c ∈ before.toList, isBlank c = true) (hgap : IsGap gap.toList)
    (hword : IsAliasWord word.toList) (hgap' : IsGap gap'.toList)
    (hafter : ∀ c ∈ after.toList, isBlank c = true) :
    parse (before ++ E ++ link.text ++ p ++ gap ++ word ++ gap' ++ a ++ after) =
      .ok (E ++ "." ++ p ++ " AS " ++ a) := by
  have hread := parse_aliased (.linked hE link (.name hp)) hbefore hgap hword hgap' ha hafter
  have htext : String.ofList (before.toList ++ (E.toList ++ (link.text.toList ++ p.toList) ++
      (gap.toList ++ (word.toList ++ (gap'.toList ++ a.toList))) ++ after.toList)) =
      before ++ E ++ link.text ++ p ++ gap ++ word ++ gap' ++ a ++ after := by
    rw [← String.toList_inj]
    simp
  have hpath : String.ofList (E.toList ++ '.' :: p.toList) = E ++ "." ++ p := by
    rw [← String.toList_inj]
    simp
  rw [htext, hpath, String.ofList_toList] at hread
  exact hread

theorem isNamed_aliased : (⟨none, some E, p, some a⟩ : Expression).IsNamed :=
  ⟨nofun, fun _ he => Option.some.inj he ▸ hE, hp, fun _ hb => Option.some.inj hb ▸ ha⟩

theorem project_spellings (c : Criteria) :
    c.select (E ++ "." ++ p ++ " as " ++ a) = c.project (E ++ "." ++ p ++ " AS " ++ a) ∧
    c.select (E ++ "->" ++ p ++ " AS " ++ a) = c.project (E ++ "." ++ p ++ " AS " ++ a) ∧
    c.selectExpression (E ++ "->" ++ p ++ ".as." ++ a) =
      c.project (E ++ "." ++ p ++ " AS " ++ a) ∧
    c.selectExpression (E ++ "->" ++ p ++ ":" ++ a) =
      c.project (E ++ "." ++ p ++ " AS " ++ a) := by
  have hselect (link : Expression.Link) (word : String) (hword : IsAliasWord word.toList) :
      c.select (E ++ link.text ++ p ++ (" " ++ word ++ " ") ++ a) =
        c.project (E ++ "." ++ p ++ " AS " ++ a) := by
    have hgap : IsGap " ".toList := .blank
    have hblank : ∀ c ∈ "".toList, isBlank c = true := nofun
    have hread := parse_linked hE hp ha link hblank hgap hword hgap hblank
    simp only [String.empty_append, String.append_empty, String.append_assoc] at hread
    simp only [Criteria.select, String.append_assoc, hread]
    rfl
  have hexpression (mark : Expression.AliasMark) :
      c.selectExpression (E ++ "->" ++ p ++ mark.text ++ a) =
        c.project (E ++ "." ++ p ++ " AS " ++ a) := by
    let x : Expression := ⟨none, some E, p, some a⟩
    have hspelling : x.spelling .arrow mark = E ++ "->" ++ p ++ mark.text ++ a :=
      (String.append_assoc ..).symm
    have hsql : x.sql = E ++ "." ++ p ++ " AS " ++ a := (String.append_assoc ..).symm
    have hread : Expression.parse (x.spelling .arrow mark) = .ok x := by
      refine Expression.parse_spelling (isNamed_aliased hE hp ha) fun hhidden => ?_
      cases hhidden.link
    rw [← hspelling, ← hsql, Criteria.selectExpression, hread]
    rfl
  exact ⟨hselect .point "as" (.inl rfl), hselect .arrow "AS" (.inr rfl), hexpression .dotted,
    hexpression .colon⟩

end

/-- Reading a projection gives a path with or without an alias, which is its own normal form, as is
the text of every accepted expression without a function. Neither the link of a reference nor the
blanks around it and around `as` nor the case of `as` make a difference, and neither does the way in
which the projection is added. -/
theorem parse_normalForm :
    (∀ s t, parse s = .ok t →
      (∃ path : String, IsPath path.toList ∧
        (t = path ∨ ∃ a : String, isName a.toList = true ∧ t = path ++ " AS " ++ a)) ∧
      parse t = .ok t) ∧
    (∀ s x, Expression.parse s = .ok x → x.function = none → parse x.sql = .ok x.sql) ∧
    ∀ E p a : String, isName E.toList = true → isName p.toList = true → isName a.toList = true →
      (∀ (link : Expression.Link) (before gap word gap' after : String),
        (∀ c ∈ before.toList, isBlank c = true) → IsGap gap.toList → IsAliasWord word.toList →
        IsGap gap'.toList → (∀ c ∈ after.toList, isBlank c = true) →
        parse (before ++ E ++ link.text ++ p ++ gap ++ word ++ gap' ++ a ++ after) =
          .ok (E ++ "." ++ p ++ " AS " ++ a)) ∧
      ∀ c : Criteria,
        c.select (E ++ "." ++ p ++ " as " ++ a) = c.project (E ++ "." ++ p ++ " AS " ++ a) ∧
        c.select (E ++ "->" ++ p ++ " AS " ++ a) = c.project (E ++ "." ++ p ++ " AS " ++ a) ∧
        c.selectExpression (E ++ "->" ++ p ++ ".as." ++ a) =
          c.project (E ++ "." ++ p ++ " AS " ++ a) ∧
        c.selectExpression (E ++ "->" ++ p ++ ":" ++ a) =
          c.project (E ++ "." ++ p ++ " AS " ++ a) := by
  refine ⟨fun s t h => ⟨exists_path_of_parse h, ?_⟩,
    fun s x h hf => parse_sql (Expression.isLexical_of_parse h) hf, fun E p a hE hp ha =>
      ⟨fun link _ _ _ _ _ hbefore hgap hword hgap' hafter =>
        parse_linked hE hp ha link hbefore hgap hword hgap' hafter, project_spellings hE hp ha⟩⟩
  obtain ⟨x, hx, hf, rfl⟩ := exists_sql_of_parse h
  exact parse_sql hx hf

end Projection
end FilterSql
