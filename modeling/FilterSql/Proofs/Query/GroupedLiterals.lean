import FilterSql.Proofs.Query.GroupedCount
import FilterSql.Proofs.Query.ListLiterals
import FilterSql.Proofs.Query.Words
import FilterSql.Proofs.Text.Squeezing
/-!
# Literals of grouped counts

A grouped count goes through the data query by words. Its blanks are collapsed in literals as well,
so every literal is there in its place, but with its runs of blanks as single blanks. Aliases are
renamed in front of `FROM` only, where no literal stands.
-/
namespace FilterSql

open Sql Text Node

namespace Sql

theorem head?_squeeze {s : List Char} (h : (squeeze false s).head? = some '\'') :
    s.head? = some '\'' := by
  cases s with
  | nil => cases h
  | cons c s =>
    by_cases hc : isBlank c = true
    · rw [squeeze_blank hc] at h
      obtain ⟨hnil, -⟩ | ⟨t, ht⟩ := squeeze_true_cases s
      · rw [hnil] at h
        cases h
      · rw [ht] at h
        cases h
    · rw [squeeze_cons (by simpa using hc)] at h
      exact h

theorem literalTail?_pending (pending : Bool) (s : List Char) :
    literalTail? ((if pending then [' '] else []) ++ s) =
      (literalTail? s).map fun x => ((if pending then [' '] else []) ++ x.1, x.2) := by
  cases pending with
  | false => simp
  | true => exact literalTail?_char s (by decide)

theorem literalTail?_squeeze {s : List Char} {x : List Char × List Char}
    (hx : literalTail? s = some x) (pending : Bool) :
    literalTail? (squeeze pending s) = some (squeeze pending x.1, squeeze false x.2) := by
  fun_induction literalTail? s generalizing x pending with
  | case1 s ih =>
    obtain ⟨y, hy, rfl⟩ := Option.map_eq_some_iff.1 hx
    rw [squeeze_cons (by decide), squeeze_cons (by decide), literalTail?_pending]
    simp only [Bool.false_eq_true, if_false, List.nil_append]
    rw [literalTail?_pair, ih hy, squeeze_cons (by decide), squeeze_cons (by decide)]
    rfl
  | case2 s hs =>
    obtain rfl := Option.some.inj hx
    have hhead : (squeeze false s).head? ≠ some '\'' := by
      intro h
      obtain ⟨t, rfl⟩ := List.head?_eq_some_iff.1 (head?_squeeze h)
      exact hs t rfl
    rw [squeeze_cons (by decide), literalTail?_pending, literalTail?_close hhead,
      squeeze_cons (by decide), squeeze_nil]
    rfl
  | case3 c s _ hc ih =>
    obtain ⟨y, hy, rfl⟩ := Option.map_eq_some_iff.1 hx
    by_cases hblank : isBlank c = true
    · rw [squeeze_blank hblank, squeeze_blank hblank]
      exact ih hy true
    · rw [squeeze_cons (by simpa using hblank), squeeze_cons (by simpa using hblank),
        literalTail?_pending, literalTail?_char _ hc, ih hy]
      rfl
  | case4 => cases hx

theorem literals_pending (pending : Bool) (s : List Char) :
    literals ((if pending then [' '] else []) ++ s) = literals s :=
  literals_append (by cases pending <;> decide) s

end Sql

namespace GroupedCount

theorem collapse_eq_tail (s : List Char) : collapse s = (squeeze true s).tail := by
  rw [collapse, squeeze_true]
  cases words s with
  | nil => rfl
  | cons w ws => exact unwords_cons w ws

theorem collapse_literal (s : List Char) : collapse ('\'' :: s) = '\'' :: squeeze false s := by
  rw [collapse_eq_tail, squeeze_cons (by decide)]
  rfl

end GroupedCount

/-- A token with its runs of blanks as single blanks. -/
def Sql.Token.collapsed (t : Token) : Token := { t with chars := GroupedCount.collapse t.chars }

namespace GroupedCount

theorem map_collapsed_eq_iff (ts : List Token) :
    ts.map Token.collapsed = ts ↔ ∀ t ∈ ts, collapse t.chars = t.chars := by
  have htoken (t : Token) : t.collapsed = t ↔ collapse t.chars = t.chars := by
    cases t
    simp [Token.collapsed]
  calc ts.map Token.collapsed = ts
      ↔ ts.map Token.collapsed = ts.map id := by rw [List.map_id]
    _ ↔ ∀ t ∈ ts, t.collapsed = t := List.map_eq_map_iff
    _ ↔ ∀ t ∈ ts, collapse t.chars = t.chars := forall₂_congr fun t _ => htoken t

theorem literals_squeeze {s : List Char} (h : Balanced s) (pending : Bool) :
    literals (squeeze pending s) = (literals s).map Token.collapsed := by
  induction h using Balanced.induction generalizing pending with
  | nil => simp
  | char c s _ hc _ ih =>
    rw [literals_char hc]
    by_cases hblank : isBlank c = true
    · rw [squeeze_blank hblank, ih]
    · rw [squeeze_cons (by simpa using hblank), literals_pending, literals_char hc, ih]
  | literal s x _ hx _ ih =>
    rw [squeeze_cons (by decide), literals_pending, literals_literal hx,
      literals_literal (literalTail?_squeeze hx false), ih, List.map_cons, Token.collapsed,
      collapse_literal]

/-- Collapsing a text collapses its literals one by one. -/
theorem literals_collapse {s : List Char} (h : Balanced s) :
    literals (collapse s) = (literals s).map Token.collapsed := by
  rw [← literals_squeeze h true, collapse_eq_tail]
  obtain ⟨hnil, -⟩ | ⟨t, ht⟩ := squeeze_true_cases s
  · rw [hnil]
    rfl
  · rw [ht]
    exact (literals_char (by decide) t).symm

theorem SameMarks.lacks {s t : List Char} (h : SameMarks s t) (ht : Lacks isQuote t) :
    Lacks isQuote s := by
  rw [← filter_eq_nil_iff_lacks, filter_isQuote_of_isMark h, filter_eq_nil_iff_lacks.2 ht]

theorem prefix_of_cutBefore {mark u v a b : List Char}
    (h : cutBefore mark (u ++ (mark ++ v)) = some (a, b)) : a <+: u := by
  induction u generalizing a b with
  | nil =>
    rw [List.nil_append, cutBefore_of_prefix (List.prefix_append _ _)] at h
    obtain ⟨rfl, -⟩ := Prod.mk.inj (Option.some.inj h)
    exact List.prefix_rfl
  | cons c u ih =>
    rw [List.cons_append, cutBefore] at h
    split at h
    · obtain ⟨rfl, -⟩ := Prod.mk.inj (Option.some.inj h)
      exact List.nil_prefix
    · obtain ⟨⟨a', b'⟩, h', he⟩ := Option.map_eq_some_iff.1 h
      obtain ⟨rfl, -⟩ := Prod.mk.inj he
      exact List.cons_prefix_cons.2 ⟨rfl, ih h'⟩

/-- The part that aliases are renamed in ends where the text is cut, in front of all literals. -/
theorem lacks_of_cutBefore {front t a b : List Char} (hfront : Lacks isQuote front)
    (hword : ∃ c ∈ front, isBlank c = false)
    (h : cutBefore " FROM ".toList (collapse (front ++ (" FROM ".toList ++ t))) = some (a, b)) :
    Lacks isQuote a := by
  have hsqueeze : squeeze true (front ++ (" FROM ".toList ++ t)) =
      squeeze true front ++ (" FROM".toList ++ squeeze true t) := by
    have hsplit : " FROM ".toList ++ t = ' ' :: ("FROM".toList ++ ' ' :: t) := rfl
    rw [hsplit, squeeze_append_blank (by decide), squeeze_append_blank (by decide)]
    rfl
  obtain ⟨-, ht⟩ | ⟨v, hv⟩ := squeeze_true_cases t
  -- with blanks alone behind it the word is at the end, and no literal is left in the text
  · have hblank : Lacks isQuote t := fun c hc =>
      (Bool.or_eq_false_iff.1 (not_isMark_of_isBlank (ht c hc))).1
    have hall : Lacks isQuote (collapse (front ++ (" FROM ".toList ++ t))) :=
      (sameMarks_collapse _).lacks (hfront.append (Lacks.append (by decide) hblank))
    exact fun c hc => hall c (cutBefore_append h ▸ List.mem_append_left b hc)
  · obtain ⟨-, hfrontBlank⟩ | ⟨u, hu⟩ := squeeze_true_cases front
    · obtain ⟨c, hc, hnot⟩ := hword
      rw [hfrontBlank c hc] at hnot
      cases hnot
    have hcollapse : collapse (front ++ (" FROM ".toList ++ t)) = u ++ (" FROM ".toList ++ v) := by
      rw [collapse_eq_tail, hsqueeze, hu, hv]
      rfl
    have hu' : collapse front = u := by rw [collapse_eq_tail, hu]; rfl
    rw [hcollapse] at h
    have hlacks : Lacks isQuote u := hu' ▸ (sameMarks_collapse front).lacks hfront
    exact fun c hc => hlacks c ((prefix_of_cutBefore h).subset hc)

theorem literals_inner {data front t : List Char} (hbalanced : Balanced data)
    (hdata : data = front ++ (" FROM ".toList ++ t)) (hfront : Lacks isQuote front)
    (hword : ∃ c ∈ front, isBlank c = false) :
    literals (inner data) = (literals data).map Token.collapsed := by
  rw [← literals_collapse hbalanced, inner]
  cases hcut : cutBefore " FROM ".toList (collapse data) with
  | none => rfl
  | some r =>
    have hcolumns : Lacks isQuote r.1 := lacks_of_cutBefore hfront hword (hdata ▸ hcut)
    have hrenamed := (sameMarks_renameAliases r.1).lacks hcolumns
    calc literals (renameAliases r.1 ++ r.2) = literals r.2 := literals_append hrenamed r.2
      _ = literals (r.1 ++ r.2) := (literals_append hcolumns r.2).symm
      _ = literals (collapse data) := by rw [cutBefore_append hcut]

/-- The literals of the count are those inside the derived table. -/
theorem literals_sql {data column : String} (hbalanced : Balanced data.toList)
    (hcolumn : Lacks isQuote column.toList) :
    literals (sql data column).toList = literals (inner data.toList) := by
  have hinner : Balanced (inner data.toList) :=
    hbalanced.congr (filter_isQuote_of_isMark (sameMarks_inner data.toList))
  have hname : Lacks isQuote
      ("SELECT COUNT(tc.".toList ++ lastName column.toList ++ ") count FROM (".toList) :=
    (Lacks.append (by decide) (lacks_lastName hcolumn)).append (by decide)
  have hclose : Lacks isQuote ") tc".toList := by decide
  have hsplit : (sql data column).toList =
      ("SELECT COUNT(tc.".toList ++ lastName column.toList ++ ") count FROM (".toList) ++
        (inner data.toList ++ ") tc".toList) := by
    have hlast : (String.ofList (lastName column.toList)).toList = lastName column.toList :=
      String.toList_ofList
    have htable : (String.ofList (inner data.toList)).toList = inner data.toList :=
      String.toList_ofList
    unfold GroupedCount.sql
    rw [String.toList_append, String.toList_append, String.toList_append, String.toList_append,
      hlast, htable, List.append_assoc]
  rw [hsplit, literals_append hname, literals_append_of_balanced hinner hclose]

end GroupedCount

namespace Criteria

variable {c : Criteria} {provider : Provider} {q : Query} {f : String → Option String}

theorem balanced_filled (hc : c.Unmarked isQuote) (hl : c.HasUniformLists) {selectList : String}
    (hs : Lacks isMark selectList.toList) :
    Balanced (fillTemplate c.template selectList).toList := by
  have htail : Balanced c.tail.toList := tally_tail isTally_balanced hc hl
  exact (wellQuoted_fillTemplate ⟨htail, rfl⟩ hs).toBalanced

theorem exists_front (hf : Yields (Lacks isQuote) f) (hfrom : f "FROM" = none) (c : Criteria) :
    ∃ front t, (resolve f (fillTemplate c.template "*")).toList = front ++ (" FROM ".toList ++ t) ∧
      Lacks isQuote front ∧ ∃ d ∈ front, isBlank d = false := by
  obtain ⟨t, ht⟩ := c.exists_tail_eq
  have hword : Unreplaced projectionTag.toList "*".toList " FROM " :=
    unreplaced_of_not_mem (by decide)
  have hfilled : (fillTemplate c.template "*").toList = "SELECT *".toList ++
      (" FROM ".toList ++ replace projectionTag.toList "*".toList t) := by
    rw [toList_fillTemplate, ht, hword]
    rfl
  have hselect : Lacks isQuote "SELECT *".toList := by decide
  refine ⟨resolveFrom f false "SELECT *".toList,
    resolveFrom f false (replace projectionTag.toList "*".toList t), ?_,
    lacks_resolveFrom hf hselect, '*', ?_, by decide⟩
  · rw [toList_resolve, hfilled, ← resolveFrom_from hfrom]
    exact resolveFrom_append_of_closesBefore (.of_lacks_quotes hselect _)
  · have hstar : "SELECT *".toList = "SELECT".toList ++ ' ' :: "*".toList := rfl
    rw [hstar, resolveFrom_append_of_closesBefore (.of_lacks_quotes (by decide) _)]
    refine List.mem_append_right _ ?_
    rw [← List.append_nil (' ' :: "*".toList), resolveFrom_plain (by decide)]
    exact List.mem_append_left _ (by decide)

theorem lacks_groupingKey (hc : c.Unmarked isQuote) {key : String}
    (hkey : groupingKey? c.nodes = some key) : Lacks isQuote key.toList := by
  rw [groupingKey?, Option.map_eq_some_iff] at hkey
  obtain ⟨n, hn, rfl⟩ := hkey
  have hmem := (List.mem_filter.1 (List.mem_of_getLast? hn)).1
  exact hc.keys n (mem_subnodesList hmem (mem_subnodes_self n))

/-- The grouped count has every literal of the data query in its place, but with its runs of blanks
as single blanks; so it asks for the same texts only if no literal has another blank in it. -/
theorem literals_count_grouped (hp : c.projections = none) (hc : c.Unmarked isQuote)
    (hprovider : provider.NamesSatisfy (Lacks isQuote)) (hl : c.HasUniformLists)
    (hfrom : ¬ c.RefersTo provider "FROM") {key : String} (hkey : groupingKey? c.nodes = some key)
    (h : c.compile provider = .ok q) :
    ∃ column, q.count = GroupedCount.sql q.data column ∧
      literals q.count.toList = literals (GroupedCount.inner q.data.toList) ∧
      literals (GroupedCount.inner q.data.toList) =
        (literals q.data.toList).map Token.collapsed ∧
      (literals (GroupedCount.inner q.data.toList) = literals q.data.toList ↔
        ∀ t ∈ literals q.data.toList, GroupedCount.collapse t.chars = t.chars) := by
  obtain ⟨x, hx, hdata, -, -, hcount⟩ := compile_eq_ok h
  obtain ⟨f, hf, hwords, hyields⟩ := exists_resolve_eq hx
  have hf' : Yields (Lacks isQuote) f :=
    hyields _ (isPathLike_lacks fun _ => isMark_of_isQuote) hprovider
  have hselect := selectList_eq_star hp
  rw [hf, hselect] at hdata
  have hbalanced : Balanced q.data.toList := by
    rw [hdata, toList_resolve]
    exact (balanced_filled hc hl (by decide)).congr
      (filter_resolveFrom hf' (fun _ => isMark_of_isQuote) _)
  obtain ⟨front, t, hfront, hlacks, hblank⟩ := exists_front hf' (hwords _ (by decide) hfrom) c
  have hinner := GroupedCount.literals_inner hbalanced (hdata ▸ hfront) hlacks hblank
  have hcolumn : Lacks isQuote (resolve f key).toList := by
    rw [toList_resolve]
    exact lacks_resolveFrom hf' (lacks_groupingKey hc hkey)
  rw [hkey, hf] at hcount
  refine ⟨resolve f key, hcount, ?_, hinner, ?_⟩
  · rw [hcount]
    exact GroupedCount.literals_sql hbalanced hcolumn
  · rw [hinner]
    exact GroupedCount.map_collapsed_eq_iff _

end Criteria

def groupedNames (e : Entity) (names : List Value) : Criteria :=
  ((Criteria.plain e).runAll [.step (.filter .and ⟨"name", .among false names⟩),
    .groupBy "name"]).1

def countedLiterals (e : Entity) (c : Criteria) : Option (List Token × List Token) :=
  (c.compile (Registry.ofList [e]).resolve).toOption.map fun q =>
    (literals q.data.toList, literals q.count.toList)

def blankNames : Criteria := groupedNames userEntity [.text "a\t b", .text "it's"]

theorem blankNames_nodes : blankNames.nodes =
    [.list ⟨.and, .among, "name"⟩ [.text "a\t b", .text "it's"], .groupingColumn "name"] := rfl

theorem blankNames_unmarked : blankNames.Unmarked isQuote := by
  refine ⟨?_, nofun, nofun, nofun, by decide⟩
  rw [blankNames_nodes]
  decide

theorem blankNames_lists : blankNames.HasUniformLists := by
  intro l vs h
  rw [blankNames_nodes] at h
  obtain ⟨-, rfl⟩ : l = ⟨.and, .among, "name"⟩ ∧ vs = [.text "a\t b", .text "it's"] := by
    simpa [subnodesList, subnodes, groupingColumn] using h
  exact Or.inr rfl

theorem literals_blankNames :
    ∃ q, blankNames.compile (Registry.ofList [userEntity]).resolve = .ok q ∧
      literals q.data.toList = [.text "a\t b", .text "it's"].map Value.literalToken ∧
      literals (GroupedCount.inner q.data.toList) =
        [.text "a b", .text "it's"].map Value.literalToken := by
  have hprovider : (Registry.ofList [userEntity]).resolve.NamesSatisfy (Lacks isQuote) :=
    Registry.namesSatisfy_singleton (.of_entries (by decide) (by decide))
  have hfrom : ¬ blankNames.RefersTo (Registry.ofList [userEntity]).resolve "FROM" := by
    rintro ⟨e, he, hname⟩
    obtain rfl := Except.ok.inj he
    exact absurd hname (by decide)
  obtain ⟨q, hq⟩ : ∃ q, blankNames.compile (Registry.ofList [userEntity]).resolve = .ok q :=
    ⟨_, rfl⟩
  obtain ⟨column, -, -, hinner, -⟩ := Criteria.literals_count_grouped rfl blankNames_unmarked
    hprovider blankNames_lists hfrom (rfl : groupingKey? blankNames.nodes = some "name") hq
  have hliterals : (countedLiterals userEntity blankNames).map Prod.fst =
      some ([.text "a\t b", .text "it's"].map Value.literalToken) := by decide +kernel
  rw [countedLiterals, hq] at hliterals
  have hdata : literals q.data.toList = [.text "a\t b", .text "it's"].map Value.literalToken :=
    Option.some.inj hliterals
  refine ⟨q, hq, hdata, ?_⟩
  rw [hinner, hdata]
  decide +kernel

/-- The count of a grouped query counts rows of another name than the data query asks for; and with
an entity of the name `FROM` it renames an alias inside a literal. -/
theorem not_literals_groupedNames :
    countedLiterals userEntity (groupedNames userEntity [.text "a  b"]) =
        some ([Value.literalToken (.text "a  b")], [Value.literalToken (.text "a b")]) ∧
      countedLiterals { userEntity with name := "FROM" }
          (groupedNames { userEntity with name := "FROM" } [.text "x count FROM y"]) =
        some ([Value.literalToken (.text "x count FROM y")],
          [Value.literalToken (.text "x _count FROM y")]) := by
  decide +kernel

end FilterSql
