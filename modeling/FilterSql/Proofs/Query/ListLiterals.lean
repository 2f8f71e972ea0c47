import FilterSql.Proofs.Query.Lists
import FilterSql.Proofs.Query.SharedTail
/-!
# Literals of statements

The literals of a statement are the values of the lists that are written in quotes, in the order in
which the lists stand in the forest. All three statements have the same ones, unless one of them
holds the tag: filling in the select list goes into literals as well.
-/
namespace FilterSql

open Sql Text Node

namespace Node

def quotedValues : Node → List Value
  | list _ vs => if vs.head?.any Value.isNumeric then [] else vs
  | scalar .. | range .. | group .. | marker _ => []

/-- The literals of a forest, from left to right. -/
def quotedTokens (ns : List Node) : List Token :=
  (subnodesList ns).flatMap fun n => n.quotedValues.map Value.literalToken

theorem quotedTokens_cons (n : Node) (ns : List Node) :
    quotedTokens (n :: ns) = quotedTokens [n] ++ quotedTokens ns := by
  rw [quotedTokens, quotedTokens, quotedTokens, subnodesList, subnodesList, subnodesList,
    List.append_nil, List.flatMap_append]

theorem quotedTokens_eq (ns : List Node) :
    quotedTokens ns = ns.flatMap fun n => quotedTokens [n] := by
  induction ns with
  | nil => rfl
  | cons n ns ih => rw [quotedTokens_cons, ih, List.flatMap_cons]

theorem quotedTokens_group (l : Label) (ns : List Node) :
    quotedTokens [group l ns] = quotedTokens ns := by
  rw [quotedTokens, subnodesList, subnodesList, List.append_nil, subnodes]
  rfl

theorem quotedTokens_of_not_renders {n : Node} (h : n.renders = false) : quotedTokens [n] = [] := by
  induction n using inductionOn with
  | scalar l v => cases h
  | range l a b => cases h
  | list l vs =>
    obtain rfl : vs = [] := by simpa [renders] using h
    rfl
  | group l ns ih =>
    rw [renders, anyRenders_eq, List.any_eq_false] at h
    rw [quotedTokens_group, quotedTokens_eq, List.flatMap_eq_nil_iff]
    exact fun n hn => ih n hn (by simpa using h n hn)
  | marker l => rfl

theorem quotedTokens_filter_renders (ns : List Node) :
    quotedTokens (ns.filter renders) = quotedTokens ns := by
  rw [quotedTokens_eq, quotedTokens_eq ns]
  exact flatMap_filter_renders (fun _ => quotedTokens_of_not_renders) ns

end Node

variable {f : String → Option String}

theorem Value.filter_listTokens (vs : List Value) :
    (listTokens vs).filter (·.kind == .literal) = vs.map literalToken := by
  rw [listTokens]
  induction vs with
  | nil => rfl
  | cons v vs ih =>
    cases vs with
    | nil => rfl
    | cons w vs => exact congrArg (v.literalToken :: ·) ih

theorem shows_listLiterals (hf : Yields (Lacks isQuote) f) {l : Label} {vs : List Value}
    (h : Value.IsUniform vs) : Shows f (quotedTokens [list l vs]) (listLiterals vs ++ ")") := by
  have htokens : quotedTokens [list l vs] =
      (if vs.head?.any Value.isNumeric then [] else vs).map Value.literalToken := by
    simp [quotedTokens, subnodesList, subnodes, quotedValues]
  have hbare (hs : Lacks isQuote (listLiterals vs).toList) : Shows f [] (listLiterals vs ++ ")") :=
    .of_lacks hf (by rw [String.toList_append]; exact hs.append (by decide))
  rw [htokens]
  cases hq : vs.head?.any Value.isNumeric with
  | true =>
    rcases h with h | h
    · exact hbare ((Value.lacks_listLiterals h hq).mono fun _ => isMark_of_isQuote)
    · rw [hq] at h
      cases h
  | false =>
    cases vs with
    | nil => exact hbare (by decide)
    | cons v vs =>
      intro r
      have hclose : resolveFrom f false (')' :: r) = [')'] ++ resolveFrom f false r :=
        resolveFrom_plain (p := [')']) (by decide) r
      have hsplit : (listLiterals (v :: vs) ++ ")").toList ++ r =
          (listLiterals (v :: vs)).toList ++ ')' :: r := by
        rw [String.toList_append, List.append_assoc]
        rfl
      rw [hsplit, Value.resolveFrom_listLiterals hq (by simp) false (by simp), hclose, literals,
        Value.tokens_listLiterals hq (by simp) (by simp), List.filter_append,
        Value.filter_listTokens]
      exact congrArg (_ ++ ·) (literals_append (by decide) _)

theorem shows_joinClauses (hf : Yields (Lacks isQuote) f) {ns : List Node}
    (h : ∀ n ∈ ns, Shows f (quotedTokens [n]) n.sql) :
    Shows f (quotedTokens ns) (joinClauses (clauses ns)) := by
  have hfollowing (ms : List Node) (hms : ∀ m ∈ ms, Shows f (quotedTokens [m]) m.sql) :
      Shows f (quotedTokens ms)
        (String.join ((ms.map clause).map fun d => " " ++ d.1.sql ++ " " ++ d.2)) := by
    induction ms with
    | nil => exact .of_lacks hf (by decide)
    | cons m ms ih =>
      rw [List.forall_mem_cons] at hms
      have hconjunction : Shows f [] (" " ++ m.conjunction.sql ++ " ") :=
        .of_lacks hf (by cases m.conjunction <;> decide)
      rw [quotedTokens_cons, List.map_cons, List.map_cons, String.join_cons]
      exact (hconjunction.append hms.1).append (ih hms.2)
  rw [← quotedTokens_filter_renders, clauses_eq]
  have hwritten : ∀ n ∈ ns.filter renders, Shows f (quotedTokens [n]) n.sql :=
    fun n hn => h n (List.mem_filter.1 hn).1
  cases hns : ns.filter renders with
  | nil => exact .of_lacks hf (by decide)
  | cons n ms =>
    rw [hns, List.forall_mem_cons] at hwritten
    rw [quotedTokens_cons, List.map_cons, joinClauses]
    exact hwritten.1.append (hfollowing ms hwritten.2)

theorem shows_sql (hf : Yields (Lacks isQuote) f) {n : Node} (h : n.Quotable) :
    Shows f (quotedTokens [n]) n.sql := by
  have hfront {m : Node} (hm : m.Quotable) {s : String} (hs : Lacks isQuote s.toList) :
      Lacks isQuote (m.key ++ " " ++ m.predicate.sql ++ s).toList := by
    have hpredicate : Lacks isQuote m.predicate.sql.toList := by cases m.predicate <;> decide
    simp only [String.toList_append]
    exact (((hm.keys m (mem_subnodes_self m)).append (by decide)).append hpredicate).append hs
  induction n using inductionOn with
  | scalar l v => exact .of_lacks hf (hfront h (s := " ?") (by decide))
  | range l a b => exact .of_lacks hf (hfront h (s := " ? AND ?") (by decide))
  | list l vs =>
    have hopen : Shows f [] (l.key ++ " " ++ l.predicate.sql ++ " (") :=
      .of_lacks hf (hfront h (by decide))
    rw [Node.sql, String.append_assoc]
    exact hopen.append (shows_listLiterals hf (h.lists l vs (mem_subnodes_self _)))
  | group l ns ih =>
    have hchildren := shows_joinClauses hf fun n hn => ih n hn (h.child hn)
    have hopen : Shows f [] "(" := .of_lacks hf (by decide)
    have hclose : Shows f [] ")" := .of_lacks hf (by decide)
    have hgroup := (hopen.append hchildren).append hclose
    rw [List.nil_append, List.append_nil] at hgroup
    rwa [quotedTokens_group, Node.sql]
  | marker l => exact .of_lacks hf (s := "") (by decide)

namespace Criteria

variable {c : Criteria} {provider : Provider} {q : Query}

theorem shows_tail (hf : Yields (Lacks isQuote) f) (hc : c.Unmarked isQuote)
    (hl : c.HasUniformLists) : Shows f (quotedTokens (conditions c.nodes)) c.tail := by
  have hfrom : Shows f [] c.fromClause := .of_lacks hf (hc.fromClause fun _ => isMark_of_isQuote)
  have horder : Shows f [] c.orderClause := .of_lacks hf (hc.orderClause fun _ => isMark_of_isQuote)
  have hclauses := shows_joinClauses hf fun n hn => shows_sql hf (quotable_of_mem hc hl n hn)
  have hwhere : Shows f (quotedTokens (conditions c.nodes)) (whereClause c.nodes) := by
    rw [whereClause]
    split
    next hempty =>
      rw [List.isEmpty_iff] at hempty
      rwa [hempty] at hclauses
    next =>
      have hword : Shows f [] " WHERE " := .of_lacks hf (by decide)
      exact hword.append hclauses
  have htail := (hfrom.append hwhere).append horder
  rwa [List.nil_append, List.append_nil] at htail

theorem Unmarked.untagged (hc : c.Unmarked isQuote) (hl : c.HasUniformLists)
    (htag : ∀ t ∈ quotedTokens (conditions c.nodes), ¬ projectionTag.toList <:+: t.chars) :
    c.Untagged := by
  have hname {s : List Char} (hs : Lacks isQuote s) : ¬ projectionTag.toList <:+: s :=
    not_infix_tag fun hd => absurd (hs '$' hd) (by decide)
  refine ⟨fun m hm _ => hname (hc.keys m (mem_subnodesList_of_conditions hm)), ?_,
    fun o ho => hname (hc.orderBy o ho), ?_⟩
  · intro l vs hvs v hv
    cases hq : vs.head?.any Value.isNumeric with
    | false =>
      have hmem : v.literalToken ∈ quotedTokens (conditions c.nodes) := by
        refine List.mem_flatMap.2 ⟨list l vs, hvs, ?_⟩
        rw [quotedValues, hq]
        exact List.mem_map_of_mem hv
      simpa only [Value.literalToken, Bool.not_false] using htag _ hmem
    | true =>
      rcases hl l vs (mem_subnodesList_of_conditions hvs) with h | h
      · exact hname ((Value.lacks_display (h v hv)).mono fun _ => isMark_of_isQuote)
      · rw [hq] at h
        cases h
  · cases hs : c.source with
    | none => exact hname hc.table
    | some s => exact hname (hc.source s hs)

/-- The literals of the template are the values of the lists in quotes, and unless one of them holds
the tag, those of the data query and of the count are the same. -/
theorem literals_compile (hc : c.Unmarked isQuote)
    (hprovider : provider.NamesSatisfy (Lacks isQuote)) (hl : c.HasUniformLists)
    (h : c.compile provider = .ok q) :
    literals q.template.toList = quotedTokens (conditions c.nodes) ∧
      ((∀ t ∈ quotedTokens (conditions c.nodes), ¬ projectionTag.toList <:+: t.chars) →
        literals q.data.toList = quotedTokens (conditions c.nodes) ∧
        (groupingKey? c.nodes = none →
          literals q.count.toList = quotedTokens (conditions c.nodes))) := by
  obtain ⟨⟨rewrite, names⟩, hx, hdata, htemplate, -, hcount⟩ := compile_eq_ok h
  obtain ⟨f, hf, rfl⟩ := exists_yields hprovider (isPathLike_lacks fun _ => isMark_of_isQuote) hx
  have htail := shows_tail hf hc hl
  refine ⟨?_, fun htag => ?_⟩
  · have hselect : Lacks isQuote (replaced f "SELECT".toList ++ [' ']) :=
      (lacks_replaced_select hf fun _ => isMark_of_isQuote).append (by decide)
    have hword := literals_of_lacks hselect
    rw [literals] at hword
    rw [htemplate, template, literals, tokens_resolve_template hf, List.filter_append, hword,
      List.nil_append, List.filter_cons_of_neg (by decide), ← htail.literals_resolve,
      toList_resolve, literals]
  · have hstatement {s : String} (hs : Lacks isQuote s.toList) :
        literals (resolve f (fillTemplate c.template s)).toList =
          quotedTokens (conditions c.nodes) := by
      have hselect : Shows f [] ("SELECT " ++ s) :=
        .of_lacks hf (by rw [String.toList_append]; exact Lacks.append (by decide) hs)
      rw [(hc.untagged hl htag).fillTemplate_eq]
      exact (hselect.append htail).literals_resolve
    refine ⟨?_, fun hkey => ?_⟩
    · rw [hdata]
      exact hstatement (hc.selectList fun _ => isMark_of_isQuote)
    · rw [hkey] at hcount
      rw [hcount]
      exact hstatement (by decide)

end Criteria

theorem literals_quotedItems :
    ∃ q, quotedItems.compile (Registry.ofList [itemEntity]).resolve = .ok q ∧
      literals q.data.toList = [Value.text "it's (?)", .int 2].map Value.literalToken := by
  have htag : ∀ t ∈ quotedTokens (conditions quotedItems.nodes),
      ¬ projectionTag.toList <:+: t.chars := by decide +kernel
  obtain ⟨q, hq⟩ : ∃ q, quotedItems.compile (Registry.ofList [itemEntity]).resolve = .ok q :=
    ⟨_, rfl⟩
  obtain ⟨-, hliterals⟩ := Criteria.literals_compile quotedItems_unmarked itemRegistry_unmarked
    quotedItems_lists hq
  exact ⟨q, hq, (hliterals htag).1⟩

/-- Filling in the select list goes into a literal that holds the tag: the data query and the count
are about other items than the template. -/
theorem not_literals_tagItems :
    ∃ q, (itemsAmong "id" [.text projectionTag]).compile
        (Registry.ofList [itemEntity]).resolve = .ok q ∧
      literals q.template.toList = [Value.literalToken (.text projectionTag)] ∧
      literals q.data.toList = [Value.literalToken (.text "*")] ∧
      literals q.count.toList = [Value.literalToken (.text "COUNT(*) count")] := by
  have hliterals : ((itemsAmong "id" [.text projectionTag]).compile
      (Registry.ofList [itemEntity]).resolve).toOption.map
        (fun q => (literals q.template.toList, literals q.data.toList, literals q.count.toList)) =
      some ([Value.literalToken (.text projectionTag)], [Value.literalToken (.text "*")],
        [Value.literalToken (.text "COUNT(*) count")]) := by decide +kernel
  cases hq : (itemsAmong "id" [.text projectionTag]).compile
      (Registry.ofList [itemEntity]).resolve with
  | error x => rw [hq] at hliterals; cases hliterals
  | ok q =>
    rw [hq] at hliterals
    obtain ⟨htemplate, hrest⟩ := Prod.mk.inj (Option.some.inj hliterals)
    obtain ⟨hdata, hcount⟩ := Prod.mk.inj hrest
    exact ⟨q, rfl, htemplate, hdata, hcount⟩

end FilterSql
