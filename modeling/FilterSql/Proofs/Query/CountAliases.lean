import FilterSql.Proofs.Query.AliasWords
import FilterSql.Proofs.Query.Mentioned
import FilterSql.Proofs.Query.Names
import FilterSql.Proofs.Query.SharedTail
import FilterSql.Proofs.Query.Written
/-!
# Aliases in grouped counts

A grouped count renames the alias `count` in the select list that it counts over, and leaves columns
of this name alone. With paths for tables and columns every projection is still a column and an alias
after it is resolved, so the two are told apart rightly, unless an entity is taken for the word
`SELECT`: then the first column of all stands behind its table, as an alias would.
-/
namespace FilterSql

open Sql Text GroupedCount

theorem lacks_blank_of_isPath {p : List Char} (hp : IsPath p) : Lacks isBlank p := by
  intro c hc
  rcases hp.chars hc with h | rfl
  · exact isBlank_of_isNameChar h
  · rfl

theorem isUnbroken_of_isPath {p : List Char} (hp : IsPath p) : IsUnbroken p := by
  obtain ⟨c, s, rfl, -⟩ := ne_nil_of_isPath hp
  exact ⟨List.cons_ne_nil c s, lacks_blank_of_isPath hp⟩

theorem isSteady_of_isPath {p : List Char} (hp : IsPath p) : GroupedCount.IsSteady p where
  toIsUnbroken := isUnbroken_of_isPath hp
  comma := hp.not_mem (by decide)
  call := replace_of_not_infix fun h => hp.not_mem (c := ')') (by decide) (h.subset (by decide))

theorem isSteady_call {g p : List Char} (hg : IsPath g) (hp : IsPath p) :
    GroupedCount.IsSteady (g ++ '(' :: (p ++ [')'])) := by
  have hopen : Lacks isBlank ['('] := by decide
  have hshut : Lacks isBlank [')'] := by decide
  have hblank : Lacks isBlank (g ++ '(' :: (p ++ [')'])) :=
    (lacks_blank_of_isPath hg).append (hopen.append ((lacks_blank_of_isPath hp).append hshut))
  have hcomma : ',' ∉ g ++ '(' :: (p ++ [')']) := by
    simp [hg.not_mem (c := ',') (by decide), hp.not_mem (c := ',') (by decide)]
  have hclose : ')' ∉ g ++ '(' :: p := by
    simp [hg.not_mem (c := ')') (by decide), hp.not_mem (c := ')') (by decide)]
  have hcall : g ++ '(' :: (p ++ [')']) = (g ++ '(' :: p) ++ [')'] := by simp
  have hmark : ")count".toList = ')' :: "count".toList := rfl
  refine ⟨⟨by simp, hblank⟩, hcomma, ?_⟩
  rw [hcall, hmark, replace_append_of_head hclose]
  exact congrArg _ (by decide)

variable {f : String → Option String}

/-- In front of every text that does not go on with a path, `s` becomes the item, perhaps with an
alias awaited behind it. -/
structure ReadsItem (f : String → Option String) (s : String) (i : Item) : Prop where
  steady : i.IsSteady
  reads : ∃ b, ∀ r, continuesPath r = false →
    resolveFrom f false (s.toList ++ r) = i.chars ++ resolveFrom f b r

theorem ReadsItem.toList_resolve {s : String} {i : Item} (h : ReadsItem f s i) :
    (resolve f s).toList = i.chars := by
  obtain ⟨b, hb⟩ := h.reads
  have hs := hb [] rfl
  rwa [List.append_nil, resolveFrom_nil, List.append_nil, ← Sql.toList_resolve] at hs

theorem readsItem_star : ReadsItem f "*" { column := ['*'] } := by
  refine ⟨⟨⟨⟨by decide, by decide⟩, by decide, by decide⟩, nofun⟩, false, fun r _ => ?_⟩
  exact resolveFrom_plain (p := ['*']) (by decide) r

theorem exists_read_path (hf : Yields IsPath f) {p : List Char} (hp : IsPath p) (b : Bool) :
    ∃ q b', IsPath q ∧ ∀ r, continuesPath r = false →
      resolveFrom f b (p ++ r) = q ++ resolveFrom f b' r := by
  refine ⟨if b || isAsWord p then p else replaced f p, _, ?_, fun r hr => resolveFrom_path hp hr⟩
  split
  · exact hp
  · exact hf.replaced (fun _ h => h) hp

namespace Expression

variable {x : Expression}

theorem exists_read_label (hf : Yields IsPath f) (hx : x.IsLexical) (b : Bool) :
    ∃ (label : Option (List Char)) (b' : Bool), (∀ n, label = some n → IsPath n) ∧
      ∀ r, continuesPath r = false → resolveFrom f b (x.aliasClause.toList ++ r) =
        (label.map (" AS ".toList ++ ·)).getD [] ++ resolveFrom f b' r := by
  rw [aliasClause]
  cases ha : x.aliasName with
  | none =>
    refine ⟨none, b, fun n hn => ?_, fun r _ => rfl⟩
    cases hn
  | some a =>
    obtain ⟨n, b', hn, hread⟩ := exists_read_path hf (.name (hx.aliasName a ha)) (!b)
    refine ⟨some n, b', fun m hm => Option.some.inj hm ▸ hn, fun r hr => ?_⟩
    have htext : (" AS " ++ a).toList ++ r =
        [' '] ++ ("AS".toList ++ ([' '] ++ (a.toList ++ r))) := by simp
    have has : isAsWord "AS".toList = true := by decide
    have hblank : [' '].all isBlank = true := by decide
    -- the word `AS` stays, whether it is read as such or as an alias itself
    rw [htext, resolveFrom_plain (by decide), resolveFrom_path (.name (by decide)) rfl, has,
      Bool.or_true, if_pos rfl, resolveFrom_plain (by decide), hblank, Bool.and_true,
      Bool.and_true, Bool.and_true, hread r hr]
    simp

theorem exists_readsItem (hf : Yields IsPath f) (hx : x.IsLexical) : ∃ i, ReadsItem f x.sql i := by
  cases hfun : x.function with
  | none =>
    obtain ⟨p, b, hp, hread⟩ := exists_read_path hf hx.reference false
    obtain ⟨label, b', hlabel, hread'⟩ := exists_read_label hf hx b
    refine ⟨⟨p, label⟩, ⟨isSteady_of_isPath hp, fun n hn => isSteady_of_isPath (hlabel n hn)⟩, b',
      fun r hr => ?_⟩
    rw [sql_eq, hfun, String.toList_append, List.append_assoc,
      hread _ (continuesPath_aliasClause hr), hread' r hr, Item.chars_eq, List.append_assoc]
  | some g =>
    obtain ⟨g', b, hg, hread⟩ := exists_read_path hf (.name (hx.function g hfun)) false
    obtain ⟨p, b', hp, hread'⟩ := exists_read_path hf hx.reference false
    obtain ⟨label, b'', hlabel, hread''⟩ := exists_read_label hf hx false
    refine ⟨⟨g' ++ '(' :: (p ++ [')']), label⟩,
      ⟨isSteady_call hg hp, fun n hn => isSteady_of_isPath (hlabel n hn)⟩, b'', fun r hr => ?_⟩
    have htext : (g ++ "(" ++ x.reference ++ ")" ++ x.aliasClause).toList ++ r =
        g.toList ++ (['('] ++ (x.reference.toList ++ ([')'] ++ (x.aliasClause.toList ++ r)))) := by
      simp
    have hopen : ['('].all isBlank = false := by decide
    have hclose : [')'].all isBlank = false := by decide
    rw [sql_eq, hfun, htext, hread _ rfl, resolveFrom_plain (by decide), hopen, Bool.and_false,
      hread' _ rfl, resolveFrom_plain (by decide), hclose, Bool.and_false, hread'' r hr,
      Item.chars_eq]
    simp

end Expression

theorem IsProjection.exists_readsItem (hf : Yields IsPath f) {p : String} (h : IsProjection p) :
    ∃ i, ReadsItem f p i := by
  cases h with
  | path h =>
    obtain ⟨x, hx, -, rfl⟩ := Projection.exists_sql_of_parse h
    exact Expression.exists_readsItem hf hx
  | expression h => exact Expression.exists_readsItem hf (Expression.isLexical_of_parse h)

theorem exists_reads_items {ss : List String} {g : String → Item}
    (h : ∀ s ∈ ss, ReadsItem f s (g s)) :
    ∃ b, ∀ r, continuesPath r = false → resolveFrom f false ((", ".intercalate ss).toList ++ r) =
      unwords (listWords (ss.map g)) ++ resolveFrom f b r := by
  induction ss with
  | nil => exact ⟨false, fun r _ => by simp [listWords, unwords]⟩
  | cons s ss ih =>
    rw [List.forall_mem_cons] at h
    obtain ⟨b, hb⟩ := h.1.reads
    cases ss with
    | nil => exact ⟨b, fun r hr => by simpa [listWords, Item.chars] using hb r hr⟩
    | cons t ss =>
      obtain ⟨b', hb'⟩ := ih h.2
      refine ⟨b', fun r hr => ?_⟩
      have hcomma : ", ".toList.all isBlank = false := by decide
      rw [String.intercalate_cons_of_ne_nil (List.cons_ne_nil t ss), String.toList_append,
        String.toList_append, List.append_assoc, List.append_assoc, hb _ rfl,
        resolveFrom_plain (by decide), hcomma, Bool.and_false, hb' r hr]
      change _ = unwords (listWords (g s :: g t :: ss.map g)) ++ _
      rw [unwords_listWords_cons_cons, List.append_assoc, List.append_assoc, List.map_cons]

theorem toList_resolve_items {ss : List String} {g : String → Item}
    (h : ∀ s ∈ ss, ReadsItem f s (g s)) :
    (resolve f (", ".intercalate ss)).toList = unwords (listWords (ss.map g)) := by
  obtain ⟨b, hb⟩ := exists_reads_items h
  have hs := hb [] rfl
  rwa [List.append_nil, resolveFrom_nil, List.append_nil, ← toList_resolve] at hs

theorem Sql.Renamed.not_blank_iff {R : List Char → List Char → Prop}
    (hR : ∀ p q, IsPath p → R p q → IsPath q) {fresh : Bool} {s t : List Char}
    (h : Renamed R fresh s t) :
    (∃ c ∈ t, isBlank c = false) ↔ ∃ c ∈ s, isBlank c = false := by
  have hpath {p : List Char} (hp : IsPath p) (r : List Char) :
      ∃ c ∈ p ++ r, isBlank c = false := by
    obtain ⟨c, u, rfl, -⟩ := ne_nil_of_isPath hp
    exact ⟨c, List.mem_cons_self, lacks_blank_of_isPath hp c List.mem_cons_self⟩
  induction h with
  | nil => exact Iff.rfl
  | char _ c _ ih => simp only [List.exists_mem_cons_iff, ih]
  | path hp _ hq _ => exact iff_of_true (hpath (hR _ _ hp hq) _) (hpath hp _)

theorem not_blank_resolveFrom_iff (hf : Yields IsPath f) {b : Bool} {s : List Char} :
    (∃ c ∈ resolveFrom f b s, isBlank c = false) ↔ ∃ c ∈ s, isBlank c = false := by
  refine (renamed_resolveFrom f b s).not_blank_iff fun p q hp hq => ?_
  rcases hq with rfl | rfl
  · exact hp
  · exact hf.replaced (fun _ h => h) hp

theorem Text.Replaced.not_blank {old new s t : List Char} (h : Replaced old new s t)
    (hnew : ∃ c ∈ new, isBlank c = false) (hs : ∃ c ∈ s, isBlank c = false) :
    ∃ c ∈ t, isBlank c = false := by
  induction h with
  | nil => exact hs
  | keep c _ ih =>
    rw [List.exists_mem_cons_iff] at hs ⊢
    exact hs.imp_right ih
  | swap _ _ =>
    obtain ⟨c, hc, hblank⟩ := hnew
    exact ⟨c, List.mem_append_left _ hc, hblank⟩

theorem GroupedCount.exists_column (s : String) :
    ∃ column : String, String.ofList (lastName s.toList) = column ∧ '.' ∉ column.toList ∧
      (s = column ∨ ∃ path, s = path ++ "." ++ column) := by
  obtain ⟨hpoint, hlast⟩ := lastName_cases s.toList
  refine ⟨_, rfl, by rwa [String.toList_ofList], ?_⟩
  obtain hall | ⟨p, hp⟩ := hlast
  · left
    rw [hall, String.ofList_toList]
  · refine .inr ⟨String.ofList p, ?_⟩
    have hjoin : ".".toList = ['.'] := rfl
    rw [← String.toList_inj, String.toList_append, String.toList_append, hjoin,
      String.toList_ofList (l := p), String.toList_ofList (l := lastName _), List.append_assoc,
      List.singleton_append]
    exact hp

namespace Criteria

def selectItems (c : Criteria) : List String :=
  if c.projectionList.isEmpty then ["*"] else c.projectionList

variable {c : Criteria} {provider : Provider}

theorem selectList_eq_intercalate (c : Criteria) :
    c.selectList = ", ".intercalate c.selectItems := by
  rw [selectList, selectItems]
  split
  · simp
  · rfl

theorem selectItems_ne_nil (c : Criteria) : c.selectItems ≠ [] := by
  rw [selectItems]
  split
  · exact List.cons_ne_nil _ _
  next h => simpa using h

theorem exists_readsItems (hf : Yields IsPath f) (hp : ∀ p ∈ c.projectionList, IsProjection p) :
    ∃ g : String → Item, ∀ s ∈ c.selectItems, ReadsItem f s (g s) := by
  have hitem : ∀ s ∈ c.selectItems, ∃ i, ReadsItem f s i := by
    rw [selectItems]
    split
    · exact List.forall_mem_singleton.2 ⟨_, readsItem_star⟩
    · exact fun s hs => (hp s hs).exists_readsItem hf
  choose! g hg using hitem
  exact ⟨g, hg⟩

/-- Whether the first column of these items is called `count`. -/
def startsWithCount (items : List String) : Bool :=
  items.head?.any fun s => (words s.toList).head? == some "count".toList

/-- What a count puts in front of its first column: an underscore if the column is called `count`
and stands behind a word that an alias can follow. -/
def strayMark (first : String) (items : List String) : String :=
  if precedesAlias first.toList && startsWithCount items then "_" else ""

theorem toList_resolve_select (f : String → Option String) :
    (resolve f "SELECT").toList = replaced f "SELECT".toList := by
  rw [resolve_reference f (.name (by decide)) (by decide), replaced, String.ofList_toList]
  cases f "SELECT" <;> rfl

/-- The data query is the word `SELECT` or what it became, the items one by one, and the rest. -/
theorem exists_data_eq (hf : Yields IsPath f) (hfrom : f "FROM" = none) {g : String → Item}
    (hg : ∀ s ∈ c.selectItems, ReadsItem f s (g s))
    (hsource : ∃ d ∈ (c.source.getD c.entity.table).toList, isBlank d = false) :
    ∃ rest : List Char, (∃ d ∈ rest, isBlank d = false) ∧
      (resolve f (fillTemplate c.template c.selectList)).toList =
        unwords ((resolve f "SELECT").toList :: listWords (c.selectItems.map g)) ++
          ' ' :: ("FROM".toList ++ ' ' :: rest) := by
  obtain ⟨b, hb⟩ := exists_reads_items hg
  rw [← selectList_eq_intercalate] at hb
  obtain ⟨s, ss, hitems⟩ := List.exists_cons_of_ne_nil c.selectItems_ne_nil
  have hne : listWords (c.selectItems.map g) ≠ [] := by
    rw [hitems]
    exact listWords_ne_nil _ _
  have hlist : ∃ d ∈ c.selectList.toList, isBlank d = false := by
    rw [← not_blank_resolveFrom_iff hf (b := false), ← Sql.toList_resolve,
      selectList_eq_intercalate, toList_resolve_items hg]
    refine not_blank_unwords hne fun w hw => (isListWord_of_mem ?_ hw).isUnbroken
    exact List.forall_mem_map.2 fun s hs => (hg s hs).steady
  -- what stands behind `FROM` in the template, with the select list in the place of tags
  have hrest : ∃ d ∈ replace projectionTag.toList c.selectList.toList
      ((c.source.getD c.entity.table).toList ++
        (Node.whereClause c.nodes ++ c.orderClause).toList), isBlank d = false :=
    (replaced_replace (by decide) _).not_blank hlist
      (hsource.imp fun d hd => ⟨List.mem_append_left _ hd.1, hd.2⟩)
  refine ⟨_, (not_blank_resolveFrom_iff hf (b := false)).2 hrest, ?_⟩
  have hselect (r : List Char) : "SELECT ".toList ++ r = "SELECT".toList ++ ' ' :: r := rfl
  rw [Sql.toList_resolve, toList_fillTemplate, toList_tail,
    unreplaced_of_not_mem (s := " FROM ") (by decide), hselect, resolveFrom_select, hb _ rfl,
    resolveFrom_from hfrom, unwords_cons_of_ne_nil _ hne, toList_resolve_select]
  simp

theorem toList_statement {first list : String} {i : Item} {is : List Item}
    (h : list.toList = unwords (listWords (i :: is))) (rest : List Char) :
    (first ++ " " ++ list ++ " FROM " ++ String.ofList rest).toList =
      unwords (first.toList :: listWords (i :: is)) ++ ' ' :: ("FROM".toList ++ ' ' :: rest) := by
  rw [unwords_cons_of_ne_nil _ (listWords_ne_nil i is), ← h]
  simp

section

variable {s : String} {ss : List String} {g : String → Item}
  (h : ∀ t ∈ s :: ss, ReadsItem f t (g t))
include h

theorem toList_items :
    (", ".intercalate ((s :: ss).map (resolve f))).toList =
      unwords (listWords (g s :: ss.map g)) := by
  rw [String.toList_intercalate, unwords_listWords, ← List.map_cons, List.map_map, List.map_map]
  exact congrArg _ (List.map_congr_left fun t ht => (h t ht).toList_resolve)

theorem startsWithCount_iff :
    startsWithCount ((s :: ss).map (resolve f)) = true ↔ (g s).column = "count".toList := by
  have hs := h s List.mem_cons_self
  rw [startsWithCount, List.map_cons, List.head?_cons, Option.any_some, hs.toList_resolve,
    hs.steady.head?_words, beq_iff_eq, Option.some.injEq]

theorem toList_countedItems (first : String) :
    (strayMark first ((s :: ss).map (resolve f)) ++ ", ".intercalate ((s :: ss).map fun t =>
        String.ofList (renameAlias (resolve f t).toList))).toList =
      unwords (listWords ((g s).renamed (precedesAlias first.toList) ::
        (ss.map g).map (Item.renamed false))) := by
  have hmark : (strayMark first ((s :: ss).map (resolve f))).toList =
      if precedesAlias first.toList = true ∧ (g s).column = "count".toList then ['_'] else [] := by
    have hcount := startsWithCount_iff h
    rw [strayMark]
    by_cases hc : precedesAlias first.toList = true ∧ (g s).column = "count".toList
    · rw [if_pos hc, if_pos (Bool.and_eq_true_iff.2 (hc.imp_right hcount.2))]
      rfl
    · rw [if_neg hc, if_neg fun h => hc ((Bool.and_eq_true_iff.1 h).imp_right hcount.1)]
      rfl
  have hitems : (", ".intercalate ((s :: ss).map fun t =>
      String.ofList (renameAlias (resolve f t).toList))).toList =
        unwords (listWords ((g s).renamed false :: (ss.map g).map (Item.renamed false))) := by
    have hmap : (g s).renamed false :: (ss.map g).map (Item.renamed false) =
        (s :: ss).map fun t => (g t).renamed false := by
      rw [List.map_map]
      rfl
    rw [String.toList_intercalate, unwords_listWords, hmap, List.map_map, List.map_map]
    refine congrArg _ (List.map_congr_left fun t ht => ?_)
    rw [Function.comp_apply, String.toList_ofList, (h t ht).toList_resolve,
      renameAlias_chars (h t ht).steady]
    rfl
  rw [String.toList_append, hmark, hitems,
    unwords_renamed (g s) _ (precedesAlias first.toList)]

end

/-- What resolving makes of the data query, what collapsing makes of that, and what stands inside
the count. -/
theorem exists_inner_eq (hf : Yields IsPath f) (hfrom : f "FROM" = none)
    (hp : ∀ p ∈ c.projectionList, IsProjection p)
    (hsource : ∃ d ∈ (c.source.getD c.entity.table).toList, isBlank d = false)
    (hwords : "FROM".toList ∉ words (resolve f c.selectList).toList) :
    ∃ rest : String,
      resolve f (fillTemplate c.template c.selectList) =
        resolve f "SELECT" ++ " " ++ ", ".intercalate (c.selectItems.map (resolve f)) ++
          " FROM " ++ rest ∧
      String.ofList (collapse (resolve f (fillTemplate c.template c.selectList)).toList) =
        resolve f "SELECT" ++ " " ++ ", ".intercalate (c.selectItems.map (resolve f)) ++
          " FROM " ++ String.ofList (collapse rest.toList) ∧
      String.ofList (inner (resolve f (fillTemplate c.template c.selectList)).toList) =
        resolve f "SELECT" ++ " " ++ (strayMark (resolve f "SELECT")
          (c.selectItems.map (resolve f)) ++ ", ".intercalate (c.selectItems.map fun t =>
            String.ofList (renameAlias (resolve f t).toList))) ++
          " FROM " ++ String.ofList (collapse rest.toList) := by
  obtain ⟨g, hg⟩ := exists_readsItems hf hp
  obtain ⟨rest, hrest, hdata⟩ := exists_data_eq hf hfrom hg hsource
  rw [selectList_eq_intercalate, toList_resolve_items hg] at hwords
  obtain ⟨s, ss, hitems⟩ := List.exists_cons_of_ne_nil c.selectItems_ne_nil
  rw [hitems] at hg hdata hwords ⊢
  have hsteady : ∀ j ∈ g s :: ss.map g, j.IsSteady :=
    List.forall_mem_map.2 fun t ht => (hg t ht).steady
  have hfirst : GroupedCount.IsSteady (resolve f "SELECT").toList := by
    rw [toList_resolve_select]
    exact isSteady_of_isPath (hf.replaced (fun _ h => h) (.name (by decide)))
  rw [List.map_cons, words_unwords_listWords hsteady] at hwords
  obtain ⟨hcollapse, hinner⟩ := inner_select hfirst hsteady hwords hrest
  refine ⟨String.ofList rest, ?_, ?_, ?_⟩
  · rw [← String.toList_inj, toList_statement (toList_items hg), hdata, List.map_cons]
  · rw [← String.toList_inj, toList_statement (toList_items hg),
      String.toList_ofList (l := collapse _), String.toList_ofList (l := rest), hdata,
      List.map_cons, hcollapse]
  · rw [← String.toList_inj, toList_statement (toList_countedItems hg _),
      String.toList_ofList (l := inner _), String.toList_ofList (l := rest), hdata, List.map_cons,
      hinner]

/-- A grouped count is made of the data query word by word. Its select list has `_count` for the
alias `count`, and all else in it stays, unless the word in front of it has become the table of an
entity: then a first column `count` is taken for an alias. -/
theorem compile_countAliases {rewrite : String → String} {names : Option NameTable} {key : String}
    (hx : c.resolver provider (fillTemplate c.template c.selectList) = .ok (rewrite, names))
    (hprovider : provider.NamesSatisfy IsPath) (hp : ∀ p ∈ c.projectionList, IsProjection p)
    (hsource : ∃ d ∈ (c.source.getD c.entity.table).toList, isBlank d = false)
    (hfrom : ¬ c.RefersTo provider "FROM")
    (hwords : "FROM".toList ∉ words (rewrite c.selectList).toList)
    (hkey : Node.groupingKey? c.nodes = some key) :
    ∃ (q : Query) (rest column : String), c.compile provider = .ok q ∧
      q.data = rewrite "SELECT" ++ " " ++ ", ".intercalate (c.selectItems.map rewrite) ++
        " FROM " ++ rest ∧
      String.ofList (collapse q.data.toList) =
        rewrite "SELECT" ++ " " ++ ", ".intercalate (c.selectItems.map rewrite) ++
          " FROM " ++ String.ofList (collapse rest.toList) ∧
      '.' ∉ column.toList ∧ (rewrite key = column ∨ ∃ path, rewrite key = path ++ "." ++ column) ∧
      q.count = "SELECT COUNT(tc." ++ column ++ ") count FROM (" ++
        (rewrite "SELECT" ++ " " ++ (strayMark (rewrite "SELECT") (c.selectItems.map rewrite) ++
          ", ".intercalate (c.selectItems.map fun s =>
            String.ofList (renameAlias (rewrite s).toList))) ++
          " FROM " ++ String.ofList (collapse rest.toList)) ++ ") tc" ∧
      (¬ c.RefersTo provider "SELECT" →
        rewrite "SELECT" = "SELECT" ∧
          strayMark (rewrite "SELECT") (c.selectItems.map rewrite) = "") := by
  obtain ⟨f, hreplaced, rfl⟩ := exists_replacedBy hx
  have hpaths := hreplaced.yields hprovider isPathLike_isPath
  obtain ⟨rest, hdata, hcollapse, hinner⟩ := exists_inner_eq hpaths
    (hreplaced.eq_none (by decide) hfrom) hp hsource hwords
  obtain ⟨q, hq⟩ : ∃ q, c.compile provider = .ok q := ⟨_, by rw [compile, hx]; rfl⟩
  obtain ⟨x, hx', hdata', -, -, hcount⟩ := compile_eq_ok hq
  obtain rfl := Except.ok.inj (hx'.symm.trans hx)
  change q.data = resolve f (fillTemplate c.template c.selectList) at hdata'
  rw [← hdata'] at hdata hcollapse hinner
  obtain ⟨column, hcolumn, hpoint, hlast⟩ := exists_column (resolve f key)
  refine ⟨q, rest, column, hq, hdata, hcollapse, hpoint, hlast, ?_, fun hselect => ?_⟩
  · have hsql : q.count = GroupedCount.sql q.data (resolve f key) := by
      rw [hcount, hkey]
    rw [hsql, ← hinner, ← hcolumn]
    rfl
  · have hword : resolve f "SELECT" = "SELECT" := by
      rw [resolve_reference f (.name (by decide)) (by decide),
        hreplaced.eq_none (by decide) hselect, Option.getD_none]
    have hkept : precedesAlias "SELECT".toList = false := by decide
    rw [hword, strayMark, hkept]
    exact ⟨rfl, if_neg Bool.false_ne_true⟩

end Criteria

def dailyEntity : Entity :=
  { name := "Sale", table := "t_sale",
    fields := .ofList [("count", ⟨"count", .int, false⟩), ("day", ⟨"sale_day", .text, false⟩)] }

/-- A column `count` and a maximum with this alias, counted by day. -/
def dailyCounts (e : Entity) : Criteria :=
  ((Criteria.fetching e).runAll
    [.select "count", .selectExpression "max[total].as.count", .groupBy "day"]).1

theorem dailyCounts_projections :
    (dailyCounts dailyEntity).projectionList = ["count", "max(total) AS count"] := by
  decide +kernel

theorem isProjection_dailyCounts :
    ∀ p ∈ (dailyCounts dailyEntity).projectionList, IsProjection p := by
  rw [dailyCounts_projections]
  simp only [List.forall_mem_cons]
  exact ⟨.path (s := "count") rfl,
    .expression (s := "max[total].as.count") (x := ⟨some "max", none, "total", some "count"⟩) rfl,
    nofun⟩

theorem count_dailyCounts :
    ∃ (q : Query) (rest : String),
      (dailyCounts dailyEntity).compile (Registry.ofList [dailyEntity]).resolve = .ok q ∧
        q.data = "SELECT count, max(total) AS count FROM " ++ rest ∧
        q.count = "SELECT COUNT(tc.sale_day) count FROM (SELECT count, max(total) AS _count" ++
          " FROM " ++ String.ofList (collapse rest.toList) ++ ") tc" := by
  have hprovider : (Registry.ofList [dailyEntity]).resolve.NamesSatisfy IsPath := by
    refine Registry.namesSatisfy_singleton (.of_entries (.name (by decide)) fun y hy => .name ?_)
    revert y
    decide
  have hnot {name : String} (h : "Sale" ≠ name) :
      ¬ (dailyCounts dailyEntity).RefersTo (Registry.ofList [dailyEntity]).resolve name := by
    rintro ⟨e, he, hname⟩
    obtain rfl := Except.ok.inj he
    exact h hname
  have hitems : (dailyCounts dailyEntity).selectItems.map dailyEntity.resolve =
      ["count", "max(total) AS count"] := by decide +kernel
  have hrenamed : (dailyCounts dailyEntity).selectItems.map (fun s =>
      String.ofList (renameAlias (dailyEntity.resolve s).toList)) =
      ["count", "max(total) AS _count"] := by decide +kernel
  have hx : (dailyCounts dailyEntity).resolver (Registry.ofList [dailyEntity]).resolve
      (fillTemplate (dailyCounts dailyEntity).template (dailyCounts dailyEntity).selectList) =
        .ok (dailyEntity.resolve, none) := rfl
  have hgroup : Node.groupingKey? (dailyCounts dailyEntity).nodes = some "day" := rfl
  obtain ⟨q, rest, column, hq, hdata, -, -, hcolumn, hcount, hselect⟩ :=
    Criteria.compile_countAliases hx hprovider isProjection_dailyCounts
      ⟨'t', by decide, by decide⟩ (hnot (by decide)) (by decide +kernel) hgroup
  obtain ⟨hword, hmark⟩ := hselect (hnot (by decide))
  have hkey : dailyEntity.resolve "day" = "sale_day" := by decide +kernel
  have hname : column = "sale_day" := by
    rw [hkey] at hcolumn
    obtain h | ⟨path, h⟩ := hcolumn
    · exact h.symm
    · have hmem : '.' ∈ (path ++ "." ++ column).toList := by simp
      rw [← h] at hmem
      exact absurd hmem (by decide)
  rw [hword, hitems] at hdata
  rw [hname, hmark, hword, hrenamed] at hcount
  refine ⟨q, rest, hq, hdata, hcount.trans ?_⟩
  apply String.toList_inj.1
  simp

/-- An entity of the name `SELECT` turns the word into its table, and then the column behind it is
renamed as if it were an alias. -/
theorem not_keepsColumn_dailyCounts :
    compiledStatements { dailyEntity with name := "SELECT", table := "t_select" }
        (dailyCounts { dailyEntity with name := "SELECT", table := "t_select" }) =
      some ("SELECT COUNT(tc.sale_day) count FROM (t_select _count, max(total) AS _count" ++
          " FROM t_select) tc",
        "t_select count, max(total) AS count FROM t_select",
        "t_select ${PROJECTION} FROM t_select") := by
  decide +kernel

end FilterSql
