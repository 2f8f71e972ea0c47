import FilterSql.Proofs.Node.Sifting
import FilterSql.Proofs.Value.Lexemes
/-!
# The layout of conditions

The WHERE clause of a forest has a layout: the lexemes of the nodes that are written, groups between
parentheses, and between two siblings the conjunction of the second. Whatever else stands in the
forest, empty groups and lists or markers at any depth, leaves no trace in it. Where keys are paths
and lists are written without doubt, the clause is read as its layout.
-/
namespace FilterSql

open Sql

namespace Node

def siblings : List (Conjunction × List Token) → List Token
  | [] => []
  | c :: cs => c.2 ++ cs.flatMap fun d => lexemes d.1.sql.toList ++ d.2

mutual

/-- The lexemes of a node, in the order in which they are written. -/
def layout : Node → List Token
  | scalar l _ => .word l.key :: (lexemes l.predicate.sql.toList ++ [.sign '?'])
  | range l _ _ =>
    .word l.key :: (lexemes l.predicate.sql.toList ++ [.sign '?', .word "AND", .sign '?'])
  | list l vs =>
    .word l.key :: (lexemes l.predicate.sql.toList ++
      opening :: (lexemes (listLiterals vs).toList ++ [closing]))
  | group _ ns => opening :: (siblings (layouts ns) ++ [closing])
  | marker _ => []

def layouts : List Node → List (Conjunction × List Token)
  | [] => []
  | n :: ns => if n.renders then (n.conjunction, n.layout) :: layouts ns else layouts ns

end

/-- The keys of a forest are paths, and its lists are written without doubt. -/
structure Legible (ns : List Node) : Prop where
  keys : ∀ m ∈ subnodesList ns, m.children? = none → IsPath m.key.toList
  lists : ∀ l vs, list l vs ∈ subnodesList ns → Value.IsLexical vs

variable {n : Node} {ns : List Node}

theorem Legible.mono {ms : List Node} (h : Legible ns)
    (hsub : ∀ m ∈ subnodesList ms, m ∈ subnodesList ns) : Legible ms :=
  ⟨fun m hm => h.keys m (hsub m hm), fun l vs hm => h.lists l vs (hsub _ hm)⟩

theorem Legible.child (h : Legible ns) (hn : n ∈ ns) : Legible [n] := by
  refine h.mono fun m hm => ?_
  rw [subnodesList, subnodesList, List.append_nil] at hm
  exact mem_subnodesList hn hm

theorem Legible.children {l : Label} (h : Legible [group l ns]) : Legible ns := by
  refine h.mono fun m hm => ?_
  rw [subnodesList, subnodesList, List.append_nil, subnodes]
  exact List.mem_cons_of_mem _ hm

theorem Legible.isPath (h : Legible [n]) (hleaf : n.children? = none) : IsPath n.key.toList :=
  h.keys n (mem_subnodesList List.mem_cons_self (mem_subnodes_self n)) hleaf

theorem layouts_eq (ns : List Node) :
    layouts ns = (ns.filter renders).map fun n => (n.conjunction, n.layout) :=
  eq_map_filter rfl (fun _ _ => rfl) ns

theorem reads_conjunction (c : Conjunction) :
    Reads (lexemes c.sql.toList) (" " ++ c.sql ++ " ") := by
  have hblank : Reads [] " " := .plain (by decide)
  have hword : Reads (lexemes c.sql.toList) (c.sql ++ " ") := .spaced (by cases c <;> decide)
  rw [String.append_assoc]
  exact hblank.append hword

theorem reads_joinClauses (h : ∀ n ∈ ns, n.renders = true → Reads n.layout n.sql) :
    Reads (siblings (layouts ns)) (joinClauses (clauses ns)) := by
  have hfollowing (ms : List Node) (hms : ∀ m ∈ ms, Reads m.layout m.sql) :
      Reads ((ms.map fun m => (m.conjunction, m.layout)).flatMap
          fun d => lexemes d.1.sql.toList ++ d.2)
        (String.join ((ms.map clause).map fun d => " " ++ d.1.sql ++ " " ++ d.2)) := by
    induction ms with
    | nil => exact .empty
    | cons m ms ih =>
      rw [List.forall_mem_cons] at hms
      rw [List.map_cons, List.flatMap_cons, List.map_cons, List.map_cons, String.join_cons]
      exact ((reads_conjunction m.conjunction).append hms.1).append (ih hms.2)
  have hwritten : ∀ n ∈ ns.filter renders, Reads n.layout n.sql := fun n hn =>
    h n (List.mem_filter.1 hn).1 (List.mem_filter.1 hn).2
  rw [layouts_eq, clauses_eq]
  cases hns : ns.filter renders with
  | nil => exact .empty
  | cons n ms =>
    rw [hns, List.forall_mem_cons] at hwritten
    exact hwritten.1.append (hfollowing ms hwritten.2)

theorem reads_layout (h : Legible [n]) : Reads n.layout n.sql := by
  have hfront {k : String} (hk : IsPath k.toList) (p : Predicate) {ts : List Token} {s : String}
      (hs : Reads ts s) :
      Reads (.word k :: (lexemes p.sql.toList ++ ts)) (k ++ " " ++ (p.sql ++ " " ++ s)) := by
    have hpredicate : Reads (lexemes p.sql.toList) (p.sql ++ " ") :=
      .spaced (by cases p <;> decide)
    exact (Reads.word hk).append (hpredicate.append hs)
  have hone : (" ?" : String) = " " ++ "?" := rfl
  have htwo : (" ? AND ?" : String) = " " ++ "? AND ?" := rfl
  have hopen : (" (" : String) = " " ++ "(" := rfl
  have hmark : Reads [.sign '?'] "?" := .plain (by decide)
  induction n using inductionOn with
  | scalar l v =>
    have hread := hfront (h.isPath rfl) l.predicate hmark
    rw [Node.sql, hone]
    simp only [String.append_assoc] at hread ⊢
    exact hread
  | range l a b =>
    have hbounds : Reads [.sign '?', .word "AND", .sign '?'] "? AND ?" := by
      have hand : Reads [.word "AND"] ("AND" ++ " ") := .word (.name (by decide))
      have hspaced : Reads [.sign '?'] "? " := .plain (by decide)
      exact hspaced.append (hand.append hmark)
    have hread := hfront (h.isPath rfl) l.predicate hbounds
    rw [Node.sql, htwo]
    simp only [String.append_assoc] at hread ⊢
    exact hread
  | list l vs =>
    have hvs : Value.IsLexical vs :=
      h.lists l vs (mem_subnodesList List.mem_cons_self (mem_subnodes_self _))
    have hbegin : Reads [opening] "(" := .plain (by decide)
    have hread := hfront (h.isPath rfl) l.predicate
      (hbegin.append (Value.reads_listLiterals hvs))
    rw [Node.sql, hopen]
    simp only [String.append_assoc] at hread ⊢
    exact hread
  | group l ns ih =>
    have hchildren := reads_joinClauses fun n hn _ => ih n hn (h.children.child hn)
    have hbegin : Reads [opening] "(" := .plain (by decide)
    have hend : Reads [closing] ")" := .plain (by decide)
    rw [Node.sql]
    exact (hbegin.append hchildren).append hend
  | marker l => exact .empty

theorem enclosable_siblings (h : ∀ n ∈ ns, n.renders = true → Enclosable n.layout)
    (hne : ns.any renders = true) : Enclosable (siblings (layouts ns)) := by
  have hconjunction (c : Conjunction) : Enclosable (lexemes c.sql.toList) := by
    cases c <;> exact .of_ne (by decide +kernel) (by decide +kernel)
  have hfollowing (ms : List Node) (hms : ∀ m ∈ ms, Enclosable m.layout)
      {ts : List Token} (hts : Enclosable ts) :
      Enclosable (ts ++ (ms.map fun m => (m.conjunction, m.layout)).flatMap
        fun d => lexemes d.1.sql.toList ++ d.2) := by
    induction ms generalizing ts with
    | nil => simpa using hts
    | cons m ms ih =>
      rw [List.forall_mem_cons] at hms
      rw [List.map_cons, List.flatMap_cons, ← List.append_assoc]
      exact ih hms.2 (hts.append ((hconjunction _).append hms.1))
  have hwritten : ∀ n ∈ ns.filter renders, Enclosable n.layout := fun n hn =>
    h n (List.mem_filter.1 hn).1 (List.mem_filter.1 hn).2
  rw [layouts_eq]
  cases hns : ns.filter renders with
  | nil =>
    obtain ⟨n, hn, hr⟩ := List.any_eq_true.1 hne
    exact absurd hr (List.filter_eq_nil_iff.1 hns n hn)
  | cons n ms =>
    rw [hns, List.forall_mem_cons] at hwritten
    exact hfollowing ms hwritten.2 hwritten.1

theorem enclosable_layout (h : Legible [n]) (hr : n.renders = true) : Enclosable n.layout := by
  have hword (w : String) : Enclosable [.word w] :=
    .of_ne (List.cons_ne_nil _ _) (by simp [Token.word, opening, closing, Token.sign])
  have hmark : Enclosable [.sign '?'] := .of_ne (by decide) (by decide)
  have hfront (k : String) (p : Predicate) {ts : List Token} (hts : Enclosable ts) :
      Enclosable (.word k :: (lexemes p.sql.toList ++ ts)) := by
    refine (hword k).append ?_
    cases p with
    -- a group has no word between key and operand
    | group => simpa [Predicate.sql] using hts
    | _ => exact (Enclosable.of_ne (by decide +kernel) (by decide +kernel)).append hts
  induction n using inductionOn with
  | scalar l v => exact hfront l.key l.predicate hmark
  | range l a b =>
    exact hfront l.key l.predicate ((hmark.append (hword "AND")).append hmark)
  | list l vs =>
    have hvs : Value.IsLexical vs :=
      h.lists l vs (mem_subnodesList List.mem_cons_self (mem_subnodes_self _))
    have hne : vs ≠ [] := by simpa [renders] using hr
    exact hfront l.key l.predicate (Value.enclosable_listLiterals hvs hne).enclose
  | group l ns ih =>
    rw [renders, anyRenders_eq] at hr
    exact (enclosable_siblings (fun n hn => ih n hn (h.children.child hn)) hr).enclose
  | marker l => cases hr

theorem lexemes_whereClause (h : Legible (conditions ns)) :
    lexemes (whereClause ns).toList =
      if (conditions ns).any renders then .word "WHERE" :: siblings (layouts (conditions ns))
      else [] := by
  have hblank : Reads [] " " := .plain (by decide)
  have hword : Reads [.word "WHERE"] ("WHERE" ++ " ") := .word (.name (by decide))
  have hclauses := reads_joinClauses fun n (hn : n ∈ conditions ns) _ => reads_layout (h.child hn)
  rw [whereClause_eq]
  split
  · exact ((hblank.append hword).append hclauses).lexemes_eq
  · exact lexemes_nil

theorem infix_whereClause_iff (ns : List Node) :
    " WHERE ".toList <:+: (whereClause ns).toList ↔
      ∃ n ∈ ns, n.isGroupBy = false ∧ n.renders = true := by
  have hany : (conditions ns).any renders = true ↔
      ∃ n ∈ ns, n.isGroupBy = false ∧ n.renders = true := by
    rw [List.any_eq_true]
    simp only [conditions, List.mem_filter, Bool.not_eq_true', and_assoc]
  rw [← hany, whereClause_eq]
  by_cases hr : (conditions ns).any renders = true
  · rw [if_pos hr, String.toList_append]
    exact iff_of_true (List.prefix_append _ _).isInfix hr
  · rw [if_neg hr]
    exact iff_of_false (by decide) hr

/-- The last grouping column of a forest, the one that counts. -/
def groupingColumn? (ns : List Node) : Option Node := (ns.filter isGroupBy).getLast?

/-- Nodes that are not written can be taken out at every depth, grouping columns at the top level
aside: the clause, the values of its placeholders and the grouping column stay. A legible clause is
the layout of the nodes that are left, its parentheses are balanced and none are empty, and it is
there if one of the conditions is written. -/
theorem whereClause_layout (ns : List Node) :
    ((∀ m ∈ subnodesList (conditions (pruned ns)), m.renders = true) ∧
      whereClause (pruned ns) = whereClause ns ∧
      bindsList (conditions (pruned ns)) = bindsList (conditions ns) ∧
      groupingColumn? (pruned ns) = groupingColumn? ns ∧
      groupingKey? (pruned ns) = groupingKey? ns) ∧
    (Legible (conditions ns) →
      lexemes (whereClause ns).toList =
        (if (conditions ns).any renders then .word "WHERE" :: siblings (layouts (conditions ns))
        else []) ∧
      Nested (lexemes (whereClause ns).toList) ∧
      ¬ [opening, closing] <:+: lexemes (whereClause ns).toList) ∧
    (" WHERE ".toList <:+: (whereClause ns).toList ↔
      ∃ n ∈ ns, n.isGroupBy = false ∧ n.renders = true) := by
  refine ⟨⟨fun m => renders_of_mem_pruned, whereClause_pruned ns, bindsList_pruned ns, ?_, ?_⟩,
    fun h => ?_, infix_whereClause_iff ns⟩
  · rw [groupingColumn?, filter_isGroupBy_pruned, groupingColumn?]
  · rw [groupingKey?, filter_isGroupBy_pruned, groupingKey?]
  · have hlexemes := lexemes_whereClause h
    refine ⟨hlexemes, ?_⟩
    rw [hlexemes]
    by_cases hr : (conditions ns).any renders = true
    · have hword : Enclosable [.word "WHERE"] := .of_ne (by decide) (by decide)
      have hclauses := hword.append (enclosable_siblings
        (fun n hn => enclosable_layout (h.child hn)) hr)
      rw [if_pos hr]
      exact ⟨hclauses.nested, hclauses.not_infix⟩
    · rw [if_neg hr]
      exact ⟨.nil, by simp⟩

end Node

open Node

/-- A forest with a grouping column, empty groups, empty lists and a marker inside a group. -/
def litteredForest : List Node :=
  [groupingColumn "id", grouped .or [],
    grouped .and [.marker ⟨.groupBy, .eq, "age"⟩, grouped .or [.list ⟨.and, .among, "id"⟩ []],
      .list ⟨.or, .among, "name"⟩ [.text "() it's"],
      .range ⟨.or, .between, "age"⟩ (.int 1) (.int 2)],
    .list ⟨.and, .notAmong, "id"⟩ [], .scalar ⟨.or, .eq, "User.id"⟩ (.int 7)]

theorem legible_litteredForest : Legible (conditions litteredForest) := by
  have hid : IsPath "id".toList := .name (by decide)
  have hage : IsPath "age".toList := .name (by decide)
  have hname : IsPath "name".toList := .name (by decide)
  have huser : IsPath "User.id".toList := .qualified (n := "User".toList) (by decide) hid
  constructor
  · simp [conditions, litteredForest, grouped, groupingColumn, isGroupBy, subnodesList, subnodes,
      children?, key, label, conjunction]
    exact ⟨hage, hid, hname, hage, hid, huser⟩
  · intro l vs h
    have hvalues : vs = [] ∨ vs = [.text "() it's"] := by
      simp [conditions, litteredForest, grouped, groupingColumn, isGroupBy, subnodesList, subnodes,
        label, conjunction] at h
      rcases h with ⟨-, rfl⟩ | ⟨-, rfl⟩ | ⟨-, rfl⟩ <;> simp
    rcases hvalues with rfl | rfl <;> exact Or.inr rfl

theorem whereClause_litteredForest :
    pruned litteredForest = [groupingColumn "id",
      grouped .and [.list ⟨.or, .among, "name"⟩ [.text "() it's"],
        .range ⟨.or, .between, "age"⟩ (.int 1) (.int 2)],
      .scalar ⟨.or, .eq, "User.id"⟩ (.int 7)] ∧
    whereClause litteredForest =
      " WHERE (name IN ('() it''s') OR age BETWEEN ? AND ?) OR User.id = ?" ∧
    whereClause (pruned litteredForest) = whereClause litteredForest ∧
    lexemes (whereClause litteredForest).toList =
      [.word "WHERE", opening, .word "name", .word "IN", opening,
        (Value.text "() it's").literalToken, closing, .word "OR", .word "age", .word "BETWEEN",
        .sign '?', .word "AND", .sign '?', closing, .word "OR", .word "User.id", .sign '=',
        .sign '?'] ∧
    Nested (lexemes (whereClause litteredForest).toList) := by
  obtain ⟨⟨-, hclause, -⟩, hlegible, -⟩ := whereClause_layout litteredForest
  obtain ⟨hlexemes, hnested, -⟩ := hlegible legible_litteredForest
  exact ⟨rfl, by decide +kernel, hclause, hlexemes.trans (by decide +kernel), hnested⟩

end FilterSql
