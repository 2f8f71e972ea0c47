import FilterSql.Proofs.Query.Marks
import FilterSql.Proofs.Sql.Openings
/-!
# Places of conditions

Every condition that is written stands in its statement behind a text that opens, whatever the
conditions around it are, as long as the names have no quotes or dollar signs and every list is
written wholly in quotes or wholly without them.
-/
namespace FilterSql

open Sql Text Node

/-- The text `s` stands in `t` behind a balanced text that opens. -/
def Behind (s t : String) : Prop :=
  ∃ a b, t = a ++ s ++ b ∧ Balanced a.toList ∧ Opens a.toList

/-- The text `s` stands at the start of `t`, or behind such a text. -/
def Stands (s t : String) : Prop := (∃ b, t = s ++ b) ∨ Behind s t

section

variable {s t u : String}

theorem Behind.append_right (h : Behind s t) (u : String) : Behind s (t ++ u) := by
  obtain ⟨a, b, rfl, ha, ho⟩ := h
  exact ⟨a, b ++ u, by simp only [String.append_assoc], ha, ho⟩

theorem Behind.append_left (h : Behind s t) (hu : Balanced u.toList) : Behind s (u ++ t) := by
  obtain ⟨a, b, rfl, ha, ho⟩ := h
  refine ⟨u ++ a, b, by simp only [String.append_assoc], ?_, ?_⟩
  · rw [String.toList_append]
    exact hu.append ha
  · rw [String.toList_append]
    exact ho.append_left _

namespace Stands

theorem refl (s : String) : Stands s s := Or.inl ⟨"", by simp⟩

theorem append_right (h : Stands s t) (u : String) : Stands s (t ++ u) := by
  rcases h with ⟨b, rfl⟩ | h
  · exact Or.inl ⟨b ++ u, String.append_assoc ..⟩
  · exact Or.inr (h.append_right u)

theorem append_left (h : Stands s t) (hu : Balanced u.toList) (ho : Opens u.toList) :
    Behind s (u ++ t) := by
  rcases h with ⟨b, rfl⟩ | h
  · exact ⟨u, b, (String.append_assoc ..).symm, hu, ho⟩
  · exact h.append_left hu

theorem trans_behind (h : Stands s t) (h' : Behind t u) : Behind s u := by
  obtain ⟨a, b, rfl, ha, ho⟩ := h'
  rw [String.append_assoc]
  exact (h.append_right b).append_left ha ho

theorem trans (h : Stands s t) (h' : Stands t u) : Stands s u := by
  rcases h' with ⟨b, rfl⟩ | h'
  · exact h.append_right b
  · exact Or.inr (h.trans_behind h')

end Stands

end

theorem opens_conjunction (c : Conjunction) : Opens (" " ++ c.sql ++ " ").toList := by
  cases c with
  | and => exact .word [] (w := "AND".toList) (by decide) (by decide)
  | or => exact .word [] (w := "OR".toList) (by decide) (by decide)
  | groupBy => exact .word " GROUP".toList (w := "BY".toList) (by decide) (by decide)
  | orderBy => exact .word " ORDER".toList (w := "BY".toList) (by decide) (by decide)

theorem stands_joinClauses {cs : List (Conjunction × String)}
    (hcs : ∀ d ∈ cs, Balanced d.2.toList) {d : Conjunction × String} (hd : d ∈ cs) :
    Stands d.2 (joinClauses cs) := by
  have hfollowing (ds : List (Conjunction × String)) (hds : ∀ d ∈ ds, Balanced d.2.toList)
      (hd : d ∈ ds) :
      Behind d.2 (String.join (ds.map fun d => " " ++ d.1.sql ++ " " ++ d.2)) := by
    induction ds with
    | nil => cases hd
    | cons e ds ih =>
      rw [List.forall_mem_cons] at hds
      have hconjunction := isTally_balanced.compositional.conjunction e.1
      rw [List.map_cons, String.join_cons]
      rcases List.mem_cons.1 hd with rfl | hd
      · exact ((Stands.refl _).append_left hconjunction (opens_conjunction _)).append_right _
      · refine (ih hds.2 hd).append_left ?_
        rw [String.toList_append]
        exact hconjunction.append hds.1
  cases cs with
  | nil => cases hd
  | cons e cs =>
    rw [List.forall_mem_cons] at hcs
    rw [joinClauses]
    rcases List.mem_cons.1 hd with rfl | hd
    · exact (Stands.refl _).append_right _
    · exact Or.inr ((hfollowing cs hcs.2 hd).append_left hcs.1)

/-- The keys of a node have no quotes or dollar signs, and no list is written partly in quotes. -/
structure Node.Quotable (n : Node) : Prop where
  keys : ∀ m ∈ n.subnodes, Lacks isQuote m.key.toList
  lists : ∀ l vs, Node.list l vs ∈ n.subnodes → Value.IsUniform vs

theorem Node.Quotable.child {l : Label} {ns : List Node} (h : (Node.group l ns).Quotable) {n : Node}
    (hn : n ∈ ns) : n.Quotable :=
  ⟨fun m hm => h.keys m (mem_subnodes_group hn hm),
    fun k vs hvs => h.lists k vs (mem_subnodes_group hn hvs)⟩

theorem Node.Quotable.balanced {n : Node} (h : n.Quotable) : Balanced n.sql.toList := by
  refine isTally_balanced.compositional.sql (keepsShape_withKey id) fun m hm hleaf => ?_
  exact isTally_balanced.leaf hleaf (h.keys m hm) fun l vs hvs => h.lists l vs (hvs ▸ hm)

theorem stands_clauses {ns : List Node} (hns : ∀ n ∈ ns, n.Quotable) {n : Node} (hn : n ∈ ns)
    (hr : n.renders = true) : Stands n.sql (joinClauses (clauses ns)) := by
  rw [clauses_eq]
  refine stands_joinClauses (d := n.clause) (fun d hd => ?_) ?_
  · obtain ⟨m, hm, rfl⟩ := List.mem_map.1 hd
    exact (hns m (List.mem_filter.1 hm).1).balanced
  · exact List.mem_map_of_mem (List.mem_filter.2 ⟨hn, hr⟩)

theorem stands_sql {m n : Node} (hm : m ∈ n.subnodes) (hr : m.renders = true) (h : n.Quotable) :
    Stands m.sql n.sql := by
  induction n using inductionOn with
  | group l ns ih =>
    have hmem := hm
    rw [subnodes_group, List.mem_cons, List.mem_flatMap] at hmem
    rcases hmem with rfl | ⟨n, hn, hmn⟩
    · exact Stands.refl _
    · have hclauses := stands_clauses (fun _ => h.child) hn (renders_of_mem_subnodes hmn hr)
      have hbracket : Opens "(".toList := .bracket []
      rw [Node.sql]
      exact Or.inr ((((ih n hn hmn (h.child hn)).trans hclauses).append_left
        (.of_lacks (by decide)) hbracket).append_right _)
  | scalar | range | list | marker =>
    rw [List.mem_singleton.1 hm]
    exact Stands.refl _

namespace Criteria

variable {c : Criteria}

theorem quotable_of_mem (hc : c.Unmarked isQuote) (hl : c.HasUniformLists) :
    ∀ n ∈ conditions c.nodes, n.Quotable := fun _ hn =>
  ⟨fun m hm => hc.keys m (mem_subnodesList_of_conditions (mem_subnodesList hn hm)),
    fun l vs hm => hl l vs (mem_subnodesList_of_conditions (mem_subnodesList hn hm))⟩

theorem behind_whereClause (hc : c.Unmarked isQuote) (hl : c.HasUniformLists) {m : Node}
    (hm : m ∈ subnodesList (conditions c.nodes)) (hr : m.renders = true) :
    Behind m.sql (whereClause c.nodes) := by
  have hquotable := quotable_of_mem hc hl
  rw [subnodesList_eq, List.mem_flatMap] at hm
  obtain ⟨n, hn, hm⟩ := hm
  have hwritten := renders_of_mem_subnodes hm hr
  have hclauses := stands_clauses hquotable hn hwritten
  have hne : (clauses (conditions c.nodes)).isEmpty = false := by
    rw [clauses_eq, List.isEmpty_map, List.isEmpty_eq_false_iff_exists_mem]
    exact ⟨n, List.mem_filter.2 ⟨hn, hwritten⟩⟩
  have hword : Opens " WHERE ".toList := .word [] (w := "WHERE".toList) (by decide) (by decide)
  rw [whereClause, hne, if_neg Bool.false_ne_true]
  exact ((stands_sql hm hr (hquotable n hn)).trans hclauses).append_left (.of_lacks (by decide))
    hword

/-- Every node that is written stands in what all three statements have in common. -/
theorem behind_tail (hc : c.Unmarked isQuote) (hl : c.HasUniformLists) {m : Node}
    (hm : m ∈ subnodesList (conditions c.nodes)) (hr : m.renders = true) :
    Behind m.sql c.tail :=
  ((behind_whereClause hc hl hm hr).append_left
    (.of_lacks (hc.fromClause fun _ => isMark_of_isQuote))).append_right _

end Criteria
end FilterSql
