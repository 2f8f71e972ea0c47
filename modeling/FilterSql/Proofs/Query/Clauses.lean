import FilterSql.Query.Compile
import FilterSql.Proofs.Node.Forest
/-!
# Clauses in pieces

A condition is written in pieces: keys, words, placeholders and lists. A relation of texts that is
kept when texts are written one after the other passes from these pieces to the WHERE clause of a
forest and to whole statements.
-/
namespace FilterSql

/-- A relation between a number of placeholders, a text that has them and another text, which is
kept when texts are written one after the other and holds of the words of conditions. -/
structure Compositional (R : Nat → String → String → Prop) : Prop where
  empty : R 0 "" ""
  append : ∀ {m n s s' t t'}, R m s t → R n s' t' → R (m + n) (s ++ s') (t ++ t')
  opening : R 0 "(" "("
  closing : R 0 ")" ")"
  conjunction : ∀ c : Conjunction, R 0 (" " ++ c.sql ++ " ") (" " ++ c.sql ++ " ")
  predicate : ∀ p : Predicate, R 0 (p.sql ++ " ") (p.sql ++ " ")
  scalar : R 1 "?" "?"
  range : R 2 "? AND ?" "? AND ?"

namespace Compositional

open Node

variable {R : Nat → String → String → Prop} {f : Node → Node}

theorem following (hR : Compositional R) (hf : KeepsShape f) {ns : List Node}
    (h : ∀ n ∈ ns, R n.binds.length n.sql (f n).sql) :
    R (bindsList ns).length
      (String.join (ns.map fun n => " " ++ n.conjunction.sql ++ " " ++ n.sql))
      (String.join (ns.map fun n => " " ++ (f n).conjunction.sql ++ " " ++ (f n).sql)) := by
  induction ns with
  | nil => exact hR.empty
  | cons n ns ih =>
    have hn := h n List.mem_cons_self
    have hc := hR.append (hR.conjunction n.conjunction) hn
    rw [Nat.zero_add] at hc
    rw [bindsList, List.length_append, List.map_cons, List.map_cons, String.join_cons,
      String.join_cons, hf.conjunction]
    exact hR.append hc (ih fun m hm => h m (List.mem_cons_of_mem n hm))

theorem joinClauses (hR : Compositional R) (hf : KeepsShape f) {ns : List Node}
    (h : ∀ n ∈ ns, R n.binds.length n.sql (f n).sql) :
    R (bindsList ns).length (joinClauses (clauses ns)) (joinClauses (clauses (ns.map f))) := by
  have hrenders : renders ∘ f = renders := funext hf.renders
  rw [← bindsList_filter_renders, clauses_eq, clauses_eq, List.filter_map, hrenders]
  have hw : ∀ n ∈ ns.filter renders, R n.binds.length n.sql (f n).sql :=
    fun n hn => h n (List.mem_filter.1 hn).1
  cases hns : ns.filter renders with
  | nil => exact hR.empty
  | cons n ms =>
    rw [hns, List.forall_mem_cons] at hw
    rw [bindsList, List.length_append, List.map_cons, List.map_cons, List.map_cons,
      FilterSql.joinClauses, FilterSql.joinClauses, List.map_map, List.map_map, List.map_map]
    exact hR.append hw.1 (hR.following hf hw.2)

theorem sql (hR : Compositional R) (hf : KeepsShape f) {n : Node}
    (h : ∀ m ∈ n.subnodes, m.children? = none → R m.binds.length m.sql (f m).sql) :
    R n.binds.length n.sql (n.mapLeaves f).sql := by
  induction n using inductionOn with
  | group l ns ih =>
    have hns := hR.joinClauses hf.mapLeaves fun n hn =>
      ih n hn fun m hm => h m (mem_subnodes_group hn hm)
    have hgroup := hR.append (hR.append hR.opening hns) hR.closing
    rw [Nat.zero_add, Nat.add_zero] at hgroup
    rwa [binds, mapLeaves, mapLeavesList_eq, Node.sql, Node.sql]
  | scalar | range | list | marker => exact h _ (mem_subnodes_self _) rfl

/-- The WHERE clause of a forest is related to the clause of its image. -/
theorem whereClause (hR : Compositional R) (hf : KeepsShape f) (hw : R 0 " WHERE " " WHERE ")
    {ns : List Node}
    (h : ∀ m ∈ subnodesList (conditions ns), m.children? = none →
      R m.binds.length m.sql (f m).sql) :
    R (bindsList (conditions ns)).length (Node.whereClause ns)
      (Node.whereClause (ns.map (mapLeaves f))) := by
  have hj := hR.joinClauses hf.mapLeaves fun n (hn : n ∈ conditions ns) =>
    hR.sql hf fun m hm => h m (mem_subnodesList hn hm)
  have hempty : (clauses ((conditions ns).map (mapLeaves f))).isEmpty =
      (clauses (conditions ns)).isEmpty := by
    have hrenders : renders ∘ mapLeaves f = renders := funext hf.mapLeaves.renders
    rw [clauses_eq, clauses_eq, List.filter_map, hrenders, List.isEmpty_map, List.isEmpty_map,
      List.isEmpty_map]
  rw [Node.whereClause, Node.whereClause, hf.mapLeaves.conditions, hempty]
  split
  next he =>
    rw [List.isEmpty_iff] at he
    rw [he] at hj
    have hnil : clauses ((conditions ns).map (mapLeaves f)) = [] := by
      rw [← List.isEmpty_iff, hempty, he]
      rfl
    rw [hnil] at hj
    exact hj
  next =>
    have hw := hR.append hw hj
    rwa [Nat.zero_add] at hw

theorem leaf (hR : Compositional R) {n : Node} (hleaf : n.children? = none) {k : String}
    (hkey : R 0 (n.key ++ " ") (k ++ " "))
    (hlist : ∀ l vs, n = list l vs →
      R 0 (listLiterals vs ++ ")") (listLiterals vs ++ ")")) :
    R n.binds.length n.sql (n.withKey k).sql := by
  have hfront (p : Predicate) {m : Nat} {s : String} (hs : R m s s) :
      R m (n.key ++ " " ++ (p.sql ++ " " ++ s)) (k ++ " " ++ (p.sql ++ " " ++ s)) := by
    have h := hR.append hkey (hR.append (hR.predicate p) hs)
    rwa [Nat.zero_add, Nat.zero_add] at h
  have hone : (" ?" : String) = " " ++ "?" := rfl
  have htwo : (" ? AND ?" : String) = " " ++ "? AND ?" := rfl
  have hopen : (" (" : String) = " " ++ "(" := rfl
  cases n with
  | scalar l v =>
    rw [withKey, Node.sql, Node.sql, hone]
    have h := hfront l.predicate hR.scalar
    simp only [String.append_assoc] at h ⊢
    exact h
  | range l a b =>
    rw [withKey, Node.sql, Node.sql, htwo]
    have h := hfront l.predicate hR.range
    simp only [String.append_assoc] at h ⊢
    exact h
  | list l vs =>
    have h := hfront l.predicate (hR.append hR.opening (hlist l vs rfl))
    rw [withKey, Node.sql, Node.sql, hopen]
    simp only [String.append_assoc] at h ⊢
    exact h
  | group l ns => cases hleaf
  | marker l => exact hR.empty

/-- The WHERE clause of a forest is related to the clause with other keys if the keys and lists
are related. -/
theorem whereClause_rename (hR : Compositional R) (hw : R 0 " WHERE " " WHERE ")
    {g : String → String} {ns : List Node}
    (hkey : ∀ m ∈ subnodesList (conditions ns), m.children? = none →
      R 0 (m.key ++ " ") (g m.key ++ " "))
    (hlist : ∀ l vs, list l vs ∈ subnodesList (conditions ns) →
      R 0 (listLiterals vs ++ ")") (listLiterals vs ++ ")")) :
    R (bindsList (conditions ns)).length (Node.whereClause ns)
      (Node.whereClause (ns.map (rename g))) :=
  hR.whereClause (keepsShape_withKey g) hw fun m hm hleaf =>
    hR.leaf hleaf (hkey m hm hleaf) fun l vs h => hlist l vs (h ▸ hm)

end Compositional

namespace Criteria

open Node

theorem toList_tail (c : Criteria) : c.tail.toList = " FROM ".toList ++
    ((c.source.getD c.entity.table).toList ++ (whereClause c.nodes ++ c.orderClause).toList) := by
  rw [tail, fromClause]
  simp only [String.toList_append, List.append_assoc]

theorem tail_cases (c : Criteria) :
    whereClause c.nodes ++ c.orderClause = "" ∨
      ∃ w ∈ ["WHERE", "ORDER"], ∃ t,
        whereClause c.nodes ++ c.orderClause = " " ++ (w ++ (" " ++ t)) := by
  rw [whereClause]
  by_cases h : (clauses (conditions c.nodes)).isEmpty = true
  · rw [if_pos h, String.empty_append, orderClause]
    cases c.orderBy with
    | none => exact Or.inl rfl
    | some o =>
      have hwords : (" ORDER BY " : String) = " " ++ ("ORDER" ++ (" " ++ "BY ")) := rfl
      refine Or.inr ⟨"ORDER", by decide, "BY " ++ o.property ++ " " ++ o.direction.sql, ?_⟩
      simp only [hwords, String.append_assoc]
  · have hwords : (" WHERE " : String) = " " ++ ("WHERE" ++ (" " ++ "")) := rfl
    rw [if_neg h]
    refine Or.inr ⟨"WHERE", by decide,
      joinClauses (clauses (conditions c.nodes)) ++ c.orderClause, ?_⟩
    simp only [hwords, String.append_assoc, String.empty_append]

end Criteria

end FilterSql
