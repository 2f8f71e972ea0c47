import FilterSql.Proofs.Node.Forest
/-!
# Sifting forests

A forest is sifted when the nodes that do not satisfy a predicate are taken out at every depth.
Where all nodes that are written satisfy it, sifting leaves no trace in what is written and bound.
So nodes that are not written can be taken out without being missed.
-/
namespace FilterSql.Node

mutual

/-- A node with only those nodes inside, at every depth, that satisfy `p`. -/
def sift (p : Node → Bool) : Node → Node
  | group l ns => group l (siftList p ns)
  | n => n

def siftList (p : Node → Bool) : List Node → List Node
  | [] => []
  | n :: ns => if p n then sift p n :: siftList p ns else siftList p ns

end

/-- A forest without the nodes, at any depth, that are not written. Grouping columns at the top
level stay as they are. -/
def pruned : List Node → List Node
  | [] => []
  | n :: ns =>
    if n.isGroupBy then n :: pruned ns
    else if n.renders then sift renders n :: pruned ns
    else pruned ns

/-- Nodes that do the same in a clause. -/
structure WrittenAlike (m n : Node) : Prop where
  label : m.label = n.label
  renders : m.renders = n.renders
  sql : m.sql = n.sql
  binds : m.binds = n.binds

variable {p : Node → Bool} {m n : Node} {ns : List Node}

theorem WrittenAlike.refl (n : Node) : WrittenAlike n n := ⟨rfl, rfl, rfl, rfl⟩

theorem siftList_eq (p : Node → Bool) (ns : List Node) :
    siftList p ns = (ns.filter p).map (sift p) :=
  eq_map_filter rfl (fun _ _ => rfl) ns

theorem label_sift (p : Node → Bool) (n : Node) : (n.sift p).label = n.label := by
  cases n <;> rfl

theorem isGroupBy_sift (p : Node → Bool) (n : Node) : (n.sift p).isGroupBy = n.isGroupBy := by
  rw [isGroupBy, conjunction, label_sift]
  rfl

theorem exists_of_mem_siftList (hm : m ∈ subnodesList (siftList p ns)) :
    ∃ k ∈ subnodesList ns, p k = true ∧ m = k.sift p := by
  have hnode {n : Node} (hp : p n = true) (hm : m ∈ (n.sift p).subnodes) :
      ∃ k ∈ n.subnodes, p k = true ∧ m = k.sift p := by
    induction n using inductionOn with
    | group l ns ih =>
      rw [sift, subnodes_group, List.mem_cons, siftList_eq, List.flatMap_map, List.mem_flatMap]
        at hm
      rcases hm with rfl | ⟨j, hj, hm⟩
      · exact ⟨group l ns, mem_subnodes_self _, hp, by rw [sift, siftList_eq]⟩
      · obtain ⟨hj, hpj⟩ := List.mem_filter.1 hj
        obtain ⟨k, hk, hkept⟩ := ih j hj hpj hm
        exact ⟨k, mem_subnodes_group hj hk, hkept⟩
    | scalar | range | list | marker =>
      exact ⟨_, mem_subnodes_self _, hp, eq_of_mem_subnodes rfl hm⟩
  rw [subnodesList_eq, siftList_eq, List.flatMap_map, List.mem_flatMap] at hm
  obtain ⟨n, hn, hm⟩ := hm
  obtain ⟨hn, hp⟩ := List.mem_filter.1 hn
  obtain ⟨k, hk, hkept⟩ := hnode hp hm
  exact ⟨k, mem_subnodesList hn hk, hkept⟩

/-- The siblings that stay do the same, and those taken out are neither written nor bound. -/
theorem siftList_alike (hp : ∀ n ∈ ns, n.renders = true → p n = true)
    (halike : ∀ n ∈ ns, WrittenAlike (n.sift p) n) :
    clauses (siftList p ns) = clauses ns ∧ bindsList (siftList p ns) = bindsList ns := by
  induction ns with
  | nil => exact ⟨rfl, rfl⟩
  | cons n ns ih =>
    rw [List.forall_mem_cons] at hp halike
    obtain ⟨hclauses, hbinds⟩ := ih hp.2 halike.2
    by_cases hpn : p n = true
    · rw [siftList, if_pos hpn, clauses, clauses, bindsList, bindsList, hclauses, hbinds,
        halike.1.renders, halike.1.sql, halike.1.binds, conjunction, label_sift]
      exact ⟨rfl, rfl⟩
    · have hn : n.renders = false := Bool.eq_false_iff.2 fun hr => hpn (hp.1 hr)
      rw [siftList, if_neg hpn, hclauses, hbinds, clauses, if_neg (Bool.eq_false_iff.1 hn),
        bindsList, binds_of_not_renders hn, List.nil_append]
      exact ⟨rfl, rfl⟩

theorem anyRenders_eq_clauses (ns : List Node) : anyRenders ns = !(clauses ns).isEmpty := by
  rw [anyRenders_eq, clauses_eq, List.isEmpty_map, Bool.eq_iff_iff, List.any_eq_true,
    Bool.not_eq_true', List.isEmpty_eq_false_iff_exists_mem]
  simp only [List.mem_filter]

/-- Where all nodes that are written satisfy `p`, taking out the others is not noticed. -/
theorem writtenAlike_sift (h : ∀ m ∈ n.subnodes, m.renders = true → p m = true) :
    WrittenAlike (n.sift p) n := by
  induction n using inductionOn with
  | group l ns ih =>
    have hns : ∀ n ∈ ns, n.renders = true → p n = true := fun n hn =>
      h n (mem_subnodes_group hn (mem_subnodes_self n))
    have halike : ∀ n ∈ ns, WrittenAlike (n.sift p) n := fun n hn =>
      ih n hn fun m hm => h m (mem_subnodes_group hn hm)
    obtain ⟨hclauses, hbinds⟩ := siftList_alike hns halike
    refine ⟨rfl, ?_, ?_, hbinds⟩
    · rw [sift, renders, renders, anyRenders_eq_clauses, hclauses, anyRenders_eq_clauses]
    · rw [sift, sql, sql, hclauses]
  | scalar | range | list | marker => exact .refl _

theorem siftList_of_renders (h : ∀ m ∈ subnodesList ns, m.renders = true → p m = true) :
    clauses (siftList p ns) = clauses ns ∧ bindsList (siftList p ns) = bindsList ns := by
  have hns : ∀ n ∈ ns, n.renders = true → p n = true := fun n hn =>
    h n (mem_subnodesList hn (mem_subnodes_self n))
  have halike : ∀ n ∈ ns, WrittenAlike (n.sift p) n := fun n hn =>
    writtenAlike_sift fun m hm => h m (mem_subnodesList hn hm)
  exact siftList_alike hns halike

theorem renders_of_sift (h : (n.sift p).renders = true) : n.renders = true := by
  induction n using inductionOn with
  | group l ns ih =>
    rw [sift, renders, anyRenders_eq, siftList_eq, List.any_map, List.any_eq_true] at h
    obtain ⟨k, hk, hr⟩ := h
    have hmem := (List.mem_filter.1 hk).1
    rw [renders, anyRenders_eq, List.any_eq_true]
    exact ⟨k, hmem, ih k hmem hr⟩
  | scalar | range | list | marker => exact h

theorem length_sql_pos (h : n.renders = true) : 0 < n.sql.length := by
  have hblank : (" " : String).length = 1 := rfl
  have hopen : ("(" : String).length = 1 := rfl
  cases n with
  | marker l => cases h
  | scalar | range | list | group =>
    simp only [sql, String.length_append]
    omega

def rowLength (first : Bool) : List Node → Nat
  | [] => 0
  | n :: ns =>
    if n.renders then
      (if first then 0 else n.conjunction.sql.length + 2) + n.sql.length + rowLength false ns
    else rowLength first ns

theorem length_joinClauses (ns : List Node) :
    (joinClauses (clauses ns)).length = rowLength true ns := by
  have hblank : (" " : String).length = 1 := rfl
  have hfollowing (ns : List Node) : (String.join ((clauses ns).map
      fun d => " " ++ d.1.sql ++ " " ++ d.2)).length = rowLength false ns := by
    induction ns with
    | nil => rfl
    | cons n ns ih =>
      rw [clauses, rowLength]
      split
      · rw [List.map_cons, String.join_cons, String.length_append, ih]
        simp only [String.length_append, Bool.false_eq_true, if_false]
        omega
      · exact ih
  induction ns with
  | nil => rfl
  | cons n ns ih =>
    rw [clauses, rowLength]
    split
    · rw [joinClauses, String.length_append, hfollowing, if_pos rfl, Nat.zero_add]
    · exact ih

theorem rowLength_le (first : Bool) (ns : List Node) : rowLength first ns ≤ rowLength false ns := by
  induction ns with
  | nil => exact Nat.le_refl _
  | cons n ns ih =>
    rw [rowLength, rowLength]
    split
    · cases first <;> simp
    · exact ih

/-- Siblings sifted together with what is inside them do not become longer, and they become shorter
if one that is written is taken out. -/
theorem rowLength_siftList
    (h : ∀ n ∈ ns, (n.sift p).sql.length ≤ n.sql.length ∧
      ((n.sift p).sql.length = n.sql.length → p n = true →
        ∀ m ∈ n.subnodes, m.renders = true → p m = true)) (first : Bool) :
    rowLength first (siftList p ns) ≤ rowLength first ns ∧
      (rowLength first (siftList p ns) = rowLength first ns →
        ∀ m ∈ subnodesList ns, m.renders = true → p m = true) := by
  induction ns generalizing first with
  | nil => exact ⟨Nat.le_refl _, fun _ _ hm => absurd hm List.not_mem_nil⟩
  | cons n ns ih =>
    rw [List.forall_mem_cons] at h
    obtain ⟨hle, heq⟩ := ih h.2 first
    obtain ⟨hlefalse, heqfalse⟩ := ih h.2 false
    by_cases hr : n.renders = true
    · by_cases hkept : p n = true ∧ (n.sift p).renders = true
      · obtain ⟨hp, hs⟩ := hkept
        obtain ⟨hlen, hinside⟩ := h.1
        have hconjunction : (n.sift p).conjunction = n.conjunction :=
          congrArg Label.conjunction (label_sift p n)
        rw [siftList, if_pos hp, rowLength, if_pos hs, rowLength, if_pos hr, hconjunction]
        refine ⟨by omega, fun hsame m hm => ?_⟩
        rw [subnodesList, List.mem_append] at hm
        rcases hm with hm | hm
        · exact hinside (by omega) hp m hm
        · exact heqfalse (by omega) m hm
      · have hdropped : rowLength first (siftList p (n :: ns)) = rowLength first (siftList p ns) := by
          rw [siftList]
          split
          next hp => rw [rowLength, if_neg fun hs => hkept ⟨hp, hs⟩]
          next => rfl
        have hfirst := rowLength_le first (siftList p ns)
        have hpos := length_sql_pos hr
        rw [hdropped, rowLength, if_pos hr]
        exact ⟨by omega, fun hsame => by omega⟩
    · have hsilent : rowLength first (siftList p (n :: ns)) = rowLength first (siftList p ns) := by
        rw [siftList]
        split
        · rw [rowLength, if_neg fun hs => hr (renders_of_sift hs)]
        · rfl
      rw [hsilent, rowLength, if_neg hr]
      refine ⟨hle, fun hsame m hm hm' => ?_⟩
      rw [subnodesList, List.mem_append] at hm
      rcases hm with hm | hm
      · exact absurd (renders_of_mem_subnodes hm hm') hr
      · exact heq hsame m hm hm'

theorem length_sql_sift : (n.sift p).sql.length ≤ n.sql.length ∧
    ((n.sift p).sql.length = n.sql.length → p n = true →
      ∀ m ∈ n.subnodes, m.renders = true → p m = true) := by
  induction n using inductionOn with
  | group l ns ih =>
    have hparentheses (ns : List Node) : (group l ns).sql.length = rowLength true ns + 2 := by
      have hopen : ("(" : String).length = 1 := rfl
      have hclose : (")" : String).length = 1 := rfl
      rw [sql, String.length_append, String.length_append, length_joinClauses]
      omega
    obtain ⟨hle, heq⟩ := rowLength_siftList ih true
    rw [sift, hparentheses, hparentheses]
    refine ⟨by omega, fun hsame hp m hm => ?_⟩
    rw [subnodes] at hm
    rcases List.mem_cons.1 hm with rfl | hm
    · exact fun _ => hp
    · exact heq (by omega) m hm
  | scalar | range | list | marker =>
    exact ⟨Nat.le_refl _, fun _ hp m hm _ => by rwa [eq_of_mem_subnodes rfl hm]⟩

theorem joinClauses_siftList_iff : joinClauses (clauses (siftList p ns)) = joinClauses (clauses ns) ↔
    ∀ m ∈ subnodesList ns, m.renders = true → p m = true := by
  constructor
  · intro h
    have hlength := congrArg String.length h
    rw [length_joinClauses, length_joinClauses] at hlength
    exact (rowLength_siftList (fun _ _ => length_sql_sift) true).2 hlength
  · intro h
    rw [(siftList_of_renders h).1]

theorem isEmpty_clauses (ns : List Node) : (clauses ns).isEmpty = !ns.any renders := by
  rw [← anyRenders_eq, anyRenders_eq_clauses, Bool.not_not]

theorem whereClause_eq (ns : List Node) : whereClause ns =
    if (conditions ns).any renders then " WHERE " ++ joinClauses (clauses (conditions ns))
    else "" := by
  rw [whereClause, isEmpty_clauses]
  cases (conditions ns).any renders <;> rfl

theorem conditions_siftList (p : Node → Bool) (ns : List Node) :
    conditions (siftList p ns) = siftList p (conditions ns) := by
  have hsift : (fun n : Node => !n.isGroupBy) ∘ sift p = fun n => !n.isGroupBy :=
    funext fun n => by rw [Function.comp, isGroupBy_sift]
  rw [siftList_eq, siftList_eq, conditions, conditions, List.filter_map, hsift, List.filter_filter,
    List.filter_filter]
  simp only [Bool.and_comm]

theorem joinClauses_ne_empty (h : ns.any renders = true) : joinClauses (clauses ns) ≠ "" := by
  have hpos : 0 < rowLength true ns := by
    induction ns with
    | nil => cases h
    | cons n ns ih =>
      rw [rowLength]
      by_cases hr : n.renders = true
      · have hn := length_sql_pos hr
        rw [if_pos hr]
        omega
      · rw [List.any_cons, Bool.eq_false_iff.2 hr, Bool.false_or] at h
        rw [if_neg hr]
        exact ih h
  intro hempty
  rw [← length_joinClauses, hempty] at hpos
  exact absurd hpos (by decide)

/-- The clause stays the same only if no condition that is written is taken out, at any depth. -/
theorem whereClause_siftList_iff : whereClause (siftList p ns) = whereClause ns ↔
    ∀ m ∈ subnodesList (conditions ns), m.renders = true → p m = true := by
  have htext (ns : List Node) : whereClause ns = if joinClauses (clauses (conditions ns)) = "" then ""
      else " WHERE " ++ joinClauses (clauses (conditions ns)) := by
    rw [whereClause_eq]
    by_cases hr : (conditions ns).any renders = true
    · rw [if_pos hr, if_neg (joinClauses_ne_empty hr)]
    · have hnil : clauses (conditions ns) = [] := by
        rw [← List.isEmpty_iff, isEmpty_clauses, Bool.eq_false_iff.2 hr]
        rfl
      rw [if_neg hr, hnil]
      rfl
  rw [← joinClauses_siftList_iff, htext, htext, conditions_siftList]
  constructor
  · intro h
    have hword (s : String) : " WHERE " ++ s ≠ "" := by simp
    split at h <;> split at h
    next h₁ h₂ => rw [h₁, h₂]
    next => exact absurd h.symm (hword _)
    next => exact absurd h (hword _)
    next => exact (String.append_right_inj _).1 h
  · intro h
    rw [h]

theorem conditions_pruned (ns : List Node) :
    conditions (pruned ns) = siftList renders (conditions ns) := by
  induction ns with
  | nil => rfl
  | cons n ns ih =>
    by_cases hg : n.isGroupBy = true
    · rw [pruned, if_pos hg, conditions, conditions, List.filter_cons_of_neg (by simp [hg]),
        List.filter_cons_of_neg (by simp [hg])]
      exact ih
    · have hcondition : conditions (n :: ns) = n :: conditions ns := by
        rw [conditions, List.filter_cons_of_pos (by simp [hg])]
        rfl
      rw [pruned, if_neg hg, hcondition, siftList]
      by_cases hr : n.renders = true
      · rw [if_pos hr, if_pos hr, ← ih, conditions,
          List.filter_cons_of_pos (by simp [isGroupBy_sift, hg])]
        rfl
      · rw [if_neg hr, if_neg hr, ih]

theorem filter_isGroupBy_pruned (ns : List Node) :
    (pruned ns).filter isGroupBy = ns.filter isGroupBy := by
  induction ns with
  | nil => rfl
  | cons n ns ih =>
    by_cases hg : n.isGroupBy = true
    · rw [pruned, if_pos hg, List.filter_cons_of_pos hg, List.filter_cons_of_pos hg, ih]
    · rw [pruned, if_neg hg, List.filter_cons_of_neg hg, ← ih]
      split
      · rw [List.filter_cons_of_neg (by rwa [isGroupBy_sift])]
      · rfl

theorem renders_of_mem_pruned (hm : m ∈ subnodesList (conditions (pruned ns))) :
    m.renders = true := by
  rw [conditions_pruned] at hm
  obtain ⟨k, -, hr, rfl⟩ := exists_of_mem_siftList hm
  rw [(writtenAlike_sift fun _ _ h => h).renders, hr]

theorem whereClause_pruned (ns : List Node) : whereClause (pruned ns) = whereClause ns := by
  rw [whereClause, conditions_pruned, (siftList_of_renders fun _ _ h => h).1, whereClause]

theorem bindsList_pruned (ns : List Node) :
    bindsList (conditions (pruned ns)) = bindsList (conditions ns) := by
  rw [conditions_pruned, (siftList_of_renders fun _ _ h => h).2]

end FilterSql.Node
