import FilterSql.Proofs.Criteria.Suppression
import FilterSql.Proofs.Criteria.WellFormed
/-!
# Filters by lists

A filter by a list stores the first occurrences of its values: a value is kept where it says
something and no value in front of it that says something is equal to it. The loop compares a value
with the kept ones only, and equality is transitive, so this comes to the same. Equality is not
reflexive, for `nan` is equal to nothing: each `nan` is a first occurrence.
-/
namespace FilterSql

theorem Binary.same_trans {x y z : Binary} (hxy : x.same y = true) (hyz : y.same z = true) :
    x.same z = true := by
  cases x <;> cases y <;> cases z <;> simp [same] at hxy hyz ⊢ <;> grind

namespace Value

theorem same_trans {u v w : Value} (huv : u.same v = true) (hvw : v.same w = true) :
    u.same w = true := by
  cases u <;> cases v <;> cases w <;> simp only [same, Bool.false_eq_true, beq_iff_eq] at huv hvw ⊢
  case float => exact Binary.same_trans huv hvw
  all_goals exact huv.trans hvw

/-- The value says something, and none of the earlier values that say something is equal to it. -/
def isNew (earlier : List Value) (v : Value) : Bool :=
  !v.isVoid && !earlier.any fun u => !u.isVoid && u.same v

theorem isNew_iff {earlier : List Value} {v : Value} :
    v.isNew earlier = true ↔
      v.isVoid = false ∧ ∀ u ∈ earlier, u.isVoid = false → u.same v = false := by
  simp [isNew]

theorem isNew_append_singleton (earlier : List Value) (u v : Value) :
    v.isNew (earlier ++ [u]) = (v.isNew earlier && (u.isVoid || !u.same v)) := by
  simp [isNew, Bool.and_assoc]

end Value

open Value

def firstOccurrences (vs : List Value) : List Value :=
  (List.range vs.length).filterMap fun i => (vs[i]?).filter (isNew (vs.take i))

theorem mem_firstOccurrences {vs : List Value} {v : Value} :
    v ∈ firstOccurrences vs ↔ ∃ i, vs[i]? = some v ∧ v.isNew (vs.take i) = true := by
  simp only [firstOccurrences, List.mem_filterMap, List.mem_range, Option.filter_eq_some_iff]
  refine exists_congr fun i => and_iff_right_of_imp fun h => ?_
  exact (List.getElem?_eq_some_iff.1 h.1).1

theorem firstOccurrences_append_singleton (vs : List Value) (v : Value) :
    firstOccurrences (vs ++ [v]) = firstOccurrences vs ++ if v.isNew vs then [v] else [] := by
  rw [firstOccurrences, List.length_append, List.length_singleton, List.range_succ,
    List.filterMap_append]
  congr 1
  · refine List.filterMap_congr fun i hi => ?_
    rw [List.mem_range] at hi
    rw [List.getElem?_append_left hi, List.take_append_of_le_length hi.le]
  · cases h : v.isNew vs <;> simp [Option.filter, h]

theorem firstOccurrences_sublist (vs : List Value) : (firstOccurrences vs).Sublist vs := by
  induction vs using List.reverseRecOn with
  | nil => exact .slnil
  | append_singleton vs v ih =>
    rw [firstOccurrences_append_singleton]
    refine ih.append ?_
    split
    · exact .refl _
    · exact List.nil_sublist _

theorem not_isVoid_of_mem {vs : List Value} {v : Value} (h : v ∈ firstOccurrences vs) :
    v.isVoid = false := by
  obtain ⟨i, -, hnew⟩ := mem_firstOccurrences.1 h
  exact (isNew_iff.1 hnew).1

theorem exists_first {vs : List Value} {v : Value} (hv : v.isVoid = false)
    (h : v.isNew vs = false) : ∃ u ∈ firstOccurrences vs, u.same v = true := by
  induction vs using List.reverseRecOn generalizing v with
  | nil => simp [isNew, hv] at h
  | append_singleton vs w ih =>
    rw [firstOccurrences_append_singleton]
    rw [isNew_append_singleton, Bool.and_eq_false_iff] at h
    rcases h with hvs | hw
    · obtain ⟨u, hu, hsame⟩ := ih hv hvs
      exact ⟨u, List.mem_append_left _ hu, hsame⟩
    · obtain ⟨hw, hsame⟩ : w.isVoid = false ∧ w.same v = true := by simpa using hw
      cases hnew : w.isNew vs with
      | true => exact ⟨w, by simp, hsame⟩
      | false =>
        obtain ⟨u, hu, hsame'⟩ := ih hw hnew
        exact ⟨u, List.mem_append_left _ hu, same_trans hsame' hsame⟩

theorem any_firstOccurrences {vs : List Value} {v : Value} (hv : v.isVoid = false) :
    (firstOccurrences vs).any (·.same v) = !v.isNew vs := by
  rw [Bool.eq_iff_iff, List.any_eq_true, Bool.not_eq_true']
  constructor
  · rintro ⟨u, hu, hsame⟩
    rw [← Bool.not_eq_true, isNew_iff]
    rintro ⟨-, hdiffer⟩
    rw [hdiffer u ((firstOccurrences_sublist vs).subset hu) (not_isVoid_of_mem hu)] at hsame
    cases hsame
  · exact exists_first hv

/-- The loop keeps the first occurrences. -/
theorem distinctValues_eq (vs : List Value) : distinctValues vs = firstOccurrences vs := by
  induction vs using List.reverseRecOn with
  | nil => rfl
  | append_singleton vs v ih =>
    rw [firstOccurrences_append_singleton, ← ih, distinctValues, List.foldl_append]
    change (if v.isVoid || (distinctValues vs).any (·.same v) then distinctValues vs
      else distinctValues vs ++ [v]) = _
    cases hv : v.isVoid with
    | true => simp [isNew, hv]
    | false =>
      rw [ih, any_firstOccurrences hv]
      cases v.isNew vs <;> simp

theorem isNew_or_exists {vs : List Value} {v : Value} (i : Nat) (hv : v.isVoid = false) :
    v.isNew (vs.take i) = true ∨
      ∃ j < i, ∃ u, vs[j]? = some u ∧ u.isNew (vs.take j) = true ∧ u.same v = true := by
  cases hnew : v.isNew (vs.take i) with
  | true => exact .inl rfl
  | false =>
    obtain ⟨u, hu, hsame⟩ := exists_first hv hnew
    obtain ⟨j, hj, hfirst⟩ := mem_firstOccurrences.1 hu
    rw [List.getElem?_take] at hj
    split at hj
    next hlt =>
      rw [List.take_take, Nat.min_eq_left hlt.le] at hfirst
      exact .inr ⟨j, hlt, u, hj, hfirst, hsame⟩
    next => cases hj

theorem firstOccurrences_of_areDistinct {vs : List Value} (h : AreDistinct vs) :
    firstOccurrences vs = vs := by
  induction vs using List.reverseRecOn with
  | nil => rfl
  | append_singleton vs v ih =>
    obtain ⟨hfilled, hdistinct⟩ := h
    rw [List.forall_mem_append, List.forall_mem_singleton] at hfilled
    rw [List.pairwise_append] at hdistinct
    have hnew : v.isNew vs = true := isNew_iff.2
      ⟨hfilled.2, fun u hu _ => hdistinct.2.2 u hu v List.mem_cons_self⟩
    rw [firstOccurrences_append_singleton, ih ⟨hfilled.1, hdistinct.1⟩, if_pos hnew]

/-- Values that are equal to kept ones add nothing at the end. -/
theorem firstOccurrences_append_of_same {vs ws : List Value}
    (h : ∀ w ∈ ws, ∃ v ∈ firstOccurrences vs, v.same w = true) :
    firstOccurrences (vs ++ ws) = firstOccurrences vs := by
  induction ws using List.reverseRecOn with
  | nil => rw [List.append_nil]
  | append_singleton ws w ih =>
    rw [List.forall_mem_append, List.forall_mem_singleton] at h
    obtain ⟨hws, v, hv, hsame⟩ := h
    have hnew : ¬ w.isNew (vs ++ ws) = true := by
      rw [isNew_iff]
      rintro ⟨-, hdiffer⟩
      have hmem := List.mem_append_left ws ((firstOccurrences_sublist vs).subset hv)
      rw [hdiffer v hmem (not_isVoid_of_mem hv)] at hsame
      cases hsame
    rw [← List.append_assoc, firstOccurrences_append_singleton, ih hws, if_neg hnew,
      List.append_nil]

def listNodes (key : String) (c : Conjunction) (negated : Bool) (vs : List Value) : List Node :=
  if vs.isEmpty then [] else [.list ⟨c, if negated then .notAmong else .among, key⟩ vs]

theorem Scope.nodes_added_eq_iff {s : Scope} {ns : List Node} :
    (s.added ns).1.nodes = s.nodes ↔ ns = [] := List.append_right_eq_self

namespace Step

variable {s : Scope} {p key : String}

theorem run_filter_list (hkey : s.target.key p = .ok key) (k : Connective) (negated : Bool)
    (vs : List Value) :
    run s (.filter k ⟨p, .among negated vs⟩) =
      s.added (listNodes key k.toConjunction negated (firstOccurrences vs)) := by
  rw [run_filter_of_key hkey, Condition.node?, distinctValues_eq, listNodes]
  split <;> rfl

/-- A filter by a list on an accepted property stores the first occurrences of its values: those
that say something and to which no such value in front is equal. No two of them are equal, what is
left out says nothing or is equal to a kept value in front of it, and no node is added exactly if
no value says anything. The stored list is stored unchanged, and values that are equal to stored
ones add nothing behind the others. -/
theorem run_filter_among (hkey : s.target.key p = .ok key) (k : Connective) (negated : Bool)
    (vs : List Value) :
    run s (.filter k ⟨p, .among negated vs⟩) =
        s.added (listNodes key k.toConjunction negated (firstOccurrences vs)) ∧
      (firstOccurrences vs).Sublist vs ∧ AreDistinct (firstOccurrences vs) ∧
      (∀ (i : Nat) (v : Value), vs[i]? = some v → v.isVoid = false →
        v.isNew (vs.take i) = true ∨
        ∃ j < i, ∃ u, vs[j]? = some u ∧ u.isNew (vs.take j) = true ∧ u.same v = true) ∧
      ((run s (.filter k ⟨p, .among negated vs⟩)).1.nodes = s.nodes ↔
        ∀ v ∈ vs, v.isVoid = true) ∧
      run s (.filter k ⟨p, .among negated (firstOccurrences vs)⟩) =
        run s (.filter k ⟨p, .among negated vs⟩) ∧
      ∀ ws, (∀ w ∈ ws, ∃ v ∈ firstOccurrences vs, v.same w = true) →
        run s (.filter k ⟨p, .among negated (vs ++ ws)⟩) =
          run s (.filter k ⟨p, .among negated vs⟩) := by
  have hdistinct : AreDistinct (firstOccurrences vs) :=
    distinctValues_eq vs ▸ areDistinct_distinctValues vs
  refine ⟨run_filter_list hkey k negated vs, firstOccurrences_sublist vs, hdistinct,
    fun i v _ => isNew_or_exists i, ?_, ?_, ?_⟩
  · rw [run_filter_list hkey, Scope.nodes_added_eq_iff, ← List.all_eq_true,
      ← distinctValues_eq_nil_iff, distinctValues_eq, listNodes]
    simp
  · rw [run_filter_list hkey, run_filter_list hkey, firstOccurrences_of_areDistinct hdistinct]
  · intro ws hws
    rw [run_filter_list hkey, run_filter_list hkey, firstOccurrences_append_of_same hws]

end Step

def mixedValues : List Value :=
  [.text "b", .null, .float .nan, .text "", .text "b", .choice "b", .float .nan]

theorem run_filter_among_mixedValues :
    (Criteria.plain userEntity).scope.target.key "name" = .ok "name" ∧
      Step.run (Criteria.plain userEntity).scope (.filter .or ⟨"name", .among true mixedValues⟩) =
        (Criteria.plain userEntity).scope.added [.list ⟨.or, .notAmong, "name"⟩
          [.text "b", .float .nan, .choice "b", .float .nan]] ∧
      (∃ j < 4, ∃ u, mixedValues[j]? = some u ∧ u.isNew (mixedValues.take j) = true ∧
        u.same (.text "b") = true) ∧
      Step.run (Criteria.plain userEntity).scope
          (.filter .or ⟨"name", .among true (mixedValues ++ [.choice "b"])⟩) =
        Step.run (Criteria.plain userEntity).scope
          (.filter .or ⟨"name", .among true mixedValues⟩) := by
  have hkey : (Criteria.plain userEntity).scope.target.key "name" = .ok "name" := by
    decide +kernel
  obtain ⟨hrun, -, -, hdropped, -, -, hmore⟩ := Step.run_filter_among hkey .or true mixedValues
  refine ⟨hkey, hrun, ?_, hmore _ (List.forall_mem_singleton.2 ?_)⟩
  · exact (hdropped 4 (.text "b") rfl rfl).resolve_left (by decide)
  · exact ⟨.choice "b", mem_firstOccurrences.2 ⟨5, rfl, rfl⟩, rfl⟩

end FilterSql
