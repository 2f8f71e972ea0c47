import FilterSql.Proofs.Query.Mentioned
/-!
# Name tables in both directions

Both directions of a name table keep what was inserted last, each by its own key, so what a history
of insertions leaves in either can be read off the history. A logical name that is given another
physical one leaves its old pair behind in the reverse direction, unless the old physical name has
been taken over since. The directions agree exactly where no pair was left behind like this. In the
tables of compiled criteria there is none, since the entity and the property decide the column.
-/
namespace FilterSql

open Sql

namespace NameTable

def ofPairs (pairs : List (String × String)) : NameTable :=
  pairs.foldl (fun t pair => t.insert pair.1 pair.2) .empty

/-- The two directions agree wherever a name is known. -/
structure IsBidirectional (t : NameTable) : Prop where
  back : ∀ p l, t.logical? p = some l → t.physical? l = some p
  roundTrips : t.RoundTrips

/-- The logical name of the pair that had the physical name last was given another one since. -/
def IsStale (pairs : List (String × String)) (l p : String) : Prop :=
  ∃ before after, pairs = before ++ (l, p) :: after ∧
    p ∉ after.map Prod.snd ∧ l ∈ after.map Prod.fst

variable {pairs : List (String × String)} {l p : String}

theorem ofPairs_concat (pairs : List (String × String)) (pair : String × String) :
    ofPairs (pairs ++ [pair]) = (ofPairs pairs).insert pair.1 pair.2 :=
  List.foldl_concat ..

theorem physical?_ofPairs (pairs : List (String × String)) (l : String) :
    (ofPairs pairs).physical? l = pairs.reverse.lookup l := by
  induction pairs using List.reverseRecOn with
  | nil => rfl
  | append_singleton pairs pair ih =>
    rw [ofPairs_concat, physical?_insert, ih, List.reverse_concat, Dictionary.lookup_entry]

theorem logical?_ofPairs (pairs : List (String × String)) (p : String) :
    (ofPairs pairs).logical? p = (pairs.map Prod.swap).reverse.lookup p := by
  induction pairs using List.reverseRecOn with
  | nil => rfl
  | append_singleton pairs pair ih =>
    rw [ofPairs_concat, logical?_insert, ih, List.map_append, List.map_singleton,
      List.reverse_concat, Dictionary.lookup_entry]
    rfl

theorem not_mem_keys {key : String} :
    key ∉ pairs.map Prod.fst ↔ ∀ pair ∈ pairs, (key != pair.1) = true := by
  simp only [List.mem_map, bne_iff_ne, not_exists, not_and]
  exact forall₂_congr fun _ _ => ne_comm

theorem lookup_reverse_eq_some {key value : String} : pairs.reverse.lookup key = some value ↔
    ∃ before after, pairs = before ++ (key, value) :: after ∧ key ∉ after.map Prod.fst := by
  simp only [List.lookup_eq_some_iff, ← not_mem_keys]
  constructor
  · rintro ⟨after, before, h, hafter⟩
    refine ⟨before.reverse, after.reverse, ?_, ?_⟩
    · rw [List.reverse_eq_iff.1 h, List.reverse_append, List.reverse_cons, List.append_assoc]
      rfl
    · rwa [List.map_reverse, List.mem_reverse]
  · rintro ⟨before, after, rfl, hafter⟩
    refine ⟨after.reverse, before.reverse, ?_, ?_⟩
    · rw [List.reverse_append, List.reverse_cons, List.append_assoc]
      rfl
    · rwa [List.map_reverse, List.mem_reverse]

theorem physical?_ofPairs_eq_some : (ofPairs pairs).physical? l = some p ↔
    ∃ before after, pairs = before ++ (l, p) :: after ∧ l ∉ after.map Prod.fst := by
  rw [physical?_ofPairs, lookup_reverse_eq_some]

theorem logical?_ofPairs_eq_some : (ofPairs pairs).logical? p = some l ↔
    ∃ before after, pairs = before ++ (l, p) :: after ∧ p ∉ after.map Prod.snd := by
  rw [logical?_ofPairs, lookup_reverse_eq_some]
  constructor
  · rintro ⟨before, after, h, hafter⟩
    have hpairs : pairs = (before ++ (p, l) :: after).map Prod.swap := by
      rw [← h, List.map_map, Prod.swap_swap_eq, List.map_id]
    refine ⟨before.map Prod.swap, after.map Prod.swap, by simpa using hpairs, ?_⟩
    rwa [List.map_map, show Prod.snd ∘ Prod.swap = (Prod.fst : String × String → String) from rfl]
  · rintro ⟨before, after, rfl, hafter⟩
    refine ⟨before.map Prod.swap, after.map Prod.swap, by simp, ?_⟩
    rwa [List.map_map, show Prod.fst ∘ Prod.swap = (Prod.snd : String × String → String) from rfl]

theorem mem_of_physical?_ofPairs (h : (ofPairs pairs).physical? l = some p) : (l, p) ∈ pairs := by
  obtain ⟨before, after, rfl, -⟩ := physical?_ofPairs_eq_some.1 h
  simp

theorem exists_logical?_ofPairs (h : (l, p) ∈ pairs) :
    ∃ l', (ofPairs pairs).logical? p = some l' := by
  rw [← Option.isSome_iff_exists, logical?_ofPairs, List.lookup_isSome_iff]
  exact ⟨(p, l), by simpa using h, beq_self_eq_true p⟩

/-- What was left behind is what the reverse direction has and the forward direction has not. -/
theorem isStale_iff : IsStale pairs l p ↔
    (ofPairs pairs).logical? p = some l ∧ (ofPairs pairs).physical? l ≠ some p := by
  constructor
  · rintro ⟨before, after, rfl, hp, hl⟩
    refine ⟨logical?_ofPairs_eq_some.2 ⟨before, after, rfl, hp⟩, fun h => ?_⟩
    -- the last pair of `l` stands in `after`, where no pair has `p`
    obtain ⟨pair, hpair, rfl⟩ := List.mem_map.1 hl
    have hsome : (after.reverse.lookup pair.1).isSome :=
      List.lookup_isSome_iff.2 ⟨pair, by simpa using hpair, beq_self_eq_true _⟩
    obtain ⟨q, hq⟩ := Option.isSome_iff_exists.1 hsome
    rw [physical?_ofPairs, List.reverse_append, List.reverse_cons, List.append_assoc,
      List.lookup_append, hq, Option.some_or] at h
    obtain rfl := Option.some.inj h
    obtain ⟨_, _, rfl, -⟩ := lookup_reverse_eq_some.1 hq
    simp at hp
  · rintro ⟨hlogical, hphysical⟩
    obtain ⟨before, after, rfl, hp⟩ := logical?_ofPairs_eq_some.1 hlogical
    refine ⟨before, after, rfl, hp, ?_⟩
    by_contra hl
    exact hphysical (physical?_ofPairs_eq_some.2 ⟨before, after, rfl, hl⟩)

theorem roundTrips_ofPairs_iff : (ofPairs pairs).RoundTrips ↔
    ∀ l p, IsStale pairs l p → ∀ k, (ofPairs pairs).physical? k ≠ some p := by
  constructor
  · intro h l p hstale k hk
    obtain ⟨hlogical, hphysical⟩ := isStale_iff.1 hstale
    obtain ⟨l', hl', hp⟩ := h k p hk
    rw [hlogical] at hl'
    obtain rfl := Option.some.inj hl'
    exact hphysical hp
  · intro h k p hk
    obtain ⟨l, hl⟩ := exists_logical?_ofPairs (mem_of_physical?_ofPairs hk)
    refine ⟨l, hl, ?_⟩
    by_contra hp
    exact h l p (isStale_iff.2 ⟨hl, hp⟩) k hk

theorem isBidirectional_ofPairs_iff :
    (ofPairs pairs).IsBidirectional ↔ ∀ l p, ¬ IsStale pairs l p := by
  constructor
  · intro h l p hstale
    obtain ⟨hlogical, hphysical⟩ := isStale_iff.1 hstale
    exact hphysical (h.back p l hlogical)
  · intro h
    refine ⟨fun p l hl => ?_, roundTrips_ofPairs_iff.2 fun l p hstale => absurd hstale (h l p)⟩
    by_contra hp
    exact h l p (isStale_iff.2 ⟨hl, hp⟩)

theorem not_isStale (h : ∀ l p p', (l, p) ∈ pairs → (l, p') ∈ pairs → p = p') :
    ¬ IsStale pairs l p := by
  rintro ⟨before, after, rfl, hp, hl⟩
  obtain ⟨pair, hmem, rfl⟩ := List.mem_map.1 hl
  obtain rfl := h pair.1 p pair.2 (by simp) (by simp [hmem])
  exact hp (List.mem_map_of_mem hmem)

/-- After any insertions, each direction has the last pair of a name, and every physical name in use
has a logical one. The directions agree exactly if no pair was left behind, and a physical name in
use leads back to a logical name that still has it exactly if no pair left behind has it as well.
Giving every logical name one physical name only is enough. -/
theorem ofPairs_exact (pairs : List (String × String)) :
    (∀ l p, (ofPairs pairs).physical? l = some p ↔
      ∃ before after, pairs = before ++ (l, p) :: after ∧ l ∉ after.map Prod.fst) ∧
    (∀ p l, (ofPairs pairs).logical? p = some l ↔
      ∃ before after, pairs = before ++ (l, p) :: after ∧ p ∉ after.map Prod.snd) ∧
    (∀ l p, (ofPairs pairs).physical? l = some p → ∃ l', (ofPairs pairs).logical? p = some l') ∧
    ((ofPairs pairs).IsBidirectional ↔ ∀ l p, ¬ IsStale pairs l p) ∧
    ((ofPairs pairs).RoundTrips ↔
      ∀ l p, IsStale pairs l p → ∀ k, (ofPairs pairs).physical? k ≠ some p) ∧
    ((∀ l p p', (l, p) ∈ pairs → (l, p') ∈ pairs → p = p') → (ofPairs pairs).IsBidirectional) :=
  ⟨fun _ _ => physical?_ofPairs_eq_some, fun _ _ => logical?_ofPairs_eq_some,
    fun _ _ h => exists_logical?_ofPairs (mem_of_physical?_ofPairs h), isBidirectional_ofPairs_iff,
    roundTrips_ofPairs_iff, fun h => isBidirectional_ofPairs_iff.2 fun _ _ => not_isStale h⟩

/-- A second physical name leaves the old one pointing to a logical name that no longer has it, and
another logical name that still has the old one does not lead back to itself. -/
theorem not_isBidirectional_renamed :
    ¬ (∀ pairs p l, (ofPairs pairs).logical? p = some l → (ofPairs pairs).physical? l = some p) ∧
    ¬ (∀ pairs, (ofPairs pairs).RoundTrips) := by
  refine ⟨fun h => ?_, fun h => ?_⟩
  · have hback := h [("a", "x"), ("a", "y")] "x" "a" (by decide +kernel)
    exact absurd hback (by decide +kernel)
  · obtain ⟨l, hl, hx⟩ := h [("a", "x"), ("b", "x"), ("b", "y")] "a" "x" (by decide +kernel)
    obtain rfl : "b" = l := Option.some.inj ((by decide +kernel : _ = some "b").symm.trans hl)
    exact absurd hx (by decide +kernel)

end NameTable

namespace Resolution

variable {provider : Provider}

def IsPairOf (provider : Provider) (path pair : String × String) : Prop :=
  ∃ e, provider path.1 = .ok e ∧
    pair = (path.1 ++ "." ++ path.2, e.table ++ "." ++ e.columnOf path.2)

theorem exists_pairs_of_run {paths : List (String × String)} {r r' : Resolution}
    (hr : ∀ name e, r.entities.find? name = some e → provider name = .ok e)
    (h : paths.foldlM (lookUp provider) r = .ok r') :
    ∃ pairs, List.Forall₂ (IsPairOf provider) paths pairs ∧
      r'.names = pairs.foldl (fun t pair => t.insert pair.1 pair.2) r.names := by
  induction paths generalizing r with
  | nil =>
    obtain rfl := Except.ok.inj h
    exact ⟨[], .nil, rfl⟩
  | cons path paths ih =>
    obtain ⟨name, property⟩ := path
    rw [List.foldlM_cons, lookUp_eq (hr name)] at h
    obtain ⟨r₁, hr₁, hrest⟩ := bind_eq_ok h
    obtain ⟨e, he, rfl⟩ := map_eq_ok hr₁
    have hknown (name' : String) (e' : Entity)
        (hfind : (r.entities.insert name e).find? name' = some e') : provider name' = .ok e' := by
      rw [Dictionary.find?_insert] at hfind
      split at hfind
      next hname => rw [hname, he, Option.some.inj hfind]
      next => exact hr name' e' hfind
    obtain ⟨pairs, hpairs, hnames⟩ := ih hknown hrest
    exact ⟨_ :: pairs, .cons ⟨e, he, rfl⟩ hpairs, hnames⟩

theorem exists_pairs_of_ofSql {sql : String} {r : Resolution} (h : ofSql provider sql = .ok r) :
    ∃ pairs, List.Forall₂ (IsPairOf provider) (qualifiedPaths sql) pairs ∧
      r.names = .ofPairs pairs :=
  exists_pairs_of_run (fun _ _ hfind => by cases hfind) h

theorem isBidirectional_of_ofSql {sql : String} {r : Resolution}
    (h : ofSql provider sql = .ok r) : r.names.IsBidirectional := by
  obtain ⟨pairs, hpairs, hnames⟩ := exists_pairs_of_ofSql h
  rw [hnames]
  have hpair (l p : String) (hmem : (l, p) ∈ pairs) : ∃ name property e, '.' ∉ name.toList ∧
      provider name = .ok e ∧ l = name ++ "." ++ property ∧
        p = e.table ++ "." ++ e.columnOf property := by
    obtain ⟨i, hi, hget⟩ := List.getElem_of_mem hmem
    have hi' : i < (qualifiedPaths sql).length := hpairs.length_eq ▸ hi
    obtain ⟨e, he, hpair⟩ := hpairs.get hi' hi
    have hmentions := mentions_iff.2 (List.getElem_mem hi')
    rw [List.get_eq_getElem, hget] at hpair
    obtain ⟨rfl, rfl⟩ := Prod.mk.inj hpair
    exact ⟨_, _, e, hmentions.point, he, rfl, rfl⟩
  refine NameTable.isBidirectional_ofPairs_iff.2 fun _ _ =>
    NameTable.not_isStale fun l p p' hp hp' => ?_
  obtain ⟨name, property, e, hname, he, rfl, rfl⟩ := hpair _ _ hp
  obtain ⟨name', property', e', hname', he', hl, rfl⟩ := hpair _ _ hp'
  obtain ⟨rfl, rfl⟩ := qualified_inj hname hname' hl
  rw [Except.ok.inj (he.symm.trans he')]

end Resolution

/-- The names of a compiled criteria can be read back from the columns, whatever it mentions. -/
theorem Criteria.isBidirectional_names {c : Criteria} {provider : Provider} {q : Query}
    {names : NameTable} (h : c.compile provider = .ok q) (hnames : q.names = some names) :
    names.IsBidirectional := by
  obtain ⟨x, hx, h⟩ := bind_eq_ok h
  obtain rfl := Except.ok.inj h
  cases resolvedBy hx with
  | record _ hr =>
    obtain rfl := Option.some.inj hnames
    exact Resolution.isBidirectional_of_ofSql hr
  | entity => cases hnames

end FilterSql
