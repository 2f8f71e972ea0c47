import FilterSql.Proofs.Criteria.Run
/-!
# Keys of criteria

Filters, grouping columns and sorts store the keys that the target of a criteria gives. Outside
fetch mode these are declared properties, so in a criteria that no finished node was added to all
names are declared, whatever the run was.
-/
namespace FilterSql

def Node.Keyed (K : String → Prop) (n : Node) : Prop :=
  ∀ m ∈ n.subnodes, m.children? = none → K m.key

theorem Node.Keyed.leaf {K : String → Prop} {n : Node} (hleaf : n.children? = none)
    (h : K n.key) : n.Keyed K := by
  intro m hm _
  rwa [eq_of_mem_subnodes hleaf hm]

theorem Node.Keyed.grouped {K : String → Prop} {c : Conjunction} {ns : List Node}
    (h : ∀ n ∈ ns, n.Keyed K) : (grouped c ns).Keyed K := by
  intro m hm hleaf
  rw [Node.grouped, subnodes_group, List.mem_cons, List.mem_flatMap] at hm
  rcases hm with rfl | ⟨n, hn, hm⟩
  · cases hleaf
  · exact h n hn m hm hleaf

/-- What a target gives as keys. -/
def Target.Stores (t : Target) (K : String → Prop) : Prop :=
  ∀ property key, t.key property = .ok key → K key

theorem Target.Stores.builds {t : Target} {K : String → Prop} (h : t.Stores K) :
    t.Builds (Node.Keyed K) := by
  refine ⟨fun c f n hn => ?_, fun c ns _ hns => .grouped hns⟩
  obtain ⟨key, hkey, hnode⟩ := Filter.filterNode_of_node? hn
  obtain ⟨rfl, -, hleaf⟩ := hnode.leaf
  exact .leaf hleaf (h _ _ hkey)

structure Criteria.Keyed (K : String → Prop) (c : Criteria) : Prop where
  nodes : ∀ n ∈ c.nodes, n.Keyed K
  orderBy : ∀ o, c.orderBy = some o → K o.property

namespace Criteria

variable {K : String → Prop} {c c' : Criteria}

theorem Keyed.change (h : Keyed K c) (hK : c.target.Stores K) (hc : Change (Node.Keyed K) c c') :
    Keyed K c' := by
  cases hc with
  | nodes hns => exact ⟨List.forall_mem_append.2 ⟨h.nodes, hns⟩, h.orderBy⟩
  | @groupBy property key hk =>
    refine ⟨List.forall_mem_append.2 ⟨fun n hn => h.nodes n (List.mem_filter.1 hn).1, ?_⟩,
      h.orderBy⟩
    exact List.forall_mem_singleton.2 (.leaf rfl (hK property key hk))
  | @orderBy property key direction hk =>
    refine ⟨h.nodes, fun o ho => ?_⟩
    obtain rfl := Option.some.inj ho
    exact hK property key hk
  | none | projections | source | paging => exact ⟨h.nodes, h.orderBy⟩

theorem Keyed.of_mem_conditions (h : Keyed K c) {m : Node}
    (hm : m ∈ Node.subnodesList (Node.conditions c.nodes)) (hleaf : m.children? = none) :
    K m.key := by
  rw [Node.subnodesList_eq, List.mem_flatMap] at hm
  obtain ⟨n, hn, hm⟩ := hm
  exact h.nodes n (List.mem_filter.1 hn).1 m hm hleaf

/-- A run without finished nodes keeps to the keys that the target gives. -/
theorem Keyed.runAll {os : List Operation} (h : Keyed K c) (hK : c.target.Stores K)
    (hos : ∀ o ∈ os, o.isFluent = true) : Keyed K (c.runAll os).1 := by
  have hboth : Keyed K (c.runAll os).1 ∧ (c.runAll os).1.target.Stores K :=
    runAll_invariant (I := fun d => Keyed K d ∧ d.target.Stores K)
      (fun d o ho hd => ⟨hd.1.change hd.2 (change_run hd.2.builds (hos o ho)),
        (target_run d o).symm ▸ hd.2⟩) ⟨h, hK⟩
  exact hboth.1

end Criteria

structure Criteria.Declared (e : Entity) (c : Criteria) : Prop
    extends Keyed (fun key => (e.field? key).isSome = true) c where
  entity : c.entity = e
  projections : c.projections = none

theorem Target.key_schema {e : Entity} {property key : String}
    (h : Target.key ⟨e, false⟩ property = .ok key) :
    key = property ∧ (e.field? property).isSome = true := by
  rw [Target.key, if_neg (by simp)] at h
  split at h
  next hd => exact ⟨(Except.ok.inj h).symm, hd⟩
  next => cases h

namespace Criteria

variable {e : Entity} {c : Criteria}

theorem Declared.plain (e : Entity) : Declared e (plain e) := ⟨⟨nofun, nofun⟩, rfl, rfl⟩

theorem Declared.target (h : Declared e c) : c.target = ⟨e, false⟩ := by
  rw [Criteria.target, isFetch, h.projections, h.entity]
  rfl

/-- After every run without finished nodes all names are declared. -/
theorem Declared.runAll {os : List Operation} (h : Declared e c)
    (hos : ∀ o ∈ os, o.isFluent = true) : Declared e (c.runAll os).1 := by
  have hstores : c.target.Stores fun key => (e.field? key).isSome = true := by
    intro property key hk
    rw [h.target] at hk
    obtain ⟨rfl, hd⟩ := Target.key_schema hk
    exact hd
  have htarget : (⟨(c.runAll os).1.entity, (c.runAll os).1.isFetch⟩ : Target) = ⟨e, false⟩ :=
    (target_runAll c os).trans h.target
  obtain ⟨hentity, hfetch⟩ := Target.mk.inj htarget
  exact ⟨h.toKeyed.runAll hstores hos, hentity, by simpa [isFetch] using hfetch⟩

end Criteria

end FilterSql
