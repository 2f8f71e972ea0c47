import FilterSql.Query.Where
import Mathlib.Tactic.Common
/-!
# Induction over forests

The functions on nodes come with a function on lists of nodes; here the latter are expressed by the
former, and induction gives a group the hypothesis for each of its children.
-/
namespace FilterSql

namespace Node

/-- Induction over a node, with a hypothesis for each child of a group. -/
@[elab_as_elim]
theorem inductionOn {motive : Node → Prop}
    (scalar : ∀ l v, motive (scalar l v))
    (range : ∀ l a b, motive (range l a b))
    (list : ∀ l vs, motive (list l vs))
    (group : ∀ l ns, (∀ n ∈ ns, motive n) → motive (group l ns))
    (marker : ∀ l, motive (marker l)) (n : Node) : motive n :=
  Node.rec (motive_1 := motive) (motive_2 := fun ns => ∀ n ∈ ns, motive n)
    scalar range list group marker (fun _ h => absurd h List.not_mem_nil)
    (fun _ _ h hs => List.forall_mem_cons.2 ⟨h, hs⟩) n

theorem anyRenders_eq (ns : List Node) : anyRenders ns = ns.any renders := by
  induction ns with
  | nil => rfl
  | cons n ns ih => rw [anyRenders, ih, List.any_cons]

def clause (n : Node) : Conjunction × String := (n.conjunction, n.sql)

/-- A recursion that leaves out the elements without `p` is a filter and a map. -/
theorem eq_map_filter {α β : Type} {p : α → Bool} {g : α → β} {f : List α → List β}
    (hnil : f [] = []) (hcons : ∀ a as, f (a :: as) = if p a then g a :: f as else f as)
    (as : List α) : f as = (as.filter p).map g := by
  induction as with
  | nil => exact hnil
  | cons a as ih =>
    rw [hcons, ih]
    by_cases h : p a = true
    · rw [if_pos h, List.filter_cons_of_pos h, List.map_cons]
    · rw [if_neg h, List.filter_cons_of_neg h]

theorem clauses_eq (ns : List Node) : clauses ns = (ns.filter renders).map clause :=
  eq_map_filter rfl (fun _ _ => rfl) ns

theorem bindsList_eq (ns : List Node) : bindsList ns = ns.flatMap binds := by
  induction ns with
  | nil => rfl
  | cons n ns ih => rw [bindsList, ih, List.flatMap_cons]

theorem binds_of_not_renders {n : Node} (h : n.renders = false) : n.binds = [] := by
  induction n using inductionOn with
  | scalar l v => cases h
  | range l a b => cases h
  | list l vs => rfl
  | group l ns ih =>
    rw [renders, anyRenders_eq, List.any_eq_false] at h
    rw [binds, bindsList_eq, List.flatMap_eq_nil_iff]
    exact fun n hn => ih n hn (by simpa using h n hn)
  | marker l => rfl

theorem flatMap_filter_renders {α : Type} {g : Node → List α}
    (hg : ∀ n, n.renders = false → g n = []) (ns : List Node) :
    (ns.filter renders).flatMap g = ns.flatMap g := by
  induction ns with
  | nil => rfl
  | cons n ns ih =>
    by_cases hn : n.renders = true
    · rw [List.filter_cons_of_pos hn, List.flatMap_cons, List.flatMap_cons, ih]
    · rw [List.filter_cons_of_neg hn, List.flatMap_cons, hg n (by simpa using hn), ih]
      rfl

theorem bindsList_filter_renders (ns : List Node) :
    bindsList (ns.filter renders) = bindsList ns := by
  rw [bindsList_eq, bindsList_eq]
  exact flatMap_filter_renders (fun _ => binds_of_not_renders) ns

mutual

/-- A node and all nodes inside it, from left to right. -/
def subnodes : Node → List Node
  | group l ns => group l ns :: subnodesList ns
  | n => [n]

def subnodesList : List Node → List Node
  | [] => []
  | n :: ns => subnodes n ++ subnodesList ns

end

theorem subnodesList_eq (ns : List Node) : subnodesList ns = ns.flatMap subnodes := by
  induction ns with
  | nil => rfl
  | cons n ns ih => rw [subnodesList, ih, List.flatMap_cons]

theorem subnodes_group (l : Label) (ns : List Node) :
    subnodes (group l ns) = group l ns :: ns.flatMap subnodes := by
  rw [subnodes, subnodesList_eq]

theorem mem_subnodes_self (n : Node) : n ∈ n.subnodes := by
  cases n <;> simp [subnodes]

theorem eq_of_mem_subnodes {m n : Node} (hleaf : n.children? = none) (hm : m ∈ n.subnodes) :
    m = n := by
  cases n with
  | group l ns => cases hleaf
  | scalar | range | list | marker => exact List.mem_singleton.1 hm

theorem mem_subnodesList {m n : Node} {ns : List Node} (hn : n ∈ ns) (hm : m ∈ n.subnodes) :
    m ∈ subnodesList ns := by
  rw [subnodesList_eq]
  exact List.mem_flatMap.2 ⟨n, hn, hm⟩

theorem mem_subnodesList_of_conditions {m : Node} {ns : List Node}
    (h : m ∈ subnodesList (conditions ns)) : m ∈ subnodesList ns := by
  rw [subnodesList_eq, List.mem_flatMap] at h
  obtain ⟨n, hn, hm⟩ := h
  exact mem_subnodesList (List.mem_filter.1 hn).1 hm

theorem mem_subnodes_group {m n : Node} {l : Label} {ns : List Node} (hn : n ∈ ns)
    (hm : m ∈ n.subnodes) : m ∈ (group l ns).subnodes := by
  rw [subnodes]
  exact List.mem_cons_of_mem _ (mem_subnodesList hn hm)

theorem mem_subnodes_trans {k m n : Node} (hm : m ∈ n.subnodes) (hk : k ∈ m.subnodes) :
    k ∈ n.subnodes := by
  induction n using inductionOn with
  | group l ns ih =>
    have hmem := hm
    rw [subnodes_group, List.mem_cons, List.mem_flatMap] at hmem
    rcases hmem with rfl | ⟨n, hn, hmn⟩
    · exact hk
    · exact mem_subnodes_group hn (ih n hn hmn)
  | scalar | range | list | marker => rwa [eq_of_mem_subnodes rfl hm] at hk

theorem renders_of_mem_subnodes {m n : Node} (hm : m ∈ n.subnodes)
    (hr : m.renders = true) : n.renders = true := by
  induction n using inductionOn with
  | group l ns ih =>
    rw [subnodes_group, List.mem_cons, List.mem_flatMap] at hm
    rcases hm with rfl | ⟨n, hn, hm⟩
    · exact hr
    · rw [renders, anyRenders_eq, List.any_eq_true]
      exact ⟨n, hn, ih n hn hm⟩
  | scalar | range | list | marker => rwa [List.mem_singleton.1 hm] at hr

theorem conditions_append (ns ms : List Node) :
    conditions (ns ++ ms) = conditions ns ++ conditions ms :=
  List.filter_append ..

theorem conditions_conditions (ns : List Node) : conditions (conditions ns) = conditions ns := by
  simp [conditions]

theorem conditions_eq_self {ns : List Node} (h : ∀ n ∈ ns, n.isGroupBy = false) :
    conditions ns = ns :=
  List.filter_eq_self.2 fun n hn => by rw [h n hn]; rfl

theorem filter_isGroupBy_conditions (ns : List Node) :
    (conditions ns).filter isGroupBy = [] := by
  rw [conditions, List.filter_filter, List.filter_eq_nil_iff]
  intro n _
  cases n.isGroupBy <;> simp

theorem groupingKey?_append_of_not_isGroupBy {ns ms : List Node}
    (h : ∀ n ∈ ms, n.isGroupBy = false) : groupingKey? (ns ++ ms) = groupingKey? ns := by
  have hms : ms.filter isGroupBy = [] := List.filter_eq_nil_iff.2 fun n hn => by simp [h n hn]
  rw [groupingKey?, List.filter_append, hms, List.append_nil, groupingKey?]

theorem groupingKey?_append_groupingColumn (ns : List Node) (key : String) :
    groupingKey? (ns ++ [groupingColumn key]) = some key := by
  have hcolumn : [groupingColumn key].filter isGroupBy = [groupingColumn key] := rfl
  rw [groupingKey?, List.filter_append, hcolumn, List.getLast?_concat]
  rfl

mutual

/-- Every node of a forest but the groups changed by `f`. -/
def mapLeaves (f : Node → Node) : Node → Node
  | group l ns => group l (mapLeavesList f ns)
  | n => f n

def mapLeavesList (f : Node → Node) : List Node → List Node
  | [] => []
  | n :: ns => mapLeaves f n :: mapLeavesList f ns

end

theorem mapLeavesList_eq (f : Node → Node) (ns : List Node) :
    mapLeavesList f ns = ns.map (mapLeaves f) := by
  induction ns with
  | nil => rfl
  | cons n ns ih => rw [mapLeavesList, ih, List.map_cons]

/-- A change of leaves that leaves the conjunctions and whether a node is written. -/
structure KeepsShape (f : Node → Node) : Prop where
  conjunction : ∀ n, (f n).conjunction = n.conjunction
  renders : ∀ n, (f n).renders = n.renders

variable {f : Node → Node}

theorem KeepsShape.mapLeaves (hf : KeepsShape f) : KeepsShape (mapLeaves f) := by
  constructor
  · intro n
    cases n with
    | group l ns => rfl
    | scalar | range | list | marker => exact hf.conjunction _
  · intro n
    induction n using inductionOn with
    | group l ns ih =>
      rw [Node.mapLeaves, Node.renders, Node.renders, anyRenders_eq, anyRenders_eq,
        mapLeavesList_eq, List.any_map]
      rw [Bool.eq_iff_iff, List.any_eq_true, List.any_eq_true]
      exact exists_congr fun n => and_congr_right fun hn => by rw [Function.comp, ih n hn]
    | scalar | range | list | marker => exact hf.renders _

theorem KeepsShape.isGroupBy (hf : KeepsShape f) (n : Node) : (f n).isGroupBy = n.isGroupBy := by
  rw [Node.isGroupBy, hf.conjunction, Node.isGroupBy]

theorem KeepsShape.conditions (hf : KeepsShape f) (ns : List Node) :
    conditions (ns.map f) = (conditions ns).map f := by
  have hc : (fun n : Node => !n.isGroupBy) ∘ f = fun n => !n.isGroupBy :=
    funext fun n => by rw [Function.comp, hf.isGroupBy]
  rw [Node.conditions, List.filter_map, hc]
  rfl

def withKey : Node → String → Node
  | scalar l v, k => scalar { l with key := k } v
  | range l a b, k => range { l with key := k } a b
  | list l vs, k => list { l with key := k } vs
  | group l ns, k => group { l with key := k } ns
  | marker l, k => marker { l with key := k }

def rename (g : String → String) : Node → Node := mapLeaves fun n => n.withKey (g n.key)

theorem keepsShape_withKey (g : String → String) : KeepsShape fun n => n.withKey (g n.key) := by
  constructor <;> intro n <;> cases n <;> rfl

end Node
end FilterSql
