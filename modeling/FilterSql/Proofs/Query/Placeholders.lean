import FilterSql.Proofs.Query.GroupedCount
import FilterSql.Proofs.Query.Marks
/-!
# Placeholders and bound values

The three statements of a query share one list of bound values. Each of them has as many
placeholders outside of its literals as the list has values, and the values are those of the
leaves that are written, from left to right.
-/
namespace FilterSql

open Sql Node

namespace Node

/-- The leaves of a forest that are written, from left to right. -/
def writtenLeaves (ns : List Node) : List Node :=
  (subnodesList ns).filter fun n => n.renders && n.children?.isNone

/-- The values that a leaf binds: its one value, its lower and its upper bound, or none. -/
def boundValues : Node → List Value
  | scalar _ v => [v.toBind]
  | range _ min max => [min.toBind, max.toBind]
  | list .. | group .. | marker _ => []

theorem bindsList_eq_flatMap (ns : List Node) :
    bindsList ns = (writtenLeaves ns).flatMap boundValues := by
  have hlist (ms : List Node) (h : ∀ m ∈ ms, m.binds = (writtenLeaves [m]).flatMap boundValues) :
      bindsList ms = (writtenLeaves ms).flatMap boundValues := by
    induction ms with
    | nil => rfl
    | cons m ms ih =>
      rw [List.forall_mem_cons] at h
      rw [bindsList, h.1, ih h.2, writtenLeaves, writtenLeaves, writtenLeaves, subnodesList,
        subnodesList, subnodesList, List.append_nil, List.filter_append, List.flatMap_append]
  -- a group is no leaf, so its children alone count
  have hnode (n : Node) : n.binds = (writtenLeaves [n]).flatMap boundValues := by
    induction n using inductionOn with
    | scalar l v => rfl
    | range l a b => rfl
    | list l vs => cases vs <;> rfl
    | group l ms ih =>
      have hgroup : writtenLeaves [group l ms] = writtenLeaves ms := by
        rw [writtenLeaves, subnodesList, subnodesList, List.append_nil, subnodes,
          List.filter_cons_of_neg (by simp [children?])]
        rfl
      rw [hgroup, binds]
      exact hlist ms ih
    | marker l => rfl
  exact hlist ns fun n _ => hnode n

theorem binds_of_leaf {n : Node} (h : n.children? = none) : n.binds = n.boundValues := by
  cases n with
  | group l ns => cases h
  | scalar | range | list | marker => rfl

end Node

namespace Criteria

variable {c : Criteria} {provider : Provider} {q : Query}

theorem groupingKey?_mem {ns : List Node} {key : String} (h : groupingKey? ns = some key) :
    ∃ n ∈ ns, n.key = key := by
  obtain ⟨n, hn, hk⟩ := Option.map_eq_some_iff.1 h
  exact ⟨n, (List.mem_filter.1 (List.mem_of_getLast? hn)).1, hk⟩

theorem wellQuoted_leaf (hc : c.Unmarked isMark) (hl : c.HasUniformLists) {n : Node}
    (hn : n ∈ subnodesList (conditions c.nodes)) (hleaf : n.children? = none) :
    WellQuoted n.boundValues.length n.sql.toList := by
  have hstored := mem_subnodesList_of_conditions hn
  rw [← binds_of_leaf hleaf]
  exact isTally_wellQuoted.leaf hleaf (hc.keys n hstored) fun l vs hvs => hl l vs (hvs ▸ hstored)

theorem placeholders_resolve_template {f : String → Option String} {n : Nat}
    (hf : Yields (Lacks isMark) f) (h : WellQuoted n c.tail.toList) :
    placeholders (resolve f c.template) = n := by
  have hquote : Yields (Lacks isQuote) f := fun s t hs ht =>
    (hf s t hs ht).mono fun _ => isMark_of_isQuote
  have hselect : WellQuoted 0 (replaced f "SELECT".toList ++ [' ']) :=
    (WellQuoted.of_lacks (lacks_replaced_select hf fun _ h => h)).append (.of_lacks (by decide))
  have htail : WellQuoted n (resolveFrom f false c.tail.toList) :=
    h.congr (filter_resolveFrom hf (fun _ h => h) _)
  have hkind : ¬ TokenKind.tag = .literal := TokenKind.noConfusion
  have htag : projectionTag.toList.count '?' = 0 := by decide
  have hs := hselect.unquoted.2
  have ht := htail.unquoted.2
  rw [unquoted] at hs ht
  rw [placeholders, unquoted, template, tokens_resolve_template hquote, List.flatMap_append,
    List.flatMap_cons, hs, ht, List.count_append, List.count_append, hselect.count, htail.count,
    if_neg hkind, htag, Nat.zero_add, Nat.zero_add]

end Criteria

def orderEntity : Entity :=
  { name := "Order", table := "t_order"
    fields := .ofList [("id", ⟨"order_id", .int, false⟩), ("note", ⟨"note_text", .text, false⟩)] }

def orderCriteria : Criteria :=
  { entity := orderEntity
    nodes := [.range ⟨.and, .between, "id"⟩ (.int 1) (.int 9),
      .group ⟨.or, .group, ""⟩ [.list ⟨.and, .among, "note"⟩ [.text "why?", .int 3],
        .scalar ⟨.or, .like, "Order.note"⟩ (.text "%it's%")],
      .groupingColumn "Order.id"]
    orderBy := some ⟨"id", .desc⟩ }

theorem orderCriteria_unmarked : orderCriteria.Unmarked isMark := by
  refine ⟨?_, fun o ho => ?_, nofun, nofun, by decide⟩
  · simp only [orderCriteria, subnodesList, subnodes, List.cons_append, List.nil_append,
      List.forall_mem_cons]
    decide
  · obtain rfl := Option.some.inj ho
    decide

theorem orderCriteria_lists : orderCriteria.HasUniformLists := by
  intro l vs h
  obtain ⟨-, rfl⟩ : l = ⟨.and, .among, "note"⟩ ∧ vs = [.text "why?", .int 3] := by
    simpa [orderCriteria, subnodesList, subnodes, groupingColumn] using h
  exact Or.inr rfl

theorem orderRegistry_unmarked :
    (Registry.ofList [orderEntity]).resolve.NamesSatisfy (Lacks isMark) :=
  Registry.namesSatisfy_singleton (.of_entries (by decide) (by decide))

end FilterSql
