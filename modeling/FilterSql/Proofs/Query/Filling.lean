import FilterSql.Proofs.Criteria.Keys
import FilterSql.Proofs.Query.Clauses
import FilterSql.Proofs.Query.Template
import FilterSql.Proofs.Value.Literal
/-!
# Filling in the select list

The tag stands for the select list once, but filling it in replaces every occurrence of it. It has
no blanks, commas, quotes or parentheses, so it cannot reach over the end of a key or of a literal:
without the tag in any of these only the select list is filled in.
-/
namespace FilterSql

open Sql Text Node

variable {new : List Char}

theorem unreplaced_compositional :
    Compositional fun _ s _ => Unreplaced projectionTag.toList new s := by
  refine ⟨.empty, .append, unreplaced_of_not_mem (by decide), unreplaced_of_not_mem (by decide),
    fun c => ?_, fun p => ?_, unreplaced_of_not_mem (by decide), unreplaced_of_not_mem (by decide)⟩
  · cases c <;> exact unreplaced_of_not_mem (by decide)
  · cases p <;> exact unreplaced_of_not_mem (by decide)

theorem not_infix_tag {s : List Char} (h : '$' ∉ s) : ¬ projectionTag.toList <:+: s :=
  fun htag => h (htag.subset (by decide))

/-- The tag cannot reach over a blank. -/
theorem unreplaced_blank {s : String} (h : ¬ projectionTag.toList <:+: s.toList) :
    Unreplaced projectionTag.toList new (s ++ " ") := by
  intro r
  have hblank : Unreplaced projectionTag.toList new " " := unreplaced_of_not_mem (by decide)
  rw [String.toList_append, List.append_assoc, List.append_assoc, ← hblank]
  exact replace_append_of_stop (by decide) h r

theorem replace_literals {quoted : Bool} {vs : List Value}
    (h : ∀ v ∈ vs, ¬ projectionTag.toList <:+: (v.literal quoted).toList) (r : List Char) :
    replace projectionTag.toList new
        ([','].intercalate (vs.map fun v => (v.literal quoted).toList) ++ ')' :: r) =
      [','].intercalate (vs.map fun v => (v.literal quoted).toList) ++
        replace projectionTag.toList new (')' :: r) := by
  induction vs with
  | nil => rfl
  | cons v vs ih =>
    rw [List.forall_mem_cons] at h
    cases vs with
    | nil =>
      rw [List.map_singleton, List.intercalate_singleton]
      exact replace_append_of_stop (by decide) h.1 r
    | cons w vs =>
      have hcomma (t : List Char) : replace projectionTag.toList new (',' :: t) =
          ',' :: replace projectionTag.toList new t :=
        unreplaced_of_not_mem (s := ",") (by decide) t
      rw [Value.intercalate_literals_cons, List.append_assoc, List.append_assoc, List.cons_append,
        replace_append_of_stop (by decide) h.1, hcomma, ih h.2]
      rfl

theorem unreplaced_literals {vs : List Value}
    (h : ∀ v ∈ vs,
      ¬ projectionTag.toList <:+: (v.literal !(vs.head?.any Value.isNumeric)).toList) :
    Unreplaced projectionTag.toList new (listLiterals vs ++ ")") := by
  intro r
  have hclose : Unreplaced projectionTag.toList new ")" := unreplaced_of_not_mem (by decide)
  rw [String.toList_append, Value.toList_listLiterals, List.append_assoc, List.append_assoc,
    ← hclose]
  exact replace_literals h r

theorem not_infix_literal {vs : List Value} (hvs : Value.IsLexical vs)
    (h : ∀ v ∈ vs, ¬ projectionTag.toList <:+: (v.literal true).toList) :
    ∀ v ∈ vs, ¬ projectionTag.toList <:+: (v.literal !(vs.head?.any Value.isNumeric)).toList := by
  intro v hv
  cases hq : vs.head?.any Value.isNumeric with
  | false => exact h v hv
  | true =>
    rcases hvs with hvs | hvs
    · obtain ⟨n, rfl⟩ := hvs v hv
      refine not_infix_tag fun hd => ?_
      rcases Value.chars_display_int n _ hd with hc | hc <;> exact absurd hc (by decide)
    · rw [hq] at hvs
      cases hvs

namespace Criteria

variable {c : Criteria}

/-- The tag is in none of the names that a criteria mentions and in none of its literals. -/
structure Untagged (c : Criteria) : Prop where
  keys : ∀ m ∈ subnodesList (conditions c.nodes), m.children? = none →
    ¬ projectionTag.toList <:+: m.key.toList
  lists : ∀ l vs, Node.list l vs ∈ subnodesList (conditions c.nodes) → ∀ v ∈ vs,
    ¬ projectionTag.toList <:+: (v.literal !(vs.head?.any Value.isNumeric)).toList
  orderBy : ∀ o, c.orderBy = some o → ¬ projectionTag.toList <:+: o.property.toList
  source : ¬ projectionTag.toList <:+: (c.source.getD c.entity.table).toList

theorem Untagged.orderClause (h : c.Untagged) :
    Unreplaced projectionTag.toList new c.orderClause := by
  rw [Criteria.orderClause]
  cases ho : c.orderBy with
  | none => exact .empty
  | some o =>
    have hdirection : Unreplaced projectionTag.toList new o.direction.sql := by
      cases o.direction <;> exact unreplaced_of_not_mem (by decide)
    have hby : Unreplaced projectionTag.toList new " ORDER BY " :=
      unreplaced_of_not_mem (by decide)
    have hclause := (hby.append (unreplaced_blank (h.orderBy o ho))).append hdirection
    rwa [← String.append_assoc] at hclause

theorem Untagged.whereClause (h : c.Untagged) :
    Unreplaced projectionTag.toList new (whereClause c.nodes) := by
  exact unreplaced_compositional.whereClause_rename (g := id) (unreplaced_of_not_mem (by decide))
    (fun m hm hleaf => unreplaced_blank (h.keys m hm hleaf))
    fun l vs hvs => unreplaced_literals (h.lists l vs hvs)

theorem Untagged.replace_tail (h : c.Untagged) :
    replace projectionTag.toList new c.tail.toList = c.tail.toList := by
  have hclauses : Unreplaced projectionTag.toList new (Node.whereClause c.nodes ++ c.orderClause) :=
    h.whereClause.append h.orderClause
  have hrest := hclauses.replace_eq
  have hword : Unreplaced projectionTag.toList new " FROM " := unreplaced_of_not_mem (by decide)
  rw [toList_tail, hword]
  congr 1
  rcases c.tail_cases with hnil | ⟨w, -, t, hblank⟩
  · rw [hnil, String.toList_empty, List.append_nil]
    exact replace_of_not_infix h.source
  · rw [hblank, String.toList_append] at hrest ⊢
    exact (replace_append_of_stop (m := ' ') (by decide) h.source _).trans (congrArg _ hrest)

theorem Untagged.fillTemplate_eq (h : c.Untagged) (selectList : String) :
    fillTemplate c.template selectList = "SELECT " ++ selectList ++ c.tail := by
  apply String.toList_inj.1
  rw [toList_fillTemplate, h.replace_tail, String.toList_append, String.toList_append,
    List.append_assoc]

/-- Every list can be written without references, and none of its literals has the tag inside. -/
def HasLexicalLists (c : Criteria) : Prop :=
  ∀ l vs, Node.list l vs ∈ subnodesList c.nodes →
    Value.IsLexical vs ∧ ∀ v ∈ vs, ¬ projectionTag.toList <:+: (v.literal true).toList

theorem Keyed.untagged {K : String → Prop} (hkeys : Keyed K c) (hK : ∀ p, K p → IsPath p.toList)
    (hl : HasLexicalLists c) (hs : IsPath (c.source.getD c.entity.table).toList) : c.Untagged := by
  have hpath {p : List Char} (hp : IsPath p) : ¬ projectionTag.toList <:+: p :=
    not_infix_tag fun hd => absurd (hp.chars hd) (by decide)
  refine ⟨fun m hm hleaf => hpath (hK _ (hkeys.of_mem_conditions hm hleaf)), fun l vs hvs => ?_,
    fun o ho => hpath (hK _ (hkeys.orderBy o ho)), hpath hs⟩
  obtain ⟨hlexical, htag⟩ := hl l vs (mem_subnodesList_of_conditions hvs)
  exact not_infix_literal hlexical htag

end Criteria

end FilterSql
