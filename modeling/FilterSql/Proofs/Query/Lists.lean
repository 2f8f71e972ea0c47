import FilterSql.Proofs.Criteria.Run
import FilterSql.Proofs.Query.Places
/-!
# Lists in statements

A list whose first value is no number is written with quotes. Wherever it stands in the forest of a
criteria, its values are read back from the resolved template as one literal each, whatever their
texts are, as long as the names have no quotes or dollar signs and no other list is written partly
without quotes.
-/
namespace FilterSql

open Sql Text Node

/-- The text `s` stands in `t` behind a balanced text. -/
def Within (s t : String) : Prop := ∃ a b, t = a ++ s ++ b ∧ Balanced a.toList

namespace Criteria

variable {c : Criteria}

theorem within_tail (hc : c.Unmarked isQuote) (hl : c.HasUniformLists) {m : Node}
    (hm : m ∈ subnodesList (conditions c.nodes)) (hr : m.renders = true) :
    Within m.sql c.tail := by
  obtain ⟨a, b, htail, ha, -⟩ := behind_tail hc hl hm hr
  exact ⟨a, b, htail, ha⟩

/-- A list in quotes splits the text around it, before and after names are resolved. -/
theorem tokens_resolveFrom_list {f : String → Option String} (hf : Yields (Lacks isQuote) f)
    {vs : List Value} (hvs : vs.head?.any Value.isNumeric = false) (hne : vs ≠ [])
    {a : List Char} (ha : Balanced a) (hopen : a.getLast? = some '(') (b : List Char) :
    tokens (resolveFrom f false (a ++ ((listLiterals vs).toList ++ ')' :: b))) =
      tokens (resolveFrom f false a) ++
        (Value.listTokens vs ++ tokens (resolveFrom f false (')' :: b))) := by
  have hclose : resolveFrom f false (')' :: b) = ')' :: resolveFrom f false b :=
    resolveFrom_plain (p := [')']) (by decide) b
  have hsplit := tokens_append_of_isComplete ha.unquoted.1
    (Value.startsMark_listLiterals hvs hne (')' :: b)) (fun _ => by rw [hopen]; nofun)
  have hra : Balanced (resolveFrom f false a) :=
    ha.congr (filter_resolveFrom hf (fun _ => isMark_of_isQuote) a)
  have hlast : (resolveFrom f false a).getLast? = some '(' :=
    getLast?_resolveFrom hopen (by decide) (by decide)
  rw [resolveFrom_append hsplit, Value.resolveFrom_listLiterals hvs hne _ (by simp), hclose,
    tokens_append_of_isComplete hra.unquoted.1 (Value.startsMark_listLiterals hvs hne _)
      (fun _ => by rw [hlast]; nofun),
    Value.tokens_listLiterals hvs (by simp) hne]

end Criteria

namespace Value

def isText : Value → Bool
  | text _ | timestamp _ | choice _ => true
  | _ => false

theorem IsUniform.of_isText {vs : List Value} (h : IsUniform vs) {v : Value} (hv : v ∈ vs)
    (ht : v.isText = true) : vs.head?.any isNumeric = false := by
  rcases h with h | h
  · have hn := h v hv
    cases v <;> simp [isText, isNumeric] at ht hn
  · exact h

theorem literalToken_content (v : Value) :
    ∃ s, v.literalToken = ⟨.literal, '\'' :: (s ++ ['\''])⟩ ∧ undouble s = v.display.toList :=
  ⟨doubleQuotes v.display.toList, by rw [literalToken, toList_literal_quoted],
    undouble_doubleQuotes _⟩

end Value

namespace Criteria

variable {c : Criteria}

theorem lacks_front {k : String} (h : Lacks isQuote k.toList) (p : Predicate) :
    Lacks isQuote (k ++ " " ++ p.sql ++ " (").toList := by
  have hpredicate : Lacks isQuote p.sql.toList := by cases p <;> decide
  rw [String.toList_append, String.toList_append, String.toList_append]
  exact ((h.append (by decide)).append hpredicate).append (by decide)

end Criteria

def itemEntity : Entity :=
  { name := "Item", table := "t_item"
    fields := .ofList [("id", ⟨"item_id", .int, false⟩), ("o'clock", ⟨"hour", .text, false⟩),
      ("in$\x7b", ⟨"stock", .text, false⟩)] }

def itemsAmong (property : String) (values : List Value) : Criteria :=
  ((Criteria.plain itemEntity).runAll [.step (.filter .and ⟨property, .among false values⟩)]).1

def quotedItems : Criteria := itemsAmong "id" [.text "it's (?)", .int 2]

theorem quotedItems_nodes : quotedItems.nodes =
    [.list ⟨.and, .among, "id"⟩ [.text "it's (?)", .int 2]] := rfl

theorem quotedItems_unmarked : quotedItems.Unmarked isQuote := by
  refine ⟨?_, nofun, nofun, nofun, by decide⟩
  rw [quotedItems_nodes]
  simp only [subnodesList, subnodes, List.append_nil, List.forall_mem_singleton]
  decide

theorem quotedItems_lists : quotedItems.HasUniformLists := by
  intro l vs h
  rw [quotedItems_nodes] at h
  obtain ⟨-, rfl⟩ : l = ⟨.and, .among, "id"⟩ ∧ vs = [.text "it's (?)", .int 2] := by
    simpa [subnodesList, subnodes] using h
  exact Or.inr rfl

theorem itemRegistry_unmarked :
    (Registry.ofList [itemEntity]).resolve.NamesSatisfy (Lacks isQuote) :=
  Registry.namesSatisfy_singleton (.of_entries (by decide) (by decide))

def Node.listValues : Node → List Value
  | list _ vs => vs
  | scalar .. | range .. | group .. | marker _ => []

/-- Every text in a list is one of the literals of the template. -/
def Criteria.QuotesTexts (c : Criteria) (q : Query) : Prop :=
  ∀ n ∈ subnodesList (conditions c.nodes), ∀ v ∈ n.listValues, v.isText = true →
    v.literalToken ∈ tokenize q.template

instance (c : Criteria) (q : Query) : Decidable (c.QuotesTexts q) :=
  inferInstanceAs (Decidable (∀ n ∈ subnodesList (conditions c.nodes), ∀ v ∈ n.listValues,
    v.isText = true → v.literalToken ∈ tokenize q.template))

end FilterSql
