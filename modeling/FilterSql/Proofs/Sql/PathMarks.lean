import FilterSql.Proofs.Sql.Unquoted
/-!
# Paths and their marks

Of a text only its references are replaced, so two replacements that agree on them resolve the text
alike. The paths of a text, each with the mark that says whether it is a reference, are gathered
from its pieces in the same way as the text is resolved.
-/
namespace FilterSql.Sql

variable {f g : String → Option String} {aliased : Bool}

def pathMark (m : Bool × Token) : List (Bool × Token) := if m.2.kind = .path then [m] else []

/-- The paths of a text with their marks. -/
def pathMarks (aliased : Bool) (s : List Char) : List (Bool × Token) :=
  gather pathMark aliased (tokens s)

theorem additive_pathMark : Additive pathMark := ⟨rfl, fun _ _ => rfl⟩

@[simp] theorem pathMarks_nil : pathMarks aliased [] = [] := by simp [pathMarks]

theorem pathMarks_plain {p : List Char} (hp : p.all isPlain = true) (r : List Char) :
    pathMarks aliased (p ++ r) = pathMarks (aliased && p.all Text.isBlank) r :=
  gather_plain additive_pathMark hp r

theorem pathMarks_path {p r : List Char} (hp : IsPath p) (hr : continuesPath r = false) :
    pathMarks aliased (p ++ r) =
      (!aliased && !isAsWord p, ⟨.path, p⟩) :: pathMarks (!aliased && isAsWord p) r :=
  gather_path hp hr

theorem pathMarks_append_blank {s : List Char} (hs : Lacks isQuote s) (r : List Char) :
    pathMarks aliased (s ++ ' ' :: r) =
      pathMarks aliased s ++ pathMarks (aliasedAfter aliased (tokens s)) (' ' :: r) :=
  gather_append_of_closesBefore additive_pathMark (.of_lacks_quotes hs r)

theorem mem_of_mem_gather {ts : List Token} {m : Bool × Token}
    (h : m ∈ gather pathMark aliased ts) : m.2 ∈ ts ∧ m.2.kind = .path := by
  induction ts generalizing aliased with
  | nil => cases h
  | cons t ts ih =>
    rw [gather_cons, List.mem_append] at h
    rcases h with h | h
    · rw [pathMark] at h
      split at h
      next hk =>
        obtain rfl := List.mem_singleton.1 h
        exact ⟨List.mem_cons_self, hk⟩
      next => cases h
    · exact ⟨List.mem_cons_of_mem t (ih h).1, (ih h).2⟩

theorem exists_mem_gather {ts : List Token} {t : Token} (ht : t ∈ ts) (hk : t.kind = .path) :
    ∃ b, (b, t) ∈ gather pathMark aliased ts := by
  induction ts generalizing aliased with
  | nil => cases ht
  | cons u ts ih =>
    rw [gather_cons]
    rcases List.mem_cons.1 ht with rfl | ht
    · rw [pathMark, if_pos hk]
      exact ⟨_, List.mem_append_left _ (List.mem_singleton_self _)⟩
    · obtain ⟨b, hb⟩ : ∃ b, (b, t) ∈ gather pathMark (u.awaitsAlias aliased) ts := ih ht
      exact ⟨b, List.mem_append_right _ hb⟩

theorem mem_tokens_of_mem_pathMarks {s : List Char} {m : Bool × Token}
    (h : m ∈ pathMarks aliased s) : m.2 ∈ tokens s ∧ m.2.kind = .path := mem_of_mem_gather h

theorem exists_mem_pathMarks {s : List Char} {t : Token} (ht : t ∈ tokens s)
    (hk : t.kind = .path) : ∃ b, (b, t) ∈ pathMarks aliased s := exists_mem_gather ht hk

theorem resolveFrom_congr {s : List Char}
    (h : ∀ m ∈ pathMarks aliased s, m.1 = true → f m.2.text = g m.2.text) :
    resolveFrom f aliased s = resolveFrom g aliased s := by
  have htokens {ts : List Token} {b : Bool}
      (h : ∀ m ∈ gather pathMark b ts, m.1 = true → f m.2.text = g m.2.text) :
      resolveTokens f b ts = resolveTokens g b ts := by
    induction ts generalizing b with
    | nil => rfl
    | cons t ts ih =>
      rw [gather_cons, List.forall_mem_append] at h
      have hreference : replaceReference f (t.isReference b, t) =
          replaceReference g (t.isReference b, t) := by
        cases hb : t.isReference b with
        | false => rfl
        | true =>
          have hk : t.kind = .path := by
            simp only [Token.isReference, Bool.and_eq_true, beq_iff_eq] at hb
            exact hb.1.1
          have ht := h.1
          rw [hb, pathMark, if_pos hk] at ht
          rw [replaceReference, replaceReference, ht _ (List.mem_singleton_self _) rfl]
      rw [resolveTokens_cons, resolveTokens_cons, hreference, ih h.2]
  exact htokens h

/-- In front of a text all of whose paths satisfy `P` with their marks, those of `s` do so too. -/
def Marks (P : Bool × Token → Prop) (s : String) : Prop :=
  ∀ r, (∀ m ∈ pathMarks false r, P m) → ∀ m ∈ pathMarks false (s.toList ++ r), P m

namespace Marks

variable {P : Bool × Token → Prop}

theorem empty : Marks P "" := fun _ h => h

theorem append {s t : String} (hs : Marks P s) (ht : Marks P t) : Marks P (s ++ t) := by
  intro r hr
  rw [String.toList_append, List.append_assoc]
  exact hs _ (ht r hr)

theorem plain {s : String} (h : s.toList.all isPlain = true) : Marks P s := by
  intro r hr
  rw [pathMarks_plain h, Bool.false_and]
  exact hr

theorem reference {p : String} (hp : IsPath p.toList) (ha : isAsWord p.toList = false)
    (h : P (true, ⟨.path, p.toList⟩)) : Marks P (p ++ " ") := by
  intro r hr
  have hblank : (" " : String).toList = [' '] := rfl
  rw [String.toList_append, List.append_assoc, hblank, pathMarks_path hp rfl, ha,
    pathMarks_plain (by decide)]
  exact List.forall_mem_cons.2 ⟨h, hr⟩

end Marks

end FilterSql.Sql
