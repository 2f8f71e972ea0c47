import FilterSql.Proofs.Sql.PathMarks
/-!
# Texts that open

Behind some texts reading goes on as at the start of a text: no path, literal or tag reaches over
their end, and no alias is awaited. A balanced text is of this kind if it ends in an opening bracket,
in a comma and a blank, or in a word between blanks other than `AS`. A path behind it is read by
itself, and is a reference.
-/
namespace FilterSql.Sql

variable {f : String → Option String} {s t : List Char}

/-- What stands behind `s` is read as at the start of a text, whatever was awaited before. -/
def Frees (s : List Char) : Prop :=
  ∀ (β : Type) (g : Bool × Token → List β), Additive g → ∀ aliased r,
    gather g aliased (tokens (s ++ r)) = gather g aliased (tokens s) ++ gather g false (tokens r)

namespace Frees

theorem plain (hs : s.all isPlain = true) (hblank : s.all Text.isBlank = false) : Frees s := by
  intro β g hg aliased r
  have hself : gather g aliased (tokens s) = g (false, ⟨.other, s⟩) := by
    have hplain : gather g aliased (tokens (s ++ [])) = _ := gather_plain hg hs []
    simpa using hplain
  rw [gather_plain hg hs, hself, hblank, Bool.and_false]

theorem word {w : List Char} (hw : isName w = true) (has : isAsWord w = false) :
    Frees (w ++ [' ']) := by
  intro β g hg aliased r
  have hblank (u : List Char) : gather g false (tokens ([' '] ++ u)) =
      g (false, ⟨.other, [' ']⟩) ++ gather g false (tokens u) := gather_plain hg (by decide) u
  have hself : gather g false (tokens [' ']) = g (false, ⟨.other, [' ']⟩) := by
    simpa using hblank []
  rw [List.append_assoc, gather_path (.name hw) rfl, gather_path (.name hw) rfl, has,
    Bool.and_false, hblank, hself, List.append_assoc]

theorem blank (ht : Frees t) : Frees (' ' :: t) := by
  intro β g hg aliased r
  have hblank (u : List Char) : gather g aliased (tokens (' ' :: u)) =
      g (false, ⟨.other, [' ']⟩) ++ gather g (aliased && [' '].all Text.isBlank) (tokens u) :=
    gather_plain (p := [' ']) hg (by decide) u
  rw [List.cons_append, hblank, hblank, ht _ _ hg, List.append_assoc]

theorem append_left (hs : IsComplete s) {m : Char} (hname : isNameChar m = false)
    (hpoint : m ≠ '.') (hquote : m ≠ '\'') (ht : Frees (m :: t)) : Frees (s ++ m :: t) := by
  intro β g hg aliased r
  rw [List.append_assoc, List.cons_append,
    gather_append_of_isComplete hg hs hname hpoint hquote,
    gather_append_of_isComplete hg hs hname hpoint hquote, ← List.cons_append, ht _ _ hg,
    List.append_assoc]

end Frees

/-- Behind such a text a path is read by itself and is no alias. -/
inductive Opens : List Char → Prop
  | bracket (s : List Char) : Opens (s ++ ['('])
  | comma (s : List Char) : Opens (s ++ [',', ' '])
  | word (s : List Char) {w : List Char} (hw : isName w = true) (has : isAsWord w = false) :
    Opens (s ++ ' ' :: (w ++ [' ']))

theorem Opens.append_left (h : Opens t) (s : List Char) : Opens (s ++ t) := by
  cases h with
  | bracket t =>
    rw [← List.append_assoc]
    exact .bracket _
  | comma t =>
    rw [← List.append_assoc]
    exact .comma _
  | word t hw has =>
    rw [← List.append_assoc]
    exact .word _ hw has

theorem Balanced.of_append (h : Balanced (s ++ t)) (ht : Lacks isQuote t) : Balanced s := by
  have hquote : '\'' ∉ t := fun hc => absurd (ht _ hc) (by decide)
  constructor
  · have hpaired := h.paired
    rwa [inside_append, inside_of_not_mem hquote] at hpaired
  · have hdollar := h.noDollar
    rw [Sql.outside_append, List.mem_append, not_or] at hdollar
    exact hdollar.1

theorem Opens.frees (h : Opens s) (hs : Balanced s) : Frees s := by
  have hcomplete {u v : List Char} (hs : Balanced (u ++ v)) (hv : Lacks isQuote v) :
      IsComplete u := (hs.of_append hv).unquoted.1
  cases h with
  | bracket s =>
    exact .append_left (hcomplete hs (by decide)) (by decide) (by decide) (by decide)
      (.plain (by decide) (by decide))
  | comma s =>
    exact .append_left (hcomplete hs (by decide)) (by decide) (by decide) (by decide)
      (.plain (by decide) (by decide))
  | @word s w hw has =>
    have hlacks : Lacks isQuote (' ' :: (w ++ [' '])) :=
      Lacks.append (s := [' ']) (by decide)
        (((IsPath.name hw).lacks.mono fun _ => isMark_of_isQuote).append (by decide))
    exact .append_left (hcomplete hs hlacks) (by decide) (by decide) (by decide)
      (.blank (.word hw has))

/-- The text `p` stands in `t` behind a text that frees it, and the text behind it does not go on
with a path. -/
def StandsAlone (p t : String) : Prop :=
  ∃ before after, t = before ++ p ++ after ∧ Frees before.toList ∧
    continuesPath after.toList = false

theorem Frees.resolve {before p after : String} (h : Frees before.toList) (hp : IsPath p.toList)
    (has : isAsWord p.toList = false) (hafter : continuesPath after.toList = false) :
    Sql.resolve f (before ++ p ++ after) =
      Sql.resolve f before ++ (f p).getD p ++ Sql.resolve f after := by
  have hreplaced : replaced f p.toList = ((f p).getD p).toList := by
    rw [replaced, String.ofList_toList]
    cases f p <;> rfl
  apply String.toList_inj.1
  have hfree := h _ _ (additive_replaceReference (f := f)) false (p.toList ++ after.toList)
  simp only [← resolveTokens_eq_gather] at hfree
  change resolveFrom f false _ = resolveFrom f false _ ++ resolveFrom f false _ at hfree
  rw [resolveFrom_path hp hafter, has, hreplaced] at hfree
  simp only [String.toList_append, toList_resolve, List.append_assoc]
  exact hfree

theorem Frees.mem_tokenize {before p after : String} (h : Frees before.toList)
    (hp : IsPath p.toList) (hafter : continuesPath after.toList = false) :
    (⟨.path, p.toList⟩ : Token) ∈ tokenize (before ++ p ++ after) := by
  have hfree := h _ _ additive_pathMark false (p.toList ++ after.toList)
  rw [gather_path hp hafter, ← List.append_assoc] at hfree
  have hmem : (true && !isAsWord p.toList, (⟨.path, p.toList⟩ : Token)) ∈
      pathMarks false (before ++ p ++ after).toList := by
    rw [String.toList_append, String.toList_append, pathMarks, hfree]
    simp [pathMark]
  exact (mem_tokens_of_mem_pathMarks hmem).1

end FilterSql.Sql
