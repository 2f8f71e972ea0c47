import FilterSql.Proofs.Query.Words
/-!
# Aliases among words

In a list of words an alias is told from a column by the word in front: the first word of an item
stands behind a comma, and an alias stands behind `AS`. Only the very first item has no comma in
front, and what stands there instead decides whether its column is taken for an alias.
-/
namespace FilterSql

open Sql Text

namespace GroupedCount

structure Item where
  column : List Char
  label : Option (List Char) := none
  deriving Inhabited

/-- A text that is one word for all readers of a select list. -/
structure IsSteady (w : List Char) : Prop extends IsUnbroken w where
  comma : ',' ∉ w
  call : replace ")count".toList ") count".toList w = w

def freeName (n : List Char) : List Char := if n = "count".toList then "_count".toList else n

namespace Item

def words (i : Item) (comma : List Char) : List (List Char) :=
  match i.label with
  | none => [i.column ++ comma]
  | some n => [i.column, "AS".toList, n ++ comma]

def chars (i : Item) : List Char := unwords (i.words [])

/-- The item with the alias `count` renamed, and with a column of this name as well if it is taken
for an alias. -/
def renamed (taken : Bool) (i : Item) : Item where
  column := if taken then freeName i.column else i.column
  label := i.label.map freeName

structure IsSteady (i : Item) : Prop where
  column : GroupedCount.IsSteady i.column
  label : ∀ n, i.label = some n → GroupedCount.IsSteady n

theorem words_ne_nil (i : Item) (comma : List Char) : i.words comma ≠ [] := by
  rw [words]
  cases i.label <;> simp

theorem chars_eq (i : Item) :
    i.chars = i.column ++ (i.label.map (" AS ".toList ++ ·)).getD [] := by
  rw [chars, words]
  cases i.label with
  | none => rw [unwords_singleton]; rfl
  | some n =>
    rw [unwords_cons_cons, unwords_cons_cons, unwords_singleton, List.append_nil]
    rfl

theorem unwords_words (i : Item) (comma : List Char) :
    unwords (i.words comma) = i.chars ++ comma := by
  rw [chars, words, words]
  cases i.label with
  | none => rw [unwords_singleton, unwords_singleton, List.append_nil]
  | some n => simp [unwords_cons_cons, unwords_singleton]

end Item

def listWords : List Item → List (List Char)
  | [] => []
  | [i] => i.words []
  | i :: j :: is => i.words [','] ++ listWords (j :: is)

theorem listWords_ne_nil (i : Item) (is : List Item) : listWords (i :: is) ≠ [] := by
  cases is with
  | nil => exact i.words_ne_nil []
  | cons j is => exact List.append_ne_nil_of_left_ne_nil (i.words_ne_nil _) _

theorem unwords_listWords_cons_cons (i j : Item) (is : List Item) :
    unwords (listWords (i :: j :: is)) =
      i.chars ++ (", ".toList ++ unwords (listWords (j :: is))) := by
  rw [listWords, unwords_append (i.words_ne_nil _) (listWords_ne_nil j is), i.unwords_words,
    List.append_assoc]
  rfl

theorem unwords_listWords (is : List Item) :
    unwords (listWords is) = ", ".toList.intercalate (is.map Item.chars) := by
  induction is with
  | nil => rfl
  | cons i is ih =>
    cases is with
    | nil => exact List.intercalate_singleton.symm
    | cons j is =>
      rw [unwords_listWords_cons_cons, ih, ← List.append_assoc]
      exact List.intercalate_cons_cons.symm

/-- A steady word with or without a comma behind it. -/
def IsListWord (w : List Char) : Prop :=
  ∃ v comma, w = v ++ comma ∧ IsSteady v ∧ (comma = [] ∨ comma = [','])

theorem isListWord_of_mem {is : List Item} (h : ∀ i ∈ is, i.IsSteady) {w : List Char}
    (hw : w ∈ listWords is) : IsListWord w := by
  have has : IsSteady "AS".toList := ⟨⟨by decide, by decide⟩, by decide, by decide⟩
  have hitem {i : Item} (hi : i.IsSteady) {comma : List Char} (hc : comma = [] ∨ comma = [','])
      (hw : w ∈ i.words comma) : IsListWord w := by
    rw [Item.words] at hw
    cases hl : i.label with
    | none =>
      rw [hl, List.mem_singleton] at hw
      exact ⟨i.column, comma, hw, hi.column, hc⟩
    | some n =>
      simp only [hl, List.mem_cons, List.not_mem_nil, or_false] at hw
      rcases hw with rfl | rfl | rfl
      · exact ⟨i.column, [], (List.append_nil _).symm, hi.column, .inl rfl⟩
      · exact ⟨"AS".toList, [], rfl, has, .inl rfl⟩
      · exact ⟨n, comma, rfl, hi.label n hl, hc⟩
  induction is with
  | nil => cases hw
  | cons i is ih =>
    rw [List.forall_mem_cons] at h
    cases is with
    | nil => exact hitem h.1 (.inl rfl) hw
    | cons j is =>
      rcases List.mem_append.1 hw with hw | hw
      · exact hitem h.1 (.inr rfl) hw
      · exact ih h.2 hw

theorem takeComma_append {w comma : List Char} (hw : ',' ∉ w) (hc : comma = [] ∨ comma = [',']) :
    takeComma (w ++ comma) = (w, comma) := by
  rcases hc with rfl | rfl
  · rw [List.append_nil, takeComma, if_neg]
    exact fun h => hw (List.mem_of_getLast? h)
  · rw [takeComma, if_pos List.getLast?_concat, List.dropLast_concat]

theorem renameWord_append {w comma : List Char} (hw : ',' ∉ w) (hc : comma = [] ∨ comma = [','])
    (previous : List Char) :
    renameWord (some previous) (w ++ comma) =
      (if precedesAlias previous then freeName w else w) ++ comma := by
  rw [renameWord, takeComma_append hw hc]
  simp only [Option.any_some, Bool.and_eq_true, decide_eq_true_eq]
  cases precedesAlias previous with
  | false => simp only [Bool.false_eq_true, and_false, if_false]
  | true =>
    simp only [and_true, if_true]
    rw [freeName]
    split <;> rfl

theorem renameWords_append (previous : List Char) (ws vs : List (List Char)) :
    renameWords (some previous) (ws ++ vs) = renameWords (some previous) ws ++
      renameWords (some (ws.getLast?.getD previous)) vs := by
  induction ws generalizing previous with
  | nil => rfl
  | cons w ws ih =>
    rw [List.cons_append, renameWords, renameWords, ih, List.cons_append, List.getLast?_cons]
    rfl

theorem renameWords_words {i : Item} (hi : i.IsSteady) {comma : List Char}
    (hc : comma = [] ∨ comma = [',']) (previous : List Char) :
    renameWords (some previous) (i.words comma) =
      (i.renamed (precedesAlias previous)).words comma := by
  have halone : renameWord (some previous) i.column =
      if precedesAlias previous then freeName i.column else i.column := by
    simpa using renameWord_append hi.column.comma (.inl rfl) previous
  rw [Item.words, Item.words, Item.renamed]
  cases hl : i.label with
  | none => exact congrArg (· :: []) (renameWord_append hi.column.comma hc previous)
  | some n =>
    have has : renameWord (some i.column) "AS".toList = "AS".toList := by
      rw [renameWord]
      rfl
    have hlabel : renameWord (some "AS".toList) (n ++ comma) = freeName n ++ comma := by
      rw [renameWord_append (hi.label n hl).comma hc, if_pos (by decide)]
    simp only [renameWords, halone, has, hlabel, Option.map_some]

theorem renameWords_listWords {i : Item} {is : List Item} (h : ∀ j ∈ i :: is, j.IsSteady)
    (previous : List Char) :
    renameWords (some previous) (listWords (i :: is)) =
      listWords (i.renamed (precedesAlias previous) :: is.map (Item.renamed false)) := by
  induction is generalizing i previous with
  | nil => exact renameWords_words (h i List.mem_cons_self) (.inl rfl) previous
  | cons j is ih =>
    rw [List.forall_mem_cons] at h
    have hcomma : precedesAlias ((i.words [',']).getLast?.getD previous) = false := by
      rw [Item.words]
      cases i.label <;> simp [precedesAlias]
    rw [listWords, renameWords_append, renameWords_words h.1 (.inr rfl), ih h.2, hcomma,
      List.map_cons, listWords]

theorem IsListWord.replace_eq {w : List Char} (h : IsListWord w) :
    replace ")count".toList ") count".toList w = w := by
  obtain ⟨v, comma, rfl, hv, rfl | rfl⟩ := h
  · rw [List.append_nil, hv.call]
  · rw [replace_append_stop (by decide), hv.call]
    rfl

theorem IsListWord.isUnbroken {w : List Char} (h : IsListWord w) : IsUnbroken w := by
  obtain ⟨v, comma, rfl, hv, hc⟩ := h
  refine ⟨List.append_ne_nil_of_left_ne_nil hv.ne_nil _, hv.blank.append ?_⟩
  rcases hc with rfl | rfl <;> decide

section

variable {s : List Char} {i : Item} {is : List Item} (hs : IsSteady s)
  (h : ∀ j ∈ i :: is, j.IsSteady)
include hs h

theorem isUnbroken_of_mem_select {w : List Char} (hw : w ∈ s :: listWords (i :: is)) :
    IsUnbroken w := by
  rcases List.mem_cons.1 hw with rfl | hw
  · exact hs.toIsUnbroken
  · exact (isListWord_of_mem h hw).isUnbroken

/-- In a select list behind a word the aliases are renamed, and the first column if this word lets
an alias follow. -/
theorem renameAliases_select :
    renameAliases (unwords (s :: listWords (i :: is))) =
      unwords (s :: listWords (i.renamed (precedesAlias s) :: is.map (Item.renamed false))) := by
  have hwords : (s :: listWords (i :: is)).map (replace ")count".toList ") count".toList) =
      s :: listWords (i :: is) := by
    refine (List.map_congr_left fun w hw => ?_).trans (List.map_id _)
    rcases List.mem_cons.1 hw with rfl | hw
    · exact hs.call
    · exact (isListWord_of_mem h hw).replace_eq
  have hspace : ∀ w ∈ s :: listWords (i :: is), ' ' ∉ w := fun w hw =>
    (isUnbroken_of_mem_select hs h hw).space
  have hsplit : (unwords (s :: listWords (i :: is))).splitOn ' ' = s :: listWords (i :: is) :=
    List.splitOn_intercalate ' ' hspace (List.cons_ne_nil _ _)
  have hfirst : renameWord none s = s := by
    rw [renameWord]
    simp
  rw [renameAliases, replace_unwords (by decide) (by decide), hwords,
    hsplit, renameWords, hfirst, renameWords_listWords h]

/-- The data query inside a count, in front of the word `FROM` and behind it. -/
theorem inner_select (hnot : "FROM".toList ∉ listWords (i :: is)) {rest : List Char}
    (hrest : ∃ c ∈ rest, isBlank c = false) :
    collapse (unwords (s :: listWords (i :: is)) ++ ' ' :: ("FROM".toList ++ ' ' :: rest)) =
        unwords (s :: listWords (i :: is)) ++ ' ' :: ("FROM".toList ++ ' ' :: collapse rest) ∧
      inner (unwords (s :: listWords (i :: is)) ++ ' ' :: ("FROM".toList ++ ' ' :: rest)) =
        unwords (s :: listWords (i.renamed (precedesAlias s) :: is.map (Item.renamed false))) ++
          ' ' :: ("FROM".toList ++ ' ' :: collapse rest) := by
  have hcollapse := collapse_unwords_append (fun w => isUnbroken_of_mem_select hs h)
    (List.cons_ne_nil _ _) (m := "FROM".toList) ⟨by decide, by decide⟩ hrest
  have hspace : ∀ w ∈ s :: listWords (i :: is), ' ' ∉ w := fun w hw =>
    (isUnbroken_of_mem_select hs h hw).space
  have hcut := cutBefore_unwords (m := "FROM".toList) (by decide) hspace hnot (collapse rest)
  have hmark : " FROM ".toList = ' ' :: ("FROM".toList ++ [' ']) := rfl
  refine ⟨hcollapse, ?_⟩
  rw [inner, hcollapse, hmark, hcut]
  exact congrArg (· ++ _) (renameAliases_select hs h)

end

def renameAlias (item : List Char) : List Char :=
  if " AS count".toList <:+ item then item.take (item.length - 5) ++ "_count".toList else item

theorem Item.IsSteady.suffix_iff {i : Item} (hi : i.IsSteady) :
    " AS count".toList <:+ i.chars ↔ i.label = some "count".toList := by
  have hlast (t n : List Char) (hn : ' ' ∉ n) :
      ((t ++ ' ' :: n).splitOn ' ').getLast? = some n := by
    rw [List.splitOn_append_cons_self, List.splitOn_eq_singleton hn, List.getLast?_concat]
  rw [i.chars_eq]
  cases hl : i.label with
  | none =>
    refine iff_of_false (fun h => ?_) nofun
    rw [Option.map_none, Option.getD_none, List.append_nil] at h
    exact hi.column.space (h.subset (by decide))
  | some n =>
    rw [Option.map_some, Option.getD_some, Option.some.injEq]
    constructor
    · rintro ⟨t, ht⟩
      have hcount : t ++ " AS count".toList = (t ++ " AS".toList) ++ ' ' :: "count".toList := by
        rw [List.append_assoc]
        rfl
      have hlabel : i.column ++ (" AS ".toList ++ n) = (i.column ++ " AS".toList) ++ ' ' :: n := by
        rw [List.append_assoc]
        rfl
      have hsame := congrArg (fun u => (u.splitOn ' ').getLast?) ht
      simp only [hcount, hlabel] at hsame
      rw [hlast _ _ (by decide), hlast _ _ (hi.label n hl).space] at hsame
      exact (Option.some.inj hsame).symm
    · rintro rfl
      exact ⟨i.column, rfl⟩

theorem renameAlias_chars {i : Item} (hi : i.IsSteady) :
    renameAlias i.chars = (i.renamed false).chars := by
  by_cases h : " AS count".toList <:+ i.chars
  · have hl := hi.suffix_iff.1 h
    have hchars : i.chars = (i.column ++ " AS ".toList) ++ "count".toList := by
      rw [i.chars_eq, hl, List.append_assoc]
      rfl
    have hrenamed : (i.renamed false).chars = (i.column ++ " AS ".toList) ++ "_count".toList := by
      rw [Item.chars_eq, Item.renamed, hl, List.append_assoc]
      rfl
    have hlength : i.chars.length - 5 = (i.column ++ " AS ".toList).length := by
      rw [hchars, List.length_append]
      rfl
    rw [renameAlias, if_pos h, hlength, hchars, List.take_left, hrenamed]
  · have hkept : i.renamed false = i := by
      rw [hi.suffix_iff] at h
      obtain ⟨column, label⟩ := i
      cases label with
      | none => rfl
      | some n =>
        have hn : freeName n = n := if_neg fun hn => h (congrArg some hn)
        rw [Item.renamed, Option.map_some, hn]
        rfl
    rw [renameAlias, if_neg h, hkept]

/-- A column that is taken for an alias is renamed by one character in front. -/
theorem Item.chars_renamed (i : Item) (taken : Bool) :
    (i.renamed taken).chars =
      (if taken = true ∧ i.column = "count".toList then ['_'] else []) ++
        (i.renamed false).chars := by
  rw [chars_eq, chars_eq, renamed, renamed]
  cases taken with
  | false => simp
  | true =>
    by_cases h : i.column = "count".toList
    · rw [if_pos rfl, if_pos ⟨rfl, h⟩, freeName, if_pos h, h]
      rfl
    · rw [if_pos rfl, if_neg fun hc => h hc.2, freeName, if_neg h]
      rfl

theorem unwords_renamed (i : Item) (is : List Item) (taken : Bool) :
    unwords (listWords (i.renamed taken :: is)) =
      (if taken = true ∧ i.column = "count".toList then ['_'] else []) ++
        unwords (listWords (i.renamed false :: is)) := by
  cases is with
  | nil => exact i.chars_renamed taken
  | cons j is =>
    rw [unwords_listWords_cons_cons, unwords_listWords_cons_cons, i.chars_renamed,
      List.append_assoc]

theorem words_unwords_listWords {is : List Item} (h : ∀ i ∈ is, i.IsSteady) :
    words (unwords (listWords is)) = listWords is :=
  words_unwords fun _ hw => (isListWord_of_mem h hw).isUnbroken

theorem Item.IsSteady.head?_words {i : Item} (hi : i.IsSteady) :
    (Text.words i.chars).head? = some i.column := by
  have hwords : Text.words i.chars = i.words [] :=
    words_unwords_listWords (List.forall_mem_singleton.2 hi)
  rw [hwords, Item.words]
  cases i.label with
  | none => exact congrArg some (List.append_nil _)
  | some n => rfl

end GroupedCount
end FilterSql
