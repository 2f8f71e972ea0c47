import FilterSql.Query.GroupedCount
import FilterSql.Proofs.Sql.Quoting
import FilterSql.Proofs.Text.Replacing
/-!
# Marks in grouped counts

The count of a grouped query collapses blanks and renames aliases. It goes through the text by words
and may change what stands in literals, but it neither adds nor removes a quote, a dollar sign or a
question mark.
-/
namespace FilterSql.GroupedCount

open Sql Text

/-- Texts with the same marks in the same order. -/
def SameMarks (s t : List Char) : Prop := s.filter isMark = t.filter isMark

theorem SameMarks.append {s s' t t' : List Char} (h : SameMarks s t) (h' : SameMarks s' t') :
    SameMarks (s ++ s') (t ++ t') := by
  rw [SameMarks, List.filter_append, List.filter_append, h, h']

theorem not_isMark_of_isBlank {c : Char} (h : isBlank c = true) : isMark c = false :=
  isMark_eq_false (by decide) h

theorem sameMarks_splitOnP {q : Char → Bool} (hq : ∀ c, q c = true → isMark c = false)
    (s : List Char) : SameMarks (s.splitOnP q).flatten s := by
  induction s with
  | nil => rfl
  | cons c s ih =>
    rw [SameMarks] at ih ⊢
    rw [List.splitOnP_cons_eq_if_modifyHead]
    split
    next hc =>
      rw [List.filter_cons_of_neg (by simp [hq c hc]), ← ih]
      rfl
    next =>
      obtain ⟨w, ws, h⟩ := List.exists_cons_of_ne_nil (List.splitOnP_ne_nil q s)
      rw [h] at ih ⊢
      rw [List.modifyHead_cons, List.flatten_cons, List.cons_append, List.filter_cons,
        List.filter_cons, ← ih]
      rfl

theorem sameMarks_unwords (ws : List (List Char)) : SameMarks (unwords ws) ws.flatten := by
  have hblank : [' '].filter isMark = [] := by decide
  induction ws with
  | nil => rfl
  | cons w ws ih =>
    cases ws with
    | nil => rw [unwords, List.intercalate_singleton, List.flatten_singleton]; rfl
    | cons v ws =>
      rw [SameMarks] at ih ⊢
      rw [unwords, List.intercalate_cons_cons, List.filter_append, List.filter_append, hblank,
        List.append_nil, List.flatten_cons, List.filter_append, ← ih]
      rfl

theorem sameMarks_collapse (s : List Char) : SameMarks (collapse s) s := by
  have hwords : (words s).flatten = (s.splitOnP isBlank).flatten := by
    rw [words]
    exact List.flatten_filter_not_isEmpty
  rw [collapse]
  refine (sameMarks_unwords (words s)).trans ?_
  rw [hwords]
  exact sameMarks_splitOnP (fun _ => not_isMark_of_isBlank) s

theorem sameMarks_renameWord (previous : Option (List Char)) (w : List Char) :
    SameMarks (renameWord previous w) w := by
  have hcomma : (takeComma w).1 ++ (takeComma w).2 = w := by
    rw [takeComma]
    split
    next h =>
      obtain ⟨v, rfl⟩ := List.getLast?_eq_some_iff.1 h
      rw [List.dropLast_concat]
    next => exact List.append_nil w
  rw [renameWord]
  generalize takeComma w = r at hcomma ⊢
  obtain ⟨name, comma⟩ := r
  change name ++ comma = w at hcomma
  change SameMarks (if _ then _ else _) w
  split
  next h =>
    rw [Bool.and_eq_true, decide_eq_true_eq] at h
    have hnames : SameMarks "_count".toList name := by
      rw [h.1, SameMarks]
      decide
    have hsame := hnames.append (rfl : SameMarks comma comma)
    rwa [hcomma] at hsame
  next => rfl

theorem sameMarks_renameWords (previous : Option (List Char)) (ws : List (List Char)) :
    SameMarks (renameWords previous ws).flatten ws.flatten := by
  induction ws generalizing previous with
  | nil => rfl
  | cons w ws ih =>
    rw [renameWords, List.flatten_cons, List.flatten_cons]
    exact (sameMarks_renameWord previous w).append (ih _)

theorem sameMarks_replaced {old new s t : List Char} (hmarks : SameMarks new old)
    (h : Replaced old new s t) : SameMarks t s := by
  induction h with
  | nil => rfl
  | keep c _ ih => exact SameMarks.append (rfl : SameMarks [c] [c]) ih
  | swap _ ih => exact hmarks.append ih

theorem sameMarks_renameAliases (s : List Char) : SameMarks (renameAliases s) s := by
  have hblank (c : Char) (h : (c == ' ') = true) : isMark c = false := by
    rw [eq_of_beq h]
    decide
  have hreplaced : SameMarks (replace ")count".toList ") count".toList s) s :=
    sameMarks_replaced (by rw [SameMarks]; decide) (replaced_replace (by decide) s)
  rw [renameAliases]
  refine (sameMarks_unwords _).trans <| (sameMarks_renameWords _ _).trans ?_
  exact (sameMarks_splitOnP hblank _).trans hreplaced

theorem cutBefore_append {mark s a b : List Char} (h : cutBefore mark s = some (a, b)) :
    a ++ b = s := by
  induction s generalizing a b with
  | nil =>
    rw [cutBefore] at h
    split at h
    · obtain ⟨rfl, rfl⟩ := Prod.mk.inj (Option.some.inj h)
      rfl
    · cases h
  | cons c s ih =>
    rw [cutBefore] at h
    split at h
    · obtain ⟨rfl, rfl⟩ := Prod.mk.inj (Option.some.inj h)
      rfl
    · obtain ⟨⟨a', b'⟩, h', he⟩ := Option.map_eq_some_iff.1 h
      obtain ⟨rfl, rfl⟩ := Prod.mk.inj he
      rw [List.cons_append, ih h']

theorem sameMarks_inner (data : List Char) : SameMarks (inner data) data := by
  rw [inner]
  split
  next columns rest h =>
    have hcut := cutBefore_append h
    have hsame := (sameMarks_renameAliases columns).append (rfl : SameMarks rest rest)
    rw [hcut] at hsame
    exact hsame.trans (sameMarks_collapse data)
  next => exact sameMarks_collapse data

theorem lastName_point (s : List Char) {n : List Char} (hn : '.' ∉ n) :
    lastName (s ++ '.' :: n) = n := by
  rw [lastName, List.splitOn_append_cons_self, List.splitOn_eq_singleton hn, List.getLast?_concat,
    Option.getD_some]

theorem lastName_cases (s : List Char) :
    '.' ∉ lastName s ∧ (lastName s = s ∨ ∃ p, s = p ++ '.' :: lastName s) := by
  by_cases h : '.' ∈ s
  · obtain ⟨u, v, huv, hu⟩ := List.eq_append_cons_of_mem (List.mem_reverse.2 h)
    have hs : s = v.reverse ++ '.' :: u.reverse := by
      simpa using congrArg List.reverse huv
    have hlast : lastName s = u.reverse := by
      rw [hs]
      exact lastName_point _ (mt List.mem_reverse.1 hu)
    rw [hlast]
    exact ⟨mt List.mem_reverse.1 hu, .inr ⟨_, hs⟩⟩
  · have hlast : lastName s = s := by
      rw [lastName, List.splitOn_eq_singleton h]
      rfl
    rw [hlast]
    exact ⟨h, .inl rfl⟩

theorem lacks_lastName {p : Char → Bool} {path : List Char} (h : Lacks p path) :
    Lacks p (lastName path) := by
  intro c hc
  obtain ⟨-, hall | ⟨front, hfront⟩⟩ := lastName_cases path
  · exact h c (hall ▸ hc)
  · refine h c ?_
    rw [hfront]
    exact List.mem_append_right _ (List.mem_cons_of_mem _ hc)

/-- A grouped count has the marks of the data query. -/
theorem sameMarks_sql {data column : String} (h : Lacks isMark column.toList) :
    SameMarks (sql data column).toList data.toList := by
  have hname := filter_eq_nil_iff_lacks.2 (lacks_lastName h)
  have hselect : "SELECT COUNT(tc.".toList.filter isMark = [] :=
    filter_eq_nil_iff_lacks.2 (by decide)
  have hfrom : ") count FROM (".toList.filter isMark = [] :=
    filter_eq_nil_iff_lacks.2 (by decide)
  have hclose : ") tc".toList.filter isMark = [] := filter_eq_nil_iff_lacks.2 (by decide)
  unfold sql SameMarks
  rw [String.toList_append, String.toList_append, String.toList_append,
    String.toList_append, List.filter_append, List.filter_append, List.filter_append,
    List.filter_append, hselect, hfrom, hclose, String.toList_ofList, String.toList_ofList, hname,
    List.append_nil, List.append_nil, List.nil_append]
  exact sameMarks_inner data.toList

end FilterSql.GroupedCount
