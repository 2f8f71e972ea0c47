import FilterSql.Text.Blank
import Mathlib.Tactic.Common
/-!
# Squeezing blanks

Cutting a text into words and joining them by single blanks is one pass over its characters, which
carries whether a blank stands in front. In this form it can be followed through texts that are
written in pieces.
-/
namespace FilterSql.Text

/-- Every run of blanks as one blank in front of what follows it, with none at the end. `pending`
says that a blank stands in front already. -/
def squeeze : Bool → List Char → List Char
  | _, [] => []
  | pending, c :: s =>
    if isBlank c then squeeze true s
    else (if pending then [' '] else []) ++ c :: squeeze false s

variable {pending : Bool} {c : Char}

@[simp] theorem squeeze_nil : squeeze pending [] = [] := by rw [squeeze]

theorem squeeze_blank (hc : isBlank c = true) (s : List Char) :
    squeeze pending (c :: s) = squeeze true s := by
  rw [squeeze, if_pos hc]

theorem squeeze_cons (hc : isBlank c = false) (s : List Char) :
    squeeze pending (c :: s) = (if pending then [' '] else []) ++ c :: squeeze false s := by
  rw [squeeze, if_neg (by simp [hc])]

theorem squeeze_append_blank (hc : isBlank c = true) (s r : List Char) :
    squeeze pending (s ++ c :: r) = squeeze pending s ++ squeeze true r := by
  induction s generalizing pending with
  | nil => exact squeeze_blank hc r
  | cons d s ih =>
    rw [List.cons_append]
    by_cases hd : isBlank d = true
    · rw [squeeze_blank hd, squeeze_blank hd, ih]
    · rw [squeeze_cons (by simpa using hd), squeeze_cons (by simpa using hd), ih,
        List.append_assoc, List.cons_append]

/-- Squeezing joins the pieces between blanks, of which the first may go on with a word. -/
theorem squeeze_eq_of_splitOnP (s : List Char) {w : List Char} {ws : List (List Char)}
    (h : s.splitOnP isBlank = w :: ws) :
    squeeze false s = w ++ (ws.filter (!·.isEmpty)).flatMap (' ' :: ·) ∧
      squeeze true s = ((w :: ws).filter (!·.isEmpty)).flatMap (' ' :: ·) := by
  induction s generalizing w ws with
  | nil =>
    obtain ⟨rfl, rfl⟩ := List.cons.inj h
    exact ⟨rfl, rfl⟩
  | cons c s ih =>
    obtain ⟨v, vs, hs⟩ := List.exists_cons_of_ne_nil (List.splitOnP_ne_nil isBlank s)
    obtain ⟨hword, hblank⟩ := ih hs
    rw [List.splitOnP_cons_eq_if_modifyHead] at h
    by_cases hc : isBlank c = true
    · rw [if_pos hc, hs] at h
      obtain ⟨rfl, rfl⟩ := List.cons.inj h
      rw [squeeze_blank hc, squeeze_blank hc, hblank]
      exact ⟨rfl, rfl⟩
    · rw [if_neg hc, hs] at h
      obtain ⟨rfl, rfl⟩ := List.cons.inj h
      rw [squeeze_cons (by simpa using hc), squeeze_cons (by simpa using hc), hword]
      exact ⟨rfl, rfl⟩

theorem squeeze_true (s : List Char) : squeeze true s = (words s).flatMap (' ' :: ·) := by
  obtain ⟨w, ws, hs⟩ := List.exists_cons_of_ne_nil (List.splitOnP_ne_nil isBlank s)
  rw [words, hs]
  exact (squeeze_eq_of_splitOnP s hs).2

theorem squeeze_true_cases (s : List Char) :
    (squeeze true s = [] ∧ ∀ c ∈ s, isBlank c = true) ∨ ∃ t, squeeze true s = ' ' :: t := by
  induction s with
  | nil => exact Or.inl ⟨squeeze_nil, nofun⟩
  | cons c s ih =>
    by_cases hc : isBlank c = true
    · rw [squeeze_blank hc]
      refine ih.imp_left fun ⟨hnil, hs⟩ => ⟨hnil, ?_⟩
      exact List.forall_mem_cons.2 ⟨hc, hs⟩
    · rw [squeeze_cons (by simpa using hc)]
      exact Or.inr ⟨_, rfl⟩

end FilterSql.Text
