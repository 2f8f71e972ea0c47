/-!
# Replacing and cutting texts

All functions read the text once from left to right, so occurrences never overlap.
-/
namespace FilterSql.Text

/-- Replace every occurrence of `old`; `skip` counts the characters of the last occurrence that
are still to be passed over. -/
def replaceFrom (old new : List Char) : Nat → List Char → List Char
  | _, [] => []
  | skip + 1, _ :: s => replaceFrom old new skip s
  | 0, c :: s =>
    if old.isPrefixOf (c :: s) then new ++ replaceFrom old new (old.length - 1) s
    else c :: replaceFrom old new 0 s

def replace (old new s : List Char) : List Char := replaceFrom old new 0 s

/-- Cut at the first occurrence of `mark`, which starts the second part. -/
def cutBefore (mark : List Char) : List Char → Option (List Char × List Char)
  | [] => if mark.isEmpty then some ([], []) else none
  | c :: s =>
    if mark.isPrefixOf (c :: s) then some ([], c :: s)
    else (cutBefore mark s).map fun r => (c :: r.1, r.2)

def cutAt (mark : Char) : List Char → Option (List Char × List Char)
  | [] => none
  | c :: s => if c = mark then some ([], s) else (cutAt mark s).map fun r => (c :: r.1, r.2)

def sameLetters (s t : List Char) : Bool := s.map Char.toLower == t.map Char.toLower

theorem cutAt_append {mark : Char} {s a b : List Char} (h : cutAt mark s = some (a, b)) :
    s = a ++ mark :: b := by
  induction s generalizing a b with
  | nil => simp [cutAt] at h
  | cons c s ih =>
    rw [cutAt] at h
    split at h
    · simp_all
    · obtain ⟨⟨a', b'⟩, h', he⟩ := Option.map_eq_some_iff.1 h
      simp only [Prod.mk.injEq] at he
      simp [← he.1, ← he.2, ih h']

end FilterSql.Text
