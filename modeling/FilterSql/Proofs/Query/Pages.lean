import FilterSql.Query.Compile
import Mathlib.Tactic.NormNum
import Mathlib.Tactic.Ring
/-!
# Pages

The first row of a page is computed in words of 64 bits from two words of 32. Nothing wraps: the
offset is the product of the pages in front and the rows of a page. Hence the pages from the first
on tile the rows, as division with remainder tiles the numbers.
-/
namespace FilterSql
namespace Paging

/-- How many pages stand in front of this one. -/
def preceding (p : Paging) : Nat := max p.page.toNat 1 - 1

def Covers (p : Paging) (n : Nat) : Prop :=
  p.offset.toNat ≤ n ∧ n < p.offset.toNat + p.limit.toNat

instance (p : Paging) (n : Nat) : Decidable (p.Covers n) := inferInstanceAs (Decidable (_ ∧ _))

theorem toNat_max_one (x : UInt32) : (max x 1).toNat = max x.toNat 1 := by
  rw [Nat.max_def]
  change (if x ≤ 1 then 1 else x : UInt32).toNat = if x.toNat ≤ 1 then 1 else x.toNat
  simp only [UInt32.le_iff_toNat_le, UInt32.toNat_one]
  split <;> rfl

theorem one_le_max (x : UInt32) : 1 ≤ max x 1 := by
  rw [UInt32.le_iff_toNat_le, toNat_max_one]
  exact Nat.le_max_right x.toNat 1

theorem toNat_max_sub_one (p : Paging) : (max p.page 1 - 1).toNat = p.preceding := by
  rw [UInt32.toNat_sub_of_le _ _ (one_le_max p.page), toNat_max_one]
  rfl

theorem preceding_lt (p : Paging) : p.preceding < 2 ^ 32 - 1 := by
  have := p.page.toNat_lt
  simp only [preceding]
  omega

@[simp] theorem toNat_limit (p : Paging) : p.limit.toNat = p.rows.toNat := rfl

/-- Not even the end of a page leaves the words of 64 bits. -/
theorem preceding_mul_add_lt (p : Paging) :
    p.preceding * p.rows.toNat + p.rows.toNat < 2 ^ 64 := by
  have hpage := p.preceding_lt
  have hrows := p.rows.toNat_lt
  calc p.preceding * p.rows.toNat + p.rows.toNat
      = (p.preceding + 1) * p.rows.toNat := by ring
    _ ≤ (2 ^ 32 - 1) * 2 ^ 32 := Nat.mul_le_mul (by omega) (by omega)
    _ < 2 ^ 64 := by norm_num

@[simp] theorem toNat_offset (p : Paging) : p.offset.toNat = p.preceding * p.rows.toNat := by
  have h : p.preceding * p.rows.toNat < 2 ^ 64 := by
    have := p.preceding_mul_add_lt
    omega
  rw [offset, UInt64.toNat_mul, UInt32.toNat_toUInt64, UInt32.toNat_toUInt64,
    toNat_max_sub_one, Nat.mod_eq_of_lt h]

theorem covers_iff {rows : UInt32} (hpos : 0 < rows.toNat) (page : UInt32) (n : Nat) :
    (Paging.mk page rows).Covers n ↔ n / rows.toNat = max page.toNat 1 - 1 := by
  rw [Covers, toNat_offset, toNat_limit, Nat.div_eq_iff hpos]
  simp only [preceding]
  omega

theorem lt_of_covers {p : Paging} {n : Nat} (h : p.Covers n) :
    n < (2 ^ 32 - 1) * p.rows.toNat := by
  rw [Covers, toNat_offset, toNat_limit] at h
  calc n < p.preceding * p.rows.toNat + p.rows.toNat := h.2
    _ = (p.preceding + 1) * p.rows.toNat := by ring
    _ ≤ (2 ^ 32 - 1) * p.rows.toNat := Nat.mul_le_mul_right _ p.preceding_lt

/-- The only page that has a row is the one after as many pages as the rows in front fill. -/
theorem existsUnique_covers {rows : UInt32} {n : Nat} (hn : n < (2 ^ 32 - 1) * rows.toNat) :
    ∃! page : UInt32, 1 ≤ page ∧ (Paging.mk page rows).Covers n := by
  have hpos : 0 < rows.toNat := by omega
  have hfull : n / rows.toNat < 2 ^ 32 - 1 := (Nat.div_lt_iff_lt_mul hpos).mpr hn
  simp only [covers_iff hpos, UInt32.le_iff_toNat_le, UInt32.toNat_one]
  generalize n / rows.toNat = full at hfull
  have hpage : (UInt32.ofNat (full + 1)).toNat = full + 1 :=
    UInt32.toNat_ofNat_of_lt' (by simp only [UInt32.size]; omega)
  refine ⟨UInt32.ofNat (full + 1), ⟨by omega, by omega⟩, ?_⟩
  rintro page ⟨hone, hcovers⟩
  apply UInt32.toNat.inj
  omega

example : (Paging.mk 4294967295 10).Covers 42949672949 := by decide

end Paging

theorem Query.paged_eq (q : Query) (p : Paging) :
    q.paged p = q.data ++ " LIMIT " ++ toString p.rows.toNat ++ " OFFSET " ++
      toString (p.preceding * p.rows.toNat) := by
  rw [← Paging.toNat_offset]
  rfl

/-- Pages tile the rows: no step of the offset wraps, each row has exactly one page, and page zero
is the first page. -/
theorem Paging.tiles (rows : UInt32) :
    (∀ page : UInt32,
      (max page 1 - 1).toNat = max page.toNat 1 - 1 ∧
      (Paging.mk page rows).offset.toNat = (max page.toNat 1 - 1) * rows.toNat ∧
      (Paging.mk page rows).limit.toNat = rows.toNat ∧
      ((Paging.mk page rows).offset + (Paging.mk page rows).limit).toNat =
        (Paging.mk page rows).offset.toNat + (Paging.mk page rows).limit.toNat ∧
      ∀ q : Query, q.paged ⟨page, rows⟩ = q.data ++ " LIMIT " ++ toString rows.toNat ++
        " OFFSET " ++ toString ((max page.toNat 1 - 1) * rows.toNat)) ∧
    (∀ n : Nat, n < (2 ^ 32 - 1) * rows.toNat ↔
      ∃! page : UInt32, 1 ≤ page ∧ (Paging.mk page rows).Covers n) ∧
    (Paging.mk 0 rows).offset = (Paging.mk 1 rows).offset ∧
    (Paging.mk 0 rows).limit = (Paging.mk 1 rows).limit := by
  refine ⟨fun page => ⟨Paging.toNat_max_sub_one ⟨page, rows⟩, Paging.toNat_offset _, rfl, ?_,
    fun q => q.paged_eq _⟩, fun n => ⟨Paging.existsUnique_covers, ?_⟩, rfl, rfl⟩
  · rw [UInt64.toNat_add, Nat.mod_eq_of_lt]
    simpa using (Paging.mk page rows).preceding_mul_add_lt
  · rintro ⟨page, ⟨-, hcovers⟩, -⟩
    exact Paging.lt_of_covers hcovers

end FilterSql
