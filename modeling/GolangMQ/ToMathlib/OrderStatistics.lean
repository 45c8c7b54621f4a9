import Mathlib.Algebra.Order.Field.Basic
import Mathlib.Algebra.Order.Ring.Rat
import Mathlib.Order.Bounds.Basic
import Mathlib.Tactic.NormNum

/-! # Order statistics

In a sorted list the entries up to a value come first, so that the entry at a position is the smallest value which
more entries than that position do not exceed. Nearest ranks are read off this; they do not depend on the order of the
list.
-/

namespace List

variable {α : Type*} [LinearOrder α]

private theorem getElem_le_iff_lt_countP {sorted : List α} (ordered : sorted.Pairwise (· ≤ ·)) (v : α) {i : ℕ}
    (inside : i < sorted.length) : sorted[i] ≤ v ↔ i < sorted.countP (· ≤ v) := by
  induction sorted generalizing i with
  | nil => exact absurd inside (Nat.not_lt_zero i)
  | cons first rest ih =>
    obtain ⟨least, ordered⟩ := pairwise_cons.1 ordered
    by_cases small : first ≤ v
    · rw [countP_cons_of_pos (by simpa using small)]
      cases i with
      | zero => simpa using small
      | succ i => simpa using ih ordered (Nat.lt_of_succ_lt_succ inside)
    · -- the first entry is the least, so that no entry is up to `v`
      have none : rest.countP (· ≤ v) = 0 := by
        simpa [countP_eq_zero] using fun x member => (not_le.1 small).trans_le (least x member)
      rw [countP_cons_of_neg (by simpa using small), none]
      cases i with
      | zero => simpa using small
      | succ i =>
        have later := least _ (getElem_mem (Nat.lt_of_succ_lt_succ inside))
        simpa using (not_le.1 small).trans_le later

/-- The smallest entry that at least `p` percent of the entries do not exceed. -/
def NearestRank (entries : List α) (p : ℚ) (v : α) : Prop :=
  IsLeast {v | v ∈ entries ∧ p / 100 * entries.length ≤ entries.countP (· ≤ v)} v

namespace NearestRank

variable {entries : List α} {p q : ℚ} {v w : α}

/-- The entry of a sorted list whose position is the rank, rounded up. -/
theorem of_sorted {i : ℕ} (ordered : entries.Pairwise (· ≤ ·)) (inside : i < entries.length)
    (rank : (p / 100 * entries.length).ceil = i + 1) : NearestRank entries p entries[i] := by
  have reached (v : α) : p / 100 * entries.length ≤ entries.countP (· ≤ v) ↔ entries[i] ≤ v := by
    rw [getElem_le_iff_lt_countP ordered v inside, ← Int.cast_natCast (R := ℚ) (countP _ _), ← Rat.ceil_le_iff,
      rank]
    omega
  exact ⟨⟨getElem_mem inside, (reached _).2 le_rfl⟩, fun v ⟨_, enough⟩ => (reached v).1 enough⟩

theorem perm {entries' : List α} (same : entries.Perm entries') (nearest : NearestRank entries p v) :
    NearestRank entries' p v := by
  have shows (v : α) : v ∈ entries' ∧ p / 100 * entries'.length ≤ entries'.countP (· ≤ v) ↔
      v ∈ entries ∧ p / 100 * entries.length ≤ entries.countP (· ≤ v) := by
    rw [same.mem_iff, same.length_eq, same.countP_eq]
  simpa only [NearestRank, shows] using nearest

theorem mono (low : NearestRank entries p v) (high : NearestRank entries q w) (below : p ≤ q) : v ≤ w := by
  obtain ⟨⟨member, enough⟩, -⟩ := high
  refine low.2 ⟨member, le_trans ?_ enough⟩
  exact mul_le_mul_of_nonneg_right (div_le_div_of_nonneg_right below (by norm_num)) (Nat.cast_nonneg _)

theorem unique (nearest : NearestRank entries p v) (nearest' : NearestRank entries p w) : v = w :=
  IsLeast.unique nearest nearest'

end NearestRank

end List
