import Mathlib.Data.Int.CardIntervalMod
import Mathlib.Data.List.Induction
import Mathlib.Data.List.ModifyLast
import Mathlib.Data.List.Nodup

/-! # Loops that write into cells

A loop walks a list and updates, for each of its entries, the cell that the entry selects. What a cell holds
afterwards depends only on the entries that select it.
-/

namespace List

variable {α ι : Type*}

/-- For every entry of the list, in its order, update the cell that it selects. -/
def scatter (target : ι → ℕ) (f : α → ι → α) (cells : List α) (entries : List ι) : List α :=
  entries.foldl (fun cells entry => cells.modify (target entry) (f · entry)) cells

theorem getElem?_scatter (target : ι → ℕ) (f : α → ι → α) (cells : List α) (entries : List ι) (p : ℕ) :
    (scatter target f cells entries)[p]? =
      cells[p]?.map fun cell => (entries.filter (target · = p)).foldl f cell := by
  induction entries generalizing cells with
  | nil => simp [scatter]
  | cons entry rest ih =>
    have tail := ih (cells.modify (target entry) (f · entry))
    simp only [scatter, foldl_cons] at tail ⊢
    rw [tail, getElem?_modify, Option.map_eq_map, Option.map_map]
    by_cases selected : target entry = p <;> simp [selected, Function.comp_def]

theorem length_scatter (target : ι → ℕ) (f : α → ι → α) (cells : List α) (entries : List ι) :
    (scatter target f cells entries).length = cells.length := by
  induction entries generalizing cells with
  | nil => rfl
  | cons entry rest ih => simpa [scatter] using ih (cells.modify (target entry) (f · entry))

/-- Entries dealt to empty cells: each cell holds those that select it, in order. -/
theorem scatter_replicate (n : ℕ) (target : α → ℕ) (entries : List α) :
    scatter target (fun cell entry => cell ++ [entry]) (replicate n []) entries =
      (range n).map fun k => entries.filter (target · = k) := by
  apply ext_getElem?
  intro p
  rw [getElem?_scatter]
  by_cases inside : p < n
  · simp [inside, ← flatMap_def]
  · simp [inside]

/-- Dealing loses nothing as long as every entry selects one of the cells. -/
theorem flatMap_filter_perm {cells : List ℕ} {target : α → ℕ} {entries : List α} (nodup : cells.Nodup)
    (inside : ∀ x ∈ entries, target x ∈ cells) :
    (cells.flatMap fun k => entries.filter (target · = k)).Perm entries := by
  induction cells generalizing entries with
  | nil =>
    have none : entries = [] := eq_nil_iff_forall_not_mem.2 fun x member => not_mem_nil (inside x member)
    simp [none]
  | cons k rest ih =>
    obtain ⟨fresh, nodup⟩ := nodup_cons.1 nodup
    have others : (rest.flatMap fun j => entries.filter (target · = j)).Perm
      (entries.filter fun x => !decide (target x = k)) := by
      refine Perm.trans (Perm.of_eq ?_) (ih nodup fun x member => ?_)
      · refine flatMap_congr fun j member => ?_
        rw [filter_filter]
        exact filter_congr fun x _ => by grind
      · rw [mem_filter] at member
        exact (mem_cons.1 (inside x member.1)).resolve_left (by simpa using member.2)
    rw [flatMap_cons]
    exact (others.append_left _).trans (filter_append_perm _ entries)

/-- Numbering the entries of a list without repetitions gives each of them one number. -/
theorem filter_zipIdx_fst [DecidableEq α] {entries : List α} (nodup : entries.Nodup) (x : α) :
    entries.zipIdx.filter (·.1 = x) = if x ∈ entries then [(x, entries.idxOf x)] else [] := by
  induction entries using reverseRecOn with
  | nil => simp
  | append_singleton rest last ih =>
    obtain ⟨restNodup, -, apart⟩ := nodup_append.1 nodup
    have fresh : last ∉ rest := fun member => apart last member last (by simp) rfl
    rw [zipIdx_append, filter_append, ih restNodup]
    by_cases old : x ∈ rest
    · have other : last ≠ x := fun same => fresh (same ▸ old)
      simp [old, other, idxOf_append_of_mem]
    · by_cases same : last = x
      · subst same
        simp [fresh, idxOf_append_of_notMem]
      · simp [old, same, Ne.symm same]

/-- The positions of the entries of a list without repetitions are all positions. -/
theorem map_idxOf [DecidableEq α] {entries : List α} (nodup : entries.Nodup) :
    entries.map entries.idxOf = range entries.length :=
  ext_getElem (by simp) fun i _ _ => by simp [nodup.idxOf_getElem]

/-- Selecting rows by what all their entries show is selecting the entries. -/
theorem flatMap_filter_eq {β : Type*} {rows : List α} {f : α → List β} {selects : α → Bool} {shows : β → Bool}
    (same : ∀ row ∈ rows, ∀ x ∈ f row, shows x = selects row) :
    (rows.filter selects).flatMap f = (rows.flatMap f).filter shows := by
  induction rows with
  | nil => rfl
  | cons row rest ih =>
    rw [flatMap_cons, filter_append, ← ih fun other member => same other (mem_cons_of_mem _ member)]
    by_cases selected : selects row = true
    · have whole : (f row).filter shows = f row :=
        filter_eq_self.2 fun x member => (same row mem_cons_self x member).trans selected
      rw [filter_cons_of_pos selected, flatMap_cons, whole]
    · have none : (f row).filter shows = [] :=
        filter_eq_nil_iff.2 fun x member shown => selected ((same row mem_cons_self x member).symm.trans shown)
      rw [filter_cons_of_neg selected, none, nil_append]

/-- How many of the first numbers have a given quotient. -/
theorem length_filter_range_div (n k : ℕ) {limit : ℕ} (positive : 0 < limit) :
    ((range n).filter (· / limit = k)).length = min limit (n - k * limit) := by
  induction n with
  | zero => simp
  | succ n ih =>
    have block : n / limit = k ↔ k * limit ≤ n ∧ n < k * limit + limit := by
      rw [Nat.div_eq_iff positive]
      omega
    rw [range_succ, filter_append, length_append, ih]
    by_cases here : n / limit = k
    · simp only [here, decide_true, filter_cons_of_pos, filter_nil, length_cons, length_nil]
      rw [block] at here
      omega
    · simp only [here, decide_false, Bool.false_eq_true, not_false_eq_true, filter_cons_of_neg, filter_nil, length_nil]
      rw [block] at here
      omega

/-- How many of the first numbers have a given remainder. -/
theorem length_filter_range_mod (n : ℕ) {m k : ℕ} (inside : k < m) :
    ((range n).filter (· % m = k)).length = n / m + if k < n % m then 1 else 0 := by
  have counted := Nat.count_modEq_card n (Nat.zero_lt_of_lt inside) k
  rw [Nat.mod_eq_of_lt inside, Nat.count_eq_card_filter_range] at counted
  rw [← counted, ← toFinset_card_of_nodup (nodup_range.filter _)]
  congr 1
  ext j
  simp [Nat.ModEq, Nat.mod_eq_of_lt inside]
end List
