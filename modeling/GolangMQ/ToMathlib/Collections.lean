import Mathlib.Algebra.BigOperators.Group.Finset.Basic
import Mathlib.Data.List.AList
import Mathlib.Data.Finset.Dedup
import Mathlib.Tactic.Abel

/-! # Sums under a point update, and association lists keyed by a projection

Mathlib has the sum of an updated function on the complement of the point; the exchange form below
needs no subtraction and holds in every commutative monoid. For association lists Mathlib has the
key-indexed API; here the stored values are read as a multiset, for lists in which every value is
stored under its own key. Insertion and deletion then become filtering by the key.
-/

namespace Finset

/-- Updating one summand exchanges its old value for the new one. -/
theorem sum_update_add {ι A : Type*} [DecidableEq ι] [AddCommMonoid A] {s : Finset ι} {i : ι}
    (member : i ∈ s) (f : ι → A) (value : A) :
    ∑ j ∈ s, Function.update f i value j + f i = ∑ j ∈ s, f j + value := by
  have others : ∑ j ∈ s.erase i, Function.update f i value j = ∑ j ∈ s.erase i, f j := by
    apply Finset.sum_congr rfl
    intro j other
    rw [Function.update_of_ne (Finset.ne_of_mem_erase other)]
  rw [← Finset.add_sum_erase _ _ member, ← Finset.add_sum_erase _ f member, others,
    Function.update_self]
  abel

end Finset

namespace AList

variable {κ υ : Type*}

/-- The stored values, in entry order. -/
def values (s : AList (fun _ : κ => υ)) : List υ := s.entries.map Sigma.snd

@[simp] theorem values_empty : (∅ : AList (fun _ : κ => υ)).values = [] := rfl

theorem length_values (s : AList (fun _ : κ => υ)) : s.values.length = s.keys.length := by
  simp [values, keys, List.keys]

theorem mem_values_iff [DecidableEq κ] {s : AList (fun _ : κ => υ)} {value : υ} :
    value ∈ s.values ↔ ∃ k, s.lookup k = some value := by
  constructor
  · intro member
    obtain ⟨⟨k, stored⟩, entry, rfl⟩ := List.mem_map.mp member
    exact ⟨k, AList.mem_lookup_iff.mpr entry⟩
  · rintro ⟨k, found⟩
    exact List.mem_map.mpr ⟨⟨k, value⟩, AList.mem_lookup_iff.mp found, rfl⟩

/-- Storing under a key adds one value and keeps no others but those there were. -/
theorem mem_values_insert [DecidableEq κ] {s : AList (fun _ : κ => υ)} {k : κ} {value stored : υ}
    (member : stored ∈ (s.insert k value).values) : stored = value ∨ stored ∈ s.values := by
  obtain ⟨k', found⟩ := mem_values_iff.mp member
  by_cases same : k' = k
  · subst same
    rw [AList.lookup_insert] at found
    exact .inl (Option.some.inj found).symm
  · rw [AList.lookup_insert_ne same] at found
    exact .inr (mem_values_iff.mpr ⟨k', found⟩)

section Size

variable [DecidableEq κ] {s : AList (fun _ : κ => υ)} {k : κ}

theorem length_keys_insert (absent : k ∉ s) (value : υ) :
    (s.insert k value).keys.length = s.keys.length + 1 := by
  rw [AList.keys_insert, List.length_cons, List.erase_of_not_mem (mt AList.mem_keys.mpr absent)]

theorem length_keys_erase (present : k ∈ s) : (s.erase k).keys.length + 1 = s.keys.length := by
  rw [AList.keys_erase, List.length_erase_add_one (AList.mem_keys.mp present)]

end Size

/-- Every value is stored under its own key. -/
def KeyedBy (key : υ → κ) (s : AList (fun _ : κ => υ)) : Prop :=
  ∀ entry ∈ s.entries, key entry.2 = entry.1

variable {key : υ → κ}

theorem keyedBy_empty : KeyedBy key (∅ : AList (fun _ : κ => υ)) := by
  intro entry member
  simp at member

namespace KeyedBy

variable {s : AList (fun _ : κ => υ)}

theorem map_values (keyed : KeyedBy key s) : s.values.map key = s.keys := by
  simp only [values, keys, List.keys, List.map_map]
  exact List.map_congr_left fun entry member => keyed entry member

theorem nodup_values (keyed : KeyedBy key s) : s.values.Nodup := by
  have nodup := s.keys_nodup
  rw [← keyed.map_values] at nodup
  exact nodup.of_map

variable [DecidableEq κ]

theorem key_eq (keyed : KeyedBy key s) {k : κ} {value : υ} (found : s.lookup k = some value) :
    key value = k :=
  keyed ⟨k, value⟩ (AList.mem_lookup_iff.mp found)

theorem mem_values (keyed : KeyedBy key s) {value : υ} :
    value ∈ s.values ↔ s.lookup (key value) = some value := by
  rw [mem_values_iff]
  constructor
  · rintro ⟨k, found⟩
    rwa [keyed.key_eq found]
  · exact fun found => ⟨key value, found⟩

theorem of_lookup (keyed : ∀ k value, s.lookup k = some value → key value = k) : KeyedBy key s :=
  fun entry member => keyed entry.1 entry.2 (AList.mem_lookup_iff.mpr member)

protected theorem insert (keyed : KeyedBy key s) (value : υ) :
    KeyedBy key (s.insert (key value) value) := by
  apply of_lookup
  intro k stored found
  by_cases same : k = key value
  · subst same
    rw [AList.lookup_insert] at found
    rw [Option.some.inj found]
  · rw [AList.lookup_insert_ne same] at found
    exact keyed.key_eq found

protected theorem erase (keyed : KeyedBy key s) (k : κ) : KeyedBy key (s.erase k) := by
  apply of_lookup
  intro k' stored found
  by_cases same : k' = k
  · subst same
    rw [AList.lookup_erase] at found
    contradiction
  · rw [AList.lookup_erase_ne same] at found
    exact keyed.key_eq found

/-- Deleting a key removes exactly the values that carry it. -/
theorem coe_values_erase (keyed : KeyedBy key s) (k : κ) :
    ((s.erase k).values : Multiset υ) = (s.values : Multiset υ).filter fun value => key value ≠ k := by
  have kept := keyed.erase k
  apply (Multiset.Nodup.ext (Multiset.coe_nodup.mpr kept.nodup_values)
    ((Multiset.coe_nodup.mpr keyed.nodup_values).filter _)).mpr
  intro value
  rw [Multiset.mem_coe, kept.mem_values, Multiset.mem_filter, Multiset.mem_coe, keyed.mem_values]
  by_cases same : key value = k
  · subst same
    simp
  · simp [same, AList.lookup_erase_ne same]

/-- Storing a value replaces the values that carry its key. -/
theorem coe_values_insert (keyed : KeyedBy key s) (value : υ) :
    ((s.insert (key value) value).values : Multiset υ) =
      value ::ₘ (s.values : Multiset υ).filter fun stored => key stored ≠ key value := by
  rw [← keyed.coe_values_erase, Multiset.cons_coe]
  rfl

end KeyedBy

end AList
