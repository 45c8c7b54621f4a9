import Mathlib.Logic.Function.Basic
import Mathlib.Data.Nat.Notation

/-! # Heaps of objects reached through references

A reference is the index of a cell. Allocation takes the next index, so references are never reused;
cells that have not been allocated hold the default, and the structure carries that fact. A write
through a reference that has not been allocated has no effect.
-/

namespace GolangMQ

/-- Allocated cells lie below `size`; every other cell holds the default. -/
@[ext] structure Heap (α : Type*) [Inhabited α] where
  size : ℕ
  cell : ℕ → α
  beyond : ∀ i, size ≤ i → cell i = default

namespace Heap

variable {α : Type*} [Inhabited α]

instance : CoeFun (Heap α) (fun _ => ℕ → α) := ⟨Heap.cell⟩

/-- The heap without objects. -/
def empty : Heap α where
  size := 0
  cell _ := default
  beyond _ _ := rfl

/-- A new object at the reference `heap.size`. -/
def alloc (heap : Heap α) (value : α) : Heap α where
  size := heap.size + 1
  cell := Function.update heap.cell heap.size value
  beyond i outside := by
    rw [Function.update_of_ne (by omega)]
    exact heap.beyond i (by omega)

/-- Rewrite the object behind one reference. -/
def modify (heap : Heap α) (i : ℕ) (f : α → α) : Heap α where
  size := heap.size
  cell := if i < heap.size then Function.update heap.cell i (f (heap.cell i)) else heap.cell
  beyond j outside := by
    split
    · rw [Function.update_of_ne (by omega)]
      exact heap.beyond j outside
    · exact heap.beyond j outside

/-- What holds of the default and of every object holds of every cell. -/
theorem forall_cell {P : α → Prop} (heap : Heap α) (fresh : P default) (objects : ∀ i < heap.size, P (heap.cell i))
    (i : ℕ) : P (heap.cell i) := by
  by_cases inside : i < heap.size
  · exact objects i inside
  · rw [heap.beyond i (Nat.le_of_not_lt inside)]
    exact fresh

@[simp] theorem size_empty : (empty : Heap α).size = 0 := rfl

@[simp] theorem cell_empty (i : ℕ) : (empty : Heap α).cell i = default := rfl

@[simp] theorem size_alloc (heap : Heap α) (value : α) : (heap.alloc value).size = heap.size + 1 := rfl

@[simp] theorem size_modify (heap : Heap α) (i : ℕ) (f : α → α) : (heap.modify i f).size = heap.size := rfl

@[simp] theorem cell_alloc_self (heap : Heap α) (value : α) : (heap.alloc value).cell heap.size = value :=
  Function.update_self ..

theorem cell_alloc_of_ne (heap : Heap α) (value : α) {i : ℕ} (other : i ≠ heap.size) :
    (heap.alloc value).cell i = heap.cell i :=
  Function.update_of_ne other ..

/-- Allocation leaves every observation alone that cannot tell the new object from the default. -/
theorem observe_alloc {β : Sort*} (observe : α → β) (heap : Heap α) (value : α)
    (fresh : observe value = observe default) (i : ℕ) :
    observe ((heap.alloc value).cell i) = observe (heap.cell i) := by
  by_cases same : i = heap.size
  · subst same
    rw [cell_alloc_self, heap.beyond _ (Nat.le_refl _), fresh]
  · rw [cell_alloc_of_ne heap value same]

@[simp] theorem cell_modify_of_ne (heap : Heap α) {i j : ℕ} (f : α → α) (other : j ≠ i) :
    (heap.modify i f).cell j = heap.cell j := by
  simp only [modify]
  split
  · exact Function.update_of_ne other ..
  · rfl

theorem cell_modify_self (heap : Heap α) {i : ℕ} (f : α → α) (inside : i < heap.size) :
    (heap.modify i f).cell i = f (heap.cell i) := by
  simp only [modify, if_pos inside, Function.update_self]

/-- The second of two writes to one object sees the first. -/
theorem modify_modify (heap : Heap α) (i : ℕ) (f g : α → α) : (heap.modify i f).modify i g = heap.modify i (g ∘ f) := by
  refine Heap.ext rfl (funext fun j => ?_)
  by_cases inside : i < heap.size
  · by_cases same : j = i
    · subst same
      rw [cell_modify_self (heap.modify j f) g inside, cell_modify_self heap f inside, cell_modify_self heap _ inside,
        Function.comp_apply]
    · rw [cell_modify_of_ne _ g same, cell_modify_of_ne _ f same, cell_modify_of_ne _ _ same]
  · simp only [modify, if_neg inside]

theorem modify_eq_self (heap : Heap α) (i : ℕ) (f : α → α) (same : f (heap.cell i) = heap.cell i) :
    heap.modify i f = heap := by
  refine Heap.ext rfl ?_
  simp only [modify, same, Function.update_eq_self, ite_self]

/-- A cell after a write is the cell before it, or the one the write was for. -/
theorem cell_modify_eq_or (heap : Heap α) (i : ℕ) (f : α → α) (j : ℕ) :
    (heap.modify i f).cell j = heap.cell j ∨ j = i ∧ (heap.modify i f).cell j = f (heap.cell j) := by
  by_cases same : j = i
  · subst same
    by_cases inside : j < heap.size
    · exact .inr ⟨rfl, cell_modify_self heap f inside⟩
    · simp only [modify, if_neg inside, true_or]
  · exact .inl (cell_modify_of_ne heap f same)

/-- A write leaves every observation alone that the written function leaves alone. -/
theorem observe_modify {β : Sort*} (observe : α → β) (heap : Heap α) (i : ℕ) (f : α → α)
    (unchanged : observe (f (heap.cell i)) = observe (heap.cell i)) (j : ℕ) :
    observe ((heap.modify i f).cell j) = observe (heap.cell j) := by
  by_cases same : j = i
  · subst same
    simp only [modify]
    split
    · rw [Function.update_self, unchanged]
    · rfl
  · rw [cell_modify_of_ne heap f same]

end Heap

end GolangMQ
