import GolangMQ.Machine.Heap
import Mathlib.Algebra.Notation.Defs
import Mathlib.Data.List.TakeDrop

/-! # Slices of arrays in memory

A slice is a reference to an array with a length of its own; an array is as long as its capacity. Appending writes
behind the slice where the array has room, and moves to a larger array otherwise. `Heap.Holds` says what a slice
shows, and each operation has one rule for it.
-/

namespace GolangMQ

/-- A slice that starts where its array starts. -/
structure Slice where
  array : ℕ
  len : ℕ
deriving DecidableEq, Repr

/-- The first `n` elements, in the same array. -/
def Slice.cut (s : Slice) (n : ℕ) : Slice := { s with len := n }

namespace Heap

variable {α : Type*}

def contents (memory : Heap (List α)) (s : Slice) : List α := (memory s.array).take s.len

/-- The elements of `s` are rewritten in their array. -/
def inPlace (memory : Heap (List α)) (s : Slice) (f : List α → List α) : Heap (List α) :=
  memory.modify s.array fun array => f (array.take s.len) ++ array.drop s.len

section Append

variable [Zero α]

/-- A new array that starts with `elements`, and has `spare` further places. -/
def make (memory : Heap (List α)) (elements : List α) (spare : ℕ) : Heap (List α) × Slice :=
  (memory.alloc (elements ++ List.replicate spare 0), ⟨memory.size, elements.length⟩)

/-- The built-in `append` of one element; `spare` says from the old capacity and the new length how much more than
needed a larger array gets. -/
def append (spare : ℕ → ℕ → ℕ) (memory : Heap (List α)) (s : Slice) (v : α) : Heap (List α) × Slice :=
  let cap := (memory s.array).length
  if s.len < cap then (memory.modify s.array fun array => array.set s.len v, { s with len := s.len + 1 })
  else memory.make (memory.contents s ++ [v]) (spare cap (s.len + 1))

end Append

/-- The slice `s` lies in memory and shows `elements`. -/
structure Holds (memory : Heap (List α)) (s : Slice) (elements : List α) : Prop where
  allocated : s.array < memory.size
  shown : elements <+: memory s.array
  measured : s.len = elements.length

namespace Holds

variable {memory : Heap (List α)} {s : Slice} {elements : List α}

theorem contents_eq (holds : memory.Holds s elements) : memory.contents s = elements := by
  rw [contents, holds.measured]
  exact (List.prefix_iff_eq_take.1 holds.shown).symm

theorem cut (holds : memory.Holds s elements) {n : ℕ} (inside : n ≤ elements.length) :
    memory.Holds (s.cut n) (elements.take n) :=
  ⟨holds.allocated, (List.take_prefix n elements).trans holds.shown, by simp [Slice.cut, inside]⟩

/-- A new array leaves the others alone. -/
theorem alloc (holds : memory.Holds s elements) (array : List α) : (memory.alloc array).Holds s elements where
  allocated := Nat.lt_succ_of_lt holds.allocated
  shown := by rw [cell_alloc_of_ne memory array (Nat.ne_of_lt holds.allocated)]; exact holds.shown
  measured := holds.measured

theorem inPlace_of_ne (holds : memory.Holds s elements) {other : Slice} (apart : s.array ≠ other.array)
    (f : List α → List α) : (memory.inPlace other f).Holds s elements where
  allocated := holds.allocated
  shown := by rw [inPlace, cell_modify_of_ne memory _ apart]; exact holds.shown
  measured := holds.measured

theorem inPlace_self (holds : memory.Holds s elements) {f : List α → List α}
    (sameLength : (f elements).length = elements.length) : (memory.inPlace s f).Holds s (f elements) where
  allocated := holds.allocated
  shown := by
    rw [inPlace, cell_modify_self memory _ holds.allocated, ← contents, holds.contents_eq]
    exact List.prefix_append ..
  measured := holds.measured.trans sameLength.symm

section Append

variable [Zero α]

theorem make (memory : Heap (List α)) (elements : List α) (spare : ℕ) :
    (memory.make elements spare).1.Holds (memory.make elements spare).2 elements where
  allocated := Nat.lt_succ_self _
  shown := by simp only [Heap.make, cell_alloc_self]; exact List.prefix_append ..
  measured := rfl

theorem append (holds : memory.Holds s elements) (spare : ℕ → ℕ → ℕ) (v : α) :
    (memory.append spare s v).1.Holds (memory.append spare s v).2 (elements ++ [v]) := by
  obtain ⟨rest, shown⟩ := holds.shown
  simp only [Heap.append]
  split
  case isTrue room =>
    -- the array goes on behind the slice, and its next place is overwritten
    rw [← shown, List.length_append, holds.measured] at room
    obtain ⟨next, rest, rfl⟩ := List.exists_cons_of_length_pos (show 0 < rest.length by omega)
    refine ⟨holds.allocated, ?_, by simp [holds.measured]⟩
    rw [cell_modify_self memory _ holds.allocated, ← shown, holds.measured]
    exact ⟨rest, by simp⟩
  case isFalse full =>
    rw [holds.contents_eq]
    exact make ..

end Append

end Holds

end Heap

end GolangMQ
