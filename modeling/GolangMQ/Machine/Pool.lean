import GolangMQ.ToMathlib.Collections
import Mathlib.Algebra.Order.Group.Multiset

/-! # Tallies over a pool of goroutines

Goroutine `i` of a pool still has to run the sections `todo i`, in that order. A load adds up what the
pending sections of the whole pool weigh. A tally is the load of the payloads that a classifier reads off
them: the messages held in local variables, the signals still owed, and the like. Advancing one goroutine
replaces its first section by the sections it leads to; `load_advance` is the only fact about the sum that a
model needs, and its corollaries are the shapes in which it occurs.
-/

namespace GolangMQ

/-- What the pending sections of the first `n` goroutines weigh together. -/
def load {α M : Type*} [AddCommMonoid M] (weight : α → M) (n : ℕ) (todo : ℕ → List α) : M :=
  ∑ i ∈ Finset.range n, ((todo i).map weight).sum

/-- The payloads of the pending sections of the first `n` goroutines. -/
def tally {α β : Type*} (classify : α → Option β) (n : ℕ) (todo : ℕ → List α) : Multiset β :=
  ∑ i ∈ Finset.range n, ((todo i).filterMap classify : Multiset β)

section Load

variable {α M : Type*} [AddCommMonoid M] (weight : α → M) {n i : ℕ} {todo : ℕ → List α}

/-- Replacing the sections of one goroutine exchanges exactly their weights. -/
private theorem load_update (todo : ℕ → List α) (inside : i < n) (sections : List α) :
    load weight n (Function.update todo i sections) + ((todo i).map weight).sum =
      load weight n todo + (sections.map weight).sum := by
  have pointwise : (fun j => ((Function.update todo i sections j).map weight).sum) =
      Function.update (fun j => ((todo j).map weight).sum) i (sections.map weight).sum :=
    funext fun j => Function.apply_update (fun _ pending => (pending.map weight).sum) todo i sections j
  simp only [load, pointwise]
  exact Finset.sum_update_add (Finset.mem_range.mpr inside) _ _

/-- A pool with nothing pending weighs nothing. -/
theorem load_idle (idle : ∀ i < n, todo i = []) : load weight n todo = 0 := by
  refine Finset.sum_eq_zero fun i member => ?_
  rw [idle i (Finset.mem_range.1 member)]
  rfl

/-- An idle goroutine adds the weight of what it starts. -/
theorem load_start (inside : i < n) (idle : todo i = []) (sections : List α) :
    load weight n (Function.update todo i sections) = load weight n todo + (sections.map weight).sum := by
  simpa [idle] using load_update weight todo inside sections

end Load

/-- One goroutine runs its first section and continues with the sections it leads to. -/
theorem load_advance {α M : Type*} [AddCancelCommMonoid M] (weight : α → M) {n i : ℕ} {todo : ℕ → List α}
    (inside : i < n) {first : α} {rest : List α} (pending : todo i = first :: rest) (next : List α) :
    load weight n (Function.update todo i (next ++ rest)) + weight first =
      load weight n todo + (next.map weight).sum := by
  have exchanged := load_update weight todo inside (next ++ rest)
  rw [pending, List.map_cons, List.sum_cons, List.map_append, List.sum_append, ← add_assoc, ← add_assoc] at exchanged
  exact add_right_cancel exchanged

variable {α β : Type*} (classify : α → Option β) {n i : ℕ} {todo : ℕ → List α}

theorem coe_filterMap (sections : List α) :
    (sections.filterMap classify : Multiset β) =
      (sections.map fun pending => ((classify pending).toList : Multiset β)).sum := by
  induction sections with
  | nil => rfl
  | cons first rest ih =>
    rw [List.map_cons, List.sum_cons, ← ih, Multiset.coe_add]
    cases found : classify first <;> simp [found]

private theorem tally_eq_load (n : ℕ) (todo : ℕ → List α) :
    tally classify n todo = load (fun pending => ((classify pending).toList : Multiset β)) n todo :=
  Finset.sum_congr rfl fun i _ => coe_filterMap classify (todo i)

theorem mem_tally {classify : α → Option β} {payload : β} :
    payload ∈ tally classify n todo ↔
      ∃ i < n, ∃ pending ∈ todo i, classify pending = some payload := by
  simp only [tally, Multiset.mem_sum, Finset.mem_range, Multiset.mem_coe, List.mem_filterMap]

/-- Only the pending sections matter. -/
theorem tally_congr {other : α → Option β} (same : ∀ i < n, ∀ pending ∈ todo i, classify pending = other pending) :
    tally classify n todo = tally other n todo := by
  refine Finset.sum_congr rfl fun i member => ?_
  rw [List.filterMap_congr (same i (Finset.mem_range.1 member))]

/-- Replacing the sections of one goroutine exchanges exactly their payloads. -/
theorem tally_update (todo : ℕ → List α) (inside : i < n) (sections : List α) :
    tally classify n (Function.update todo i sections) + ((todo i).filterMap classify : Multiset β) =
      tally classify n todo + (sections.filterMap classify : Multiset β) := by
  simp only [tally_eq_load, coe_filterMap]
  exact load_update _ todo inside sections

/-- One goroutine runs its first section and continues with the sections it leads to. -/
theorem tally_advance (inside : i < n) {first : α} {rest : List α} (pending : todo i = first :: rest)
    (next : List α) :
    tally classify n (Function.update todo i (next ++ rest)) + ((classify first).toList : Multiset β) =
      tally classify n todo + (next.filterMap classify : Multiset β) := by
  simp only [tally_eq_load, coe_filterMap]
  exact load_advance _ inside pending next

/-- A section without payload that leads to none leaves the tally alone. -/
theorem tally_advance_none (inside : i < n) {first : α} {rest : List α}
    (pending : todo i = first :: rest) {next : List α} (silent : classify first = none)
    (quiet : next.filterMap classify = []) :
    tally classify n (Function.update todo i (next ++ rest)) = tally classify n todo := by
  simpa only [silent, quiet, Option.toList_none, Multiset.coe_nil, add_zero] using
    tally_advance classify inside pending next

/-- A section that leads to one payload adds it. -/
theorem tally_advance_add (inside : i < n) {first : α} {rest : List α}
    (pending : todo i = first :: rest) {next : List α} {payload : β} (silent : classify first = none)
    (added : next.filterMap classify = [payload]) :
    tally classify n (Function.update todo i (next ++ rest)) = payload ::ₘ tally classify n todo := by
  have exchanged := tally_advance classify inside pending next
  rw [silent, added, Option.toList_none, Multiset.coe_nil, add_zero, Multiset.coe_singleton] at exchanged
  rw [exchanged, add_comm, Multiset.singleton_add]

/-- A section that carries one payload and leads to none removes it. -/
theorem tally_advance_erase [DecidableEq β] (inside : i < n) {first : α} {rest : List α}
    (pending : todo i = first :: rest) {next : List α} {payload : β}
    (carried : classify first = some payload) (quiet : next.filterMap classify = []) :
    payload ∈ tally classify n todo ∧
      tally classify n (Function.update todo i (next ++ rest)) = (tally classify n todo).erase payload := by
  have exchanged := tally_advance classify inside pending next
  rw [carried, quiet, Option.toList_some, Multiset.coe_nil, add_zero, Multiset.coe_singleton, add_comm,
    Multiset.singleton_add] at exchanged
  rw [← exchanged]
  exact ⟨Multiset.mem_cons_self _ _, (Multiset.erase_cons_head _ _).symm⟩

/-- An idle goroutine that starts on sections without payload leaves the tally alone. -/
theorem tally_start (inside : i < n) (idle : todo i = []) {sections : List α}
    (quiet : sections.filterMap classify = []) :
    tally classify n (Function.update todo i sections) = tally classify n todo := by
  have exchanged := tally_update classify todo inside sections
  simpa only [idle, quiet, List.filterMap_nil, Multiset.coe_nil, add_zero] using exchanged

/-- A goroutine added to the pool with nothing pending contributes nothing. -/
theorem tally_succ (idle : todo n = []) : tally classify (n + 1) todo = tally classify n todo := by
  simp only [tally, Finset.sum_range_succ, idle, List.filterMap_nil, Multiset.coe_nil, add_zero]

/-- A pool with nothing pending has no payloads. -/
theorem tally_idle (idle : ∀ i < n, todo i = []) : tally classify n todo = 0 := by
  rw [tally_eq_load]
  exact load_idle _ idle

/-- The payloads of the places where the first `n` goroutines stand. -/
def census (n : ℕ) (place : ℕ → α) : Multiset β := tally classify n fun i => [place i]

/-- A goroutine that goes to another place exchanges its payload. -/
theorem census_update (place : ℕ → α) (inside : i < n) (next : α) :
    census classify n (Function.update place i next) + ((classify (place i)).toList : Multiset β) =
      census classify n place + ((classify next).toList : Multiset β) := by
  have pointwise : (fun j => [Function.update place i next j]) = Function.update (fun j => [place j]) i [next] :=
    funext fun j => Function.apply_update (fun _ here => [here]) place i next j
  have read (a : α) : List.filterMap classify [a] = (classify a).toList := by
    cases found : classify a <;> simp [found]
  have exchanged := tally_update classify (fun j => [place j]) inside [next]
  rw [read, read] at exchanged
  rwa [census, pointwise]

theorem mem_census {classify : α → Option β} {place : ℕ → α} {payload : β} :
    payload ∈ census classify n place ↔ ∃ i < n, classify (place i) = some payload := by
  simp [census, mem_tally]

/-- There are no payloads when no goroutine stands at a place that has one. -/
theorem census_eq_zero {classify : α → Option β} {place : ℕ → α} :
    census classify n place = 0 ↔ ∀ i < n, classify (place i) = none := by
  rw [Multiset.eq_zero_iff_forall_notMem]
  constructor
  · intro nothing i inside
    exact Option.eq_none_iff_forall_ne_some.2 fun payload found => nothing payload (mem_census.2 ⟨i, inside, found⟩)
  · intro without payload member
    obtain ⟨i, inside, found⟩ := mem_census.1 member
    cases (without i inside).symm.trans found

end GolangMQ
