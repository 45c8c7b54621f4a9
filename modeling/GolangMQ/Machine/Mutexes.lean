import GolangMQ.Machine.Core
import GolangMQ.Machine.Heap
import Mathlib.Data.Finset.Max
import Mathlib.Logic.Relation

/-! # Mutexes taken in a fixed order

The code of a goroutine is reduced to what it does with mutexes; every decision it takes is left open.
A goroutine has a stack of what it still has to run, and the mutexes it holds. `Code.Ordered` is a
precondition in the style of Dijkstra: from the mutexes that are held, the code takes each mutex at a
rank above all it holds, releases only what it holds, and ends or returns with what its continuations
require. When all code is ordered, the goroutines that wait for each other form no cycle, and some goroutine can
always move.
-/

namespace GolangMQ

/-- What code does with the mutexes `L`. A loop may end before any of its rounds, and `go` starts one of the
routines `ρ`. -/
inductive Code (L ρ : Type) where
  | skip
  | lock (l : L)
  | unlock (l : L)
  | go (routine : ρ)
  | seq (first second : Code L ρ)
  | pick (branches : ℕ → Code L ρ)
  | loop (body : Code L ρ)
  | call (body : Code L ρ)
  | ret

namespace Code

variable {L ρ : Type}

def block : List (Code L ρ) → Code L ρ
  | [] => skip
  | first :: rest => seq first (block rest)

/-- One of finitely many statements. -/
def choice (branches : List (Code L ρ)) : Code L ρ := pick fun n => branches.getD n skip

/-- A conditional statement without an alternative. -/
def when (body : List (Code L ρ)) : Code L ρ := choice [block body]

/-- A loop over a map of references. -/
def range (body : ℕ → List (Code L ρ)) : Code L ρ := loop (pick fun i => block (body i))

/-- `cond.Wait` releases its mutex, sleeps and takes the mutex again. -/
def wait (l : L) : Code L ρ := block [unlock l, skip, lock l]

/-- A function whose body can return early. -/
def func (body : List (Code L ρ)) : Code L ρ := call (block body)

/-- From `held`, mutexes are taken in the order of their ranks, and `post` holds at the end or `exit` at a
return. -/
def Ordered [DecidableEq L] (rank : L → ℕ) : Code L ρ → (post exit : List L → Prop) → List L → Prop
  | skip, post, _, held => post held
  | lock l, post, _, held => (∀ m ∈ held, rank m < rank l) ∧ post (l :: held)
  | unlock l, post, _, held => l ∈ held ∧ post (held.erase l)
  | go _, post, _, held => post held
  | seq first second, post, exit, held => first.Ordered rank (second.Ordered rank post exit) exit held
  | pick branches, post, exit, held => ∀ n, (branches n).Ordered rank post exit held
  | loop body, post, exit, held => post held ∧ body.Ordered rank (· = held) exit held
  | call body, post, _, held => body.Ordered rank post post held
  | ret, _, exit, held => exit held

end Code

/-- What is on the stack of a goroutine: code, or the end of a call. -/
inductive Frame (L ρ : Type) where
  | code (code : Code L ρ)
  | caller

/-- A goroutine that has finished has nothing on its stack. -/
structure Goroutine (L ρ : Type) where
  stack : List (Frame L ρ) := []
  held : List L := []
deriving Inhabited

namespace Goroutine

variable {L ρ : Type}

/-- Leave the innermost call. -/
def unwind : List (Frame L ρ) → List (Frame L ρ)
  | [] => []
  | .caller :: rest => rest
  | .code _ :: rest => unwind rest

/-- A goroutine that is about to run a routine. -/
def start (code : Code L ρ) : Goroutine L ρ := { stack := [.code code] }

variable [DecidableEq L]

/-- One step, where `decision` resolves a choice, and the routine that it starts. -/
def step? (free : L → Bool) (decision : ℕ) (g : Goroutine L ρ) : Option (Goroutine L ρ × Option ρ) :=
  match g.stack with
  | [] => none
  | .caller :: rest => some ({ g with stack := rest }, none)
  | .code .skip :: rest => some ({ g with stack := rest }, none)
  | .code (.lock l) :: rest => if free l then some (⟨rest, l :: g.held⟩, none) else none
  | .code (.unlock l) :: rest => if l ∈ g.held then some (⟨rest, g.held.erase l⟩, none) else none
  | .code (.go routine) :: rest => some ({ g with stack := rest }, some routine)
  | .code (.seq first second) :: rest => some ({ g with stack := .code first :: .code second :: rest }, none)
  | .code (.pick branches) :: rest => some ({ g with stack := .code (branches decision) :: rest }, none)
  | .code (.loop body) :: rest =>
    some ({ g with stack := if decision = 0 then rest else .code body :: .code (.loop body) :: rest }, none)
  | .code (.call body) :: rest => some ({ g with stack := .code body :: .caller :: rest }, none)
  | .code .ret :: rest => some ({ g with stack := unwind rest }, none)

/-- The mutex a goroutine is about to take. -/
def wants (g : Goroutine L ρ) : Option L :=
  match g.stack with
  | .code (.lock l) :: _ => some l
  | _ => none

/-- What is required of the held mutexes when the stack continues, and when the innermost call returns. -/
def continuations (rank : L → ℕ) : List (Frame L ρ) → (List L → Prop) × (List L → Prop)
  | [] => (fun held => held = [], fun held => held = [])
  | .caller :: rest => ((continuations rank rest).1, (continuations rank rest).1)
  | .code code :: rest =>
    (code.Ordered rank (continuations rank rest).1 (continuations rank rest).2, (continuations rank rest).2)

/-- What is left to run takes its mutexes in order and leaves none behind. -/
def Ordered (rank : L → ℕ) (g : Goroutine L ρ) : Prop := (continuations rank g.stack).1 g.held

end Goroutine

/-- No goroutine of the pool holds the mutex. -/
def isFree {L ρ : Type} [DecidableEq L] (pool : Heap (Goroutine L ρ)) (l : L) : Bool :=
  decide (∀ j < pool.size, l ∉ (pool j).held)

/-- The pool in which goroutine `main` has been started; a label names the goroutine that moves and the
decision it takes. -/
def goroutines {L ρ : Type} [DecidableEq L] (code : ρ → Code L ρ) (main : ρ) :
    Machine (Heap (Goroutine L ρ)) (ℕ × ℕ) where
  init := Heap.empty.alloc (.start (code main))
  step? pool := fun (i, decision) =>
    ((pool i).step? (isFree pool) decision).map fun (g, started) =>
      (started.map fun routine => (pool.modify i fun _ => g).alloc (.start (code routine))).getD
        (pool.modify i fun _ => g)

/-- Goroutine `i` waits for a mutex that `j` holds. -/
def Waits {L ρ : Type} [DecidableEq L] (pool : Heap (Goroutine L ρ)) (i j : ℕ) : Prop :=
  ∃ l, (pool i).wants = some l ∧ l ∈ (pool j).held

variable {L ρ : Type} [DecidableEq L] {rank : L → ℕ}

namespace Code

private theorem Ordered.mono {code : Code L ρ} {post post' exit exit' : List L → Prop} {held : List L}
    (ordered : code.Ordered rank post exit held) (ends : ∀ held, post held → post' held)
    (returns : ∀ held, exit held → exit' held) : code.Ordered rank post' exit' held := by
  induction code generalizing post post' exit exit' held with
  | skip | go => exact ends _ ordered
  | lock l => exact ⟨ordered.1, ends _ ordered.2⟩
  | unlock l => exact ⟨ordered.1, ends _ ordered.2⟩
  | seq first second before after => exact before ordered (fun _ rest => after rest ends returns) returns
  | pick branches each => exact fun n => each n (ordered n) ends returns
  | loop body round => exact ⟨ends _ ordered.1, round ordered.2 (fun _ same => same) returns⟩
  | call body inner => exact inner ordered ends ends
  | ret => exact returns _ ordered

section Rules

variable {code : Code L ρ} {post exit : List L → Prop} {held : List L}

@[simp] theorem ordered_skip : (skip : Code L ρ).Ordered rank post exit held ↔ post held := .rfl

@[simp] theorem ordered_lock {l : L} :
    (lock l : Code L ρ).Ordered rank post exit held ↔ (∀ m ∈ held, rank m < rank l) ∧ post (l :: held) := .rfl

@[simp] theorem ordered_unlock {l : L} :
    (unlock l : Code L ρ).Ordered rank post exit held ↔ l ∈ held ∧ post (held.erase l) := .rfl

@[simp] theorem ordered_go {routine : ρ} : (go routine : Code L ρ).Ordered rank post exit held ↔ post held := .rfl

@[simp] theorem ordered_ret : (ret : Code L ρ).Ordered rank post exit held ↔ exit held := .rfl

@[simp] theorem ordered_pick {branches : ℕ → Code L ρ} :
    (pick branches).Ordered rank post exit held ↔ ∀ n, (branches n).Ordered rank post exit held := .rfl

@[simp] theorem ordered_block_nil : (block [] : Code L ρ).Ordered rank post exit held ↔ post held := .rfl

@[simp] theorem ordered_block_cons {rest : List (Code L ρ)} :
    (block (code :: rest)).Ordered rank post exit held ↔
      code.Ordered rank ((block rest).Ordered rank post exit) exit held := .rfl

@[simp] theorem ordered_func {body : List (Code L ρ)} :
    (func body).Ordered rank post exit held ↔ (block body).Ordered rank post post held := .rfl

@[simp] theorem ordered_range {body : ℕ → List (Code L ρ)} :
    (range body).Ordered rank post exit held ↔
      post held ∧ ∀ i, (block (body i)).Ordered rank (· = held) exit held := .rfl

@[simp] theorem ordered_loop : (loop code).Ordered rank post exit held ↔
    post held ∧ code.Ordered rank (· = held) exit held := .rfl

/-- No branch may be taken at all. -/
@[simp] theorem ordered_choice {branches : List (Code L ρ)} :
    (choice branches).Ordered rank post exit held ↔
      post held ∧ ∀ branch ∈ branches, branch.Ordered rank post exit held := by
  have taken (n : ℕ) : branches.getD n skip = (branches[n]?).getD skip := List.getD_eq_getElem?_getD ..
  simp only [choice, ordered_pick, taken]
  constructor
  · intro ordered
    refine ⟨?_, fun branch member => ?_⟩
    · simpa using ordered branches.length
    · obtain ⟨n, found⟩ := List.getElem?_of_mem member
      simpa [found] using ordered n
  · rintro ⟨none, each⟩ n
    cases found : branches[n]? with
    | none => exact none
    | some branch => exact each branch (List.mem_of_getElem? found)

@[simp] theorem ordered_when {body : List (Code L ρ)} :
    (when body).Ordered rank post exit held ↔ post held ∧ (block body).Ordered rank post exit held := by
  simp [when]

@[simp] theorem ordered_wait {l : L} :
    (wait l : Code L ρ).Ordered rank post exit held ↔
      l ∈ held ∧ (∀ m ∈ held.erase l, rank m < rank l) ∧ post (l :: held.erase l) := .rfl

/-- The code takes mutexes from rank `floor` on, and gives all of them back. -/
def Balanced (rank : L → ℕ) (floor : ℕ) (code : Code L ρ) : Prop :=
  ∀ {post exit : List L → Prop} {held : List L}, (∀ m ∈ held, rank m < floor) → post held →
    code.Ordered rank post exit held

end Rules

end Code

namespace Goroutine

variable {g g' : Goroutine L ρ} {free : L → Bool} {decision : ℕ} {started : Option ρ} {l : L}

private theorem continuations_unwind (stack : List (Frame L ρ)) :
    (continuations rank (unwind stack)).1 = (continuations rank stack).2 := by
  induction stack with
  | nil => rfl
  | cons frame rest ih =>
    cases frame with
    | caller => rfl
    | code => exact ih

/-- What is held ranks below what is wanted. -/
theorem Ordered.below (ordered : g.Ordered rank) (wanted : g.wants = some l) : ∀ m ∈ g.held, rank m < rank l := by
  obtain ⟨stack, held⟩ := g
  unfold wants at wanted
  split at wanted
  · next top =>
    cases wanted
    cases top
    exact ordered.1
  · contradiction

private theorem Ordered.step (ordered : g.Ordered rank) (stepped : g.step? free decision = some (g', started)) :
    g'.Ordered rank := by
  obtain ⟨stack, held⟩ := g
  cases stack with
  | nil => contradiction
  | cons frame rest =>
    cases frame with
    | caller =>
      cases stepped
      exact ordered
    | code code =>
      cases code with
      | skip | go | seq | call =>
        cases stepped
        exact ordered
      | lock l =>
        simp only [step?] at stepped
        split_ifs at stepped
        cases stepped
        exact ordered.2
      | unlock l =>
        simp only [step?] at stepped
        split_ifs at stepped
        cases stepped
        exact ordered.2
      | pick branches =>
        cases stepped
        exact ordered decision
      | loop body =>
        cases stepped
        unfold Ordered
        dsimp only
        split
        · exact ordered.1
        · -- The round ends with what the loop has started with, so the loop is as good as before.
          exact ordered.2.mono (fun _ same => same ▸ ordered) fun _ exit => exit
      | ret =>
        cases stepped
        exact (congrFun (continuations_unwind rest) held).mpr ordered

/-- A goroutine that cannot move has finished or waits for a mutex. -/
theorem Ordered.blocked (ordered : g.Ordered rank) (unfinished : g.stack ≠ [])
    (stuck : g.step? free 0 = none) : ∃ l, g.wants = some l ∧ free l = false := by
  obtain ⟨stack, held⟩ := g
  cases stack with
  | nil => contradiction
  | cons frame rest =>
    cases frame with
    | caller => contradiction
    | code code =>
      cases code with
      | lock l =>
        simp only [step?] at stuck
        split_ifs at stuck with taken
        exact ⟨l, rfl, Bool.eq_false_of_not_eq_true taken⟩
      | unlock l =>
        simp only [step?, if_pos ordered.1] at stuck
        contradiction
      | _ => contradiction

private theorem Ordered.held_of_finished (ordered : g.Ordered rank) (finished : g.stack = []) : g.held = [] := by
  obtain ⟨stack, held⟩ := g
  subst finished
  exact ordered

end Goroutine

section Pool

variable {code : ρ → Code L ρ} {main : ρ} {pool : Heap (Goroutine L ρ)}

/-- In a pool that runs ordered code, what every goroutine has left is ordered. -/
theorem ordered_of_reachable (ordered : ∀ routine, (code routine).Ordered rank (· = []) (· = []) [])
    (reached : (goroutines code main).Reachable Machine.anyStep pool) (i : ℕ) : (pool i).Ordered rank := by
  refine reached.invariant (P := fun pool => ∀ i, (pool i).Ordered rank) (fun i => ?_) ?_ i
  · refine Heap.forall_cell (P := Goroutine.Ordered rank) _ rfl (fun i inside => ?_) i
    obtain rfl : i = 0 := Nat.lt_one_iff.1 inside
    exact ordered main
  intro source target label _ before _ stepped i
  obtain ⟨⟨g, started⟩, moved, rfl⟩ := Option.map_eq_some_iff.1 stepped
  let after := source.modify label.1 fun _ => g
  have modified (i : ℕ) : (after i).Ordered rank := by
    rcases source.cell_modify_eq_or label.1 (fun _ => g) i with same | ⟨rfl, changed⟩
    · rw [same]
      exact before i
    · rw [changed]
      exact (before _).step moved
  cases started with
  | none => exact modified i
  | some routine =>
    change ((after.alloc (.start (code routine))) i).Ordered rank
    by_cases new : i = after.size
    · subst new
      rw [Heap.cell_alloc_self]
      exact ordered routine
    · rw [Heap.cell_alloc_of_ne _ _ new]
      exact modified i

variable (disciplined : ∀ i, (pool i).Ordered rank)
include disciplined

/-- Along a chain of waiting goroutines the ranks of the mutexes increase. -/
private theorem rank_le_of_waits {i j : ℕ} (chain : Relation.TransGen (Waits pool) i j) :
    ∃ l, (pool i).wants = some l ∧ ∃ m ∈ (pool j).held, rank l ≤ rank m := by
  induction chain with
  | single waits =>
    obtain ⟨l, wanted, held⟩ := waits
    exact ⟨l, wanted, l, held, Nat.le_refl _⟩
  | tail _ waits ih =>
    obtain ⟨l, wanted, m, held, below⟩ := ih
    obtain ⟨next, awaited, holds⟩ := waits
    exact ⟨l, wanted, next, holds, below.trans (Nat.le_of_lt ((disciplined _).below awaited m held))⟩

/-- No cycle of goroutines waits for each other's mutexes. -/
theorem acyclic_waits (i : ℕ) : ¬ Relation.TransGen (Waits pool) i i := by
  intro cycle
  obtain ⟨l, wanted, m, held, below⟩ := rank_le_of_waits disciplined cycle
  exact absurd ((disciplined i).below wanted m held) (Nat.not_lt.2 below)

/-- As long as some goroutine has not finished, some goroutine can move. -/
theorem exists_step {i : ℕ} (unfinished : (pool i).stack ≠ []) :
    ∃ j next, (goroutines code main).step? pool (j, 0) = some next := by
  by_contra stuck
  have blocked (j : ℕ) (unfinished : (pool j).stack ≠ []) :
      ∃ l, (pool j).wants = some l ∧ ∃ k, l ∈ (pool k).held := by
    have none : (pool j).step? (isFree pool) 0 = none := by
      cases moved : (pool j).step? (isFree pool) 0 with
      | none => rfl
      | some result => exact absurd ⟨j, _, Option.map_eq_some_iff.2 ⟨result, moved, rfl⟩⟩ stuck
    obtain ⟨l, wanted, taken⟩ := (disciplined j).blocked unfinished none
    have taken := of_decide_eq_false taken
    push Not at taken
    obtain ⟨k, -, held⟩ := taken
    exact ⟨l, wanted, k, held⟩
  have inside (j : ℕ) (unfinished : (pool j).stack ≠ []) : j < pool.size := by
    by_contra outside
    rw [pool.beyond j (Nat.le_of_not_lt outside)] at unfinished
    exact unfinished rfl
  -- The goroutine that waits for the mutex of the highest rank waits for one that waits for a higher one.
  let waiting := (Finset.range pool.size).filter fun j => (pool j).wants.isSome
  obtain ⟨l, wanted, -⟩ := blocked i unfinished
  obtain ⟨last, member, highest⟩ := waiting.exists_max_image (fun j => ((pool j).wants.map rank).getD 0)
    ⟨i, Finset.mem_filter.2 ⟨Finset.mem_range.2 (inside i unfinished), by rw [wanted]; rfl⟩⟩
  obtain ⟨m, awaited⟩ := Option.isSome_iff_exists.1 (Finset.mem_filter.1 member).2
  have pending : (pool last).stack ≠ [] := by
    intro finished
    rw [Goroutine.wants, finished] at awaited
    contradiction
  obtain ⟨m', awaited', k, held⟩ := blocked last pending
  obtain rfl : m = m' := Option.some.inj (awaited.symm.trans awaited')
  have holding : (pool k).stack ≠ [] := by
    intro finished
    rw [(disciplined k).held_of_finished finished] at held
    contradiction
  obtain ⟨n, higher, -⟩ := blocked k holding
  have above := (disciplined k).below higher m held
  have bound := highest k (Finset.mem_filter.2 ⟨Finset.mem_range.2 (inside k holding), by rw [higher]; rfl⟩)
  rw [higher, awaited] at bound
  exact absurd above (Nat.not_lt.2 bound)

end Pool

end GolangMQ
