import GolangMQ.ToMathlib.Collections
import Mathlib.Algebra.Order.BigOperators.Group.Finset
import Mathlib.Data.Multiset.DershowitzManna
import Mathlib.Data.Prod.Lex

/-! # Workers with lists of tasks

A worker takes the first task of its list and puts finitely many smaller ones in its place. There is no bound on
how many, so no number measures the work; but the tasks of finitely many workers decrease in the multiset order,
and that order is well-founded. Where each task has a price and leads to no more than it costs, the price of all
tasks together is a budget.
-/

namespace GolangMQ.Worklists

variable {τ : Type*}

/-- The tasks of the first `n` workers. -/
def tasks (lists : ℕ → List τ) (n : ℕ) : Multiset τ := ∑ k ∈ Finset.range n, (lists k : Multiset τ)

private theorem tasks_eq (lists : ℕ → List τ) {k n : ℕ} (inside : k < n) :
    tasks lists n = ∑ j ∈ (Finset.range n).erase k, (lists j : Multiset τ) + lists k := by
  rw [tasks, Finset.sum_erase_add _ _ (Finset.mem_range.2 inside)]

/-- A worker does its first task. -/
theorem tasks_update_lt [Preorder τ] {lists : ℕ → List τ} {k n : ℕ} {first : τ} {rest next : List τ} (inside : k < n)
    (head : lists k = first :: rest) (smaller : ∀ task ∈ next, task < first) :
    (tasks (Function.update lists k (next ++ rest)) n).IsDershowitzMannaLT (tasks lists n) := by
  have others : ∑ j ∈ (Finset.range n).erase k, (Function.update lists k (next ++ rest) j : Multiset τ) =
      ∑ j ∈ (Finset.range n).erase k, (lists j : Multiset τ) := by
    refine Finset.sum_congr rfl fun j other => ?_
    rw [Function.update_of_ne (Finset.ne_of_mem_erase other)]
  rw [tasks_eq _ inside, tasks_eq lists inside, others, Function.update_self, head]
  refine ⟨∑ j ∈ (Finset.range n).erase k, (lists j : Multiset τ) + rest, next, {first}, ?_, ?_, ?_, ?_⟩
  · exact Multiset.singleton_ne_zero first
  · rw [← Multiset.coe_add, add_assoc, add_comm (rest : Multiset τ)]
  · rw [← Multiset.cons_coe, ← Multiset.singleton_add, add_assoc, add_comm (rest : Multiset τ)]
  · exact fun task member => ⟨first, Multiset.mem_singleton_self first, smaller task member⟩

/-- Moves end that lower the tasks, or keep the tasks and lower a number. -/
theorem wellFounded_of_lowers {σ : Type*} [Preorder τ] [WellFoundedLT τ] {moves : σ → σ → Prop}
    (work : σ → Multiset τ) (effort : σ → ℕ)
    (lowers : ∀ before after, moves before after → (work after).IsDershowitzMannaLT (work before) ∨
      work after = work before ∧ effort after < effort before) :
    WellFounded fun after before => moves before after := by
  have order : WellFounded (Prod.Lex Multiset.IsDershowitzMannaLT (· < ·) : Multiset τ × ℕ → Multiset τ × ℕ → Prop) :=
    Multiset.wellFounded_isDershowitzMannaLT.prod_lex wellFounded_lt
  refine Subrelation.wf ?_ (InvImage.wf (fun state => (work state, effort state)) order)
  intro after before moved
  rcases lowers before after moved with fewer | ⟨same, less⟩
  · exact .left _ _ fewer
  · dsimp only [InvImage]
    rw [same]
    exact .right _ less

section Price

variable (cost : τ → ℕ) {lists : ℕ → List τ} {k n : ℕ}

/-- What the tasks of the first `n` workers cost together. -/
def price (lists : ℕ → List τ) (n : ℕ) : ℕ := ∑ k ∈ Finset.range n, ((lists k).map cost).sum

theorem sum_cost_eq_zero {list : List τ} (free : ∀ task ∈ list, cost task = 0) : (list.map cost).sum = 0 := by
  refine List.sum_eq_zero fun value member => ?_
  obtain ⟨task, listed, rfl⟩ := List.mem_map.1 member
  exact free task listed

private theorem price_update (lists : ℕ → List τ) (inside : k < n) (list : List τ) :
    price cost (Function.update lists k list) n + ((lists k).map cost).sum =
      price cost lists n + (list.map cost).sum := by
  have exchanged := Finset.sum_update_add (Finset.mem_range.2 inside) (fun j => ((lists j).map cost).sum)
    (list.map cost).sum
  have same (j : ℕ) : ((Function.update lists k list j).map cost).sum =
      Function.update (fun j => ((lists j).map cost).sum) k (list.map cost).sum j :=
    Function.apply_update (fun _ tasks => (tasks.map cost).sum) lists k list j
  rw [price, Finset.sum_congr rfl fun j _ => same j]
  exact exchanged

/-- An idle worker gets tasks. -/
theorem price_start (inside : k < n) (idle : lists k = []) (list : List τ) :
    price cost (Function.update lists k list) n = price cost lists n + (list.map cost).sum := by
  have exchanged := price_update cost lists inside list
  rwa [idle, List.map_nil, List.sum_nil, Nat.add_zero] at exchanged

/-- A worker takes its first task. -/
theorem price_take (inside : k < n) {first : τ} {rest : List τ} (head : lists k = first :: rest) :
    price cost (Function.update lists k rest) n + cost first = price cost lists n := by
  have exchanged := price_update cost lists inside rest
  rw [head, List.map_cons, List.sum_cons] at exchanged
  omega

/-- A worker gets tasks before those it has. -/
theorem price_push (lists : ℕ → List τ) (inside : k < n) (next rest : List τ) :
    price cost (Function.update lists k (next ++ rest)) n =
      price cost (Function.update lists k rest) n + (next.map cost).sum := by
  have exchanged := price_update cost (Function.update lists k rest) inside (next ++ rest)
  rw [Function.update_idem, Function.update_self, List.map_append, List.sum_append] at exchanged
  omega

/-- One more worker, without tasks. -/
theorem price_succ (idle : lists n = []) : price cost lists (n + 1) = price cost lists n := by
  rw [price, price, Finset.sum_range_succ, idle]
  rfl

variable {cost}

theorem price_le {cost' : τ → ℕ} (less : ∀ k < n, ∀ task ∈ lists k, cost' task ≤ cost task) :
    price cost' lists n ≤ price cost lists n := by
  refine Finset.sum_le_sum fun k inside => List.sum_le_sum fun task member => ?_
  exact less k (Finset.mem_range.1 inside) task member

end Price

end GolangMQ.Worklists
