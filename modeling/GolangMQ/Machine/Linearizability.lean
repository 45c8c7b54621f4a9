import GolangMQ.Machine.Core
import Mathlib.Data.List.Nodup

/-! # Linearizability

Clients see an object through a history: operations are called, and return results. A sequential object is a
machine whose labels are operations with their results. An order of operations explains a history when the
sequential object accepts it, when it has every result that was returned, and when an operation that returned
before another one was called stands before it. The rules below build such an order along a run: an operation is
called, takes effect once, and returns the result it took effect with.
-/

namespace GolangMQ

open scoped List

/-- One thing stands before another in a list that has grown by one: in the old list, or the second is the new one. -/
private theorem pair_sublist_concat {α : Type*} {a b last : α} {l : List α} (earlier : [a, b] <+ l ++ [last]) :
    [a, b] <+ l ∨ b = last := by
  obtain ⟨first, second, split, inside, ends⟩ := List.sublist_append_iff.1 earlier
  rcases List.sublist_singleton.1 ends with rfl | rfl
  · rw [List.append_nil] at split
    exact .inl (split ▸ inside)
  · obtain ⟨-, same⟩ := List.append_inj' (show [a] ++ [b] = first ++ [last] from split) rfl
    exact .inr (List.singleton_injective same)

/-- What the clients of an object see. -/
inductive Event (ι ρ : Type*) where
  | call (op : ι)
  | ret (op : ι) (result : ρ)
deriving DecidableEq

/-- `order` explains `history` and takes the sequential object to `final`. Operations that have taken effect and not
returned yet may stand in it. -/
structure Linearization {σ ι ρ : Type*} (object : Machine σ (ι × ρ)) (history : List (Event ι ρ))
    (order : List (ι × ρ)) (final : σ) : Prop where
  legal : object.run? object.init order = some final
  once : (order.map Prod.fst).Nodup
  called : ∀ entry ∈ order, .call entry.1 ∈ history
  complete : ∀ op result, .ret op result ∈ history → (op, result) ∈ order
  realTime : ∀ a r b s, [.ret a r, .call b] <+ history → (b, s) ∈ order → [(a, r), (b, s)] <+ order

namespace Linearization

variable {σ ι ρ : Type*} {object : Machine σ (ι × ρ)} {history : List (Event ι ρ)} {order : List (ι × ρ)}
  {final next : σ} {op : ι} {result : ρ}

theorem nil : Linearization object [] [] object.init where
  legal := rfl
  once := List.nodup_nil
  called _ member := absurd member List.not_mem_nil
  complete _ _ returned := absurd returned List.not_mem_nil
  realTime _ _ _ _ earlier := absurd earlier (by simp)

/-- A new operation is called. -/
theorem call (lin : Linearization object history order final) (fresh : ∀ r, (op, r) ∉ order) :
    Linearization object (history ++ [.call op]) order final where
  legal := lin.legal
  once := lin.once
  called entry member := List.mem_append_left _ (lin.called entry member)
  complete a r returned := by
    rcases List.mem_append.1 returned with before | last
    · exact lin.complete a r before
    · simp at last
  realTime a r b s earlier member := by
    rcases pair_sublist_concat earlier with before | last
    · exact lin.realTime a r b s before member
    · -- The last event is the call of `op`, which has not taken effect.
      cases last
      exact absurd member (fresh s)

/-- A called operation takes effect. -/
theorem commit (lin : Linearization object history order final) (called : .call op ∈ history)
    (fresh : ∀ r, (op, r) ∉ order) (step : object.step? final (op, result) = some next) :
    Linearization object history (order ++ [(op, result)]) next where
  legal := by
    rw [Machine.run?_append, lin.legal]
    simp [Machine.run?, step]
  once := by
    rw [List.map_append, List.nodup_append_comm, List.map_singleton, List.singleton_append, List.nodup_cons]
    refine ⟨fun member => ?_, lin.once⟩
    obtain ⟨entry, listed, rfl⟩ := List.mem_map.1 member
    exact fresh entry.2 listed
  called entry member := by
    rcases List.mem_append.1 member with before | last
    · exact lin.called entry before
    · rw [List.mem_singleton.1 last]
      exact called
  complete a r returned := List.mem_append_left _ (lin.complete a r returned)
  realTime a r b s earlier member := by
    rcases List.mem_append.1 member with before | last
    · exact (lin.realTime a r b s earlier before).trans (List.sublist_append_left ..)
    · have returned := lin.complete a r (earlier.subset (by simp))
      rw [← List.mem_singleton.1 last]
      exact (List.singleton_sublist.2 returned).append (List.Sublist.refl [(b, s)])

/-- An operation returns the result it took effect with. -/
theorem ret (lin : Linearization object history order final) (member : (op, result) ∈ order) :
    Linearization object (history ++ [.ret op result]) order final where
  legal := lin.legal
  once := lin.once
  called entry listed := List.mem_append_left _ (lin.called entry listed)
  complete a r returned := by
    rcases List.mem_append.1 returned with before | last
    · exact lin.complete a r before
    · cases List.mem_singleton.1 last
      exact member
  realTime a r b s earlier listed := by
    rcases pair_sublist_concat earlier with before | last
    · exact lin.realTime a r b s before listed
    · cases last

end Linearization

end GolangMQ
