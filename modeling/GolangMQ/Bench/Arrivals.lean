import GolangMQ.Bench.Accumulators
import GolangMQ.Bench.Decompositions
import Mathlib.Algebra.Order.BigOperators.Group.Finset

/-! # The counters that include the warmup

`allPublished`, `allDelivered`, `allConsumed` and `allAcks` are never cleared, so they lag behind the record calls only
by the increments that calls in progress still have to make. A delivery is counted by `allDelivered` first.
-/

namespace GolangMQ.Bench

open Machine

variable {F : Type} {plan : Plan}

/-- The counters that include the warmup. -/
def Counter.allTime : Counter → Bool
  | .allPublished | .allDelivered | .allConsumed | .allAcks => true
  | _ => false

/-- The record calls that such a counter counts. -/
def Counter.arrivals : Counter → Record F → Bool
  | .allPublished, .publish .. => true
  | .allDelivered, .deliver .. => true
  | .allConsumed, .deliver _ _ _ dup => !dup
  | .allAcks, .ack .. => true
  | _, _ => false

private theorem Counter.sum_weight_arrival {c : Counter} (allTime : c.allTime = true) (record : Record F) :
    (record.arrival.map c.weight).sum = if c.arrivals record then 1 else 0 := by
  cases record with
  | deliver _ _ _ dup =>
    cases dup <;> cases c <;> first | contradiction | simp [Record.arrival, Counter.weight, Counter.arrivals]
  | _ => cases c <;> first | contradiction | simp [Record.arrival, Counter.weight, Counter.arrivals]

private theorem Counter.weight_of_arrives {c : Counter} (allTime : c.allTime = true) {u : Update F}
    (later : u.arrives = false) :
    c.weight u = 0 := by
  cases u with
  | add d => exact if_neg fun same => by subst same; cases d <;> contradiction
  | _ => rfl

theorem Counter.ne_clear {c : Counter} (allTime : c.allTime = true) {u : Update F}
    (member : u ∈ Stats.resetAll F plan) :
    u ≠ .clear c := by
  rintro rfl
  cases c <;> first | contradiction | simp [Stats.resetAll, roleKeys] at member

private theorem Counter.weight_of_clears (c : Counter) {u : Update F} (clears : u.clears = true) : c.weight u = 0 := by
  cases u <;> first | rfl | contradiction

variable [Field F]

/-- What an operation still has to add to a counter. -/
def Op.adds (c : Counter) : Op F → ℕ
  | .update u => c.weight u
  | _ => 0

private theorem sum_adds_updates (c : Counter) (updates : List (Update F)) :
    ((updates.map Op.update).map (Op.adds c)).sum = (updates.map c.weight).sum := by
  rw [List.map_map]
  rfl

private theorem sum_adds_eq_zero {c : Counter} {updates : List (Update F)} (silent : ∀ u ∈ updates, c.weight u = 0) :
    ((updates.map Op.update).map (Op.adds c)).sum = 0 := by
  rw [sum_adds_updates]
  refine List.sum_eq_zero fun x member => ?_
  obtain ⟨u, listed, rfl⟩ := List.mem_map.1 member
  exact silent u listed

variable [LinearOrder F] {r r' : Recorder F} {i : ℕ} {c : Counter}

private theorem Stats.counter_apply {s s' : Stats F} {u : Update F} (applied : s.apply u = some s')
    (kept : u ≠ .clear c) :
    s'.counter c = s.counter c + c.weight u := by
  cases Stats.applies_of_apply applied with
  | add d =>
    by_cases same : d = c
    · subst same
      simp [Counter.weight]
    · simp [Counter.weight, same, Function.update_of_ne (Ne.symm same)]
  | clear d => exact Function.update_of_ne (fun same => kept (by rw [same])) _ _
  | _ => rfl

theorem Stats.counter_read (s : Stats F) {w : Window F} {reading : Reading} (unread : w.Unread reading)
    (total : c.windowed = false) : (s.read w reading).1.counter c = s.counter c := by
  cases reading with
  | swap d =>
    refine Function.update_of_ne (fun same => ?_) _ _
    rw [same] at total
    exact absurd (total.symm.trans unread.1) Bool.false_ne_true
  | _ => rfl

/-- A step adds what its operation weighs to a counter that no window takes, or clears it in a `beginMeasured`. -/
theorem Moves.counter_eq (total : c.windowed = false) (moves : Moves plan r i r') :
    (∃ op ∈ (r.todo i).head?, r'.stats.counter c = r.stats.counter c + op.adds c) ∨
      (∃ rest, r.todo i = .update (.clear c) :: rest) ∧ .clear c ∈ Stats.resetAll F plan ∧ r'.stats.counter c = 0 := by
  have applied {u : Update F} {rest : List (Op F)} {stats : Stats F} (pending : r.todo i = .update u :: rest)
      (applied : r.stats.apply u = some stats) (kept : u ≠ .clear c) :
      ∃ op ∈ (r.todo i).head?, stats.counter c = r.stats.counter c + op.adds c :=
    ⟨.update u, by rw [pending]; rfl, Stats.counter_apply applied kept⟩
  have silent {first : Op F} {rest : List (Op F)} (pending : r.todo i = first :: rest) (none : first.adds c = 0) :
      ∃ op ∈ (r.todo i).head?, r.stats.counter c = r.stats.counter c + op.adds c :=
    ⟨first, by rw [pending]; rfl, by rw [none, add_zero]⟩
  cases moves with
  | arrive rest pending _ _ applies =>
    have arrives := Record.arrives_of_mem (rest.mem List.mem_cons_self)
    exact .inl (applied pending applies fun clears => by subst clears; contradiction)
  | record all pending _ _ applies =>
    have records := (all _ List.mem_cons_self).2
    exact .inl (applied pending applies fun clears => by subst clears; contradiction)
  | @clear u _ _ all pending _ _ applies =>
    by_cases clears : u = .clear c
    · subst clears
      cases applies
      exact .inr ⟨⟨_, pending⟩, all _ List.mem_cons_self, Function.update_self ..⟩
    · exact .inl (applied pending applies clears)
  | read filling pending =>
    have kept := r.stats.counter_read (filling.unread _ List.mem_cons_self) total
    exact .inl ⟨_, by rw [pending]; rfl, kept.trans (add_zero _).symm⟩
  | lock pending =>
    have first : r.todo i = .lock :: .cut :: ((Stats.resetAll F plan).map .update ++ [.unlock]) := pending
    exact .inl (silent first rfl)
  | rlock pending | skip pending | check pending | runlock pending | cut pending | unlock pending | emit pending =>
    exact .inl (silent pending rfl)

/-- The counter and the increments under way are the record calls made. -/
def Arrived (plan : Plan) (c : Counter) (r : Recorder F) : Prop :=
  r.stats.counter c + load (Op.adds c) plan.workers r.todo = r.records.countP c.arrivals

private theorem Arrived.run (arrived : Arrived plan c r) (allTime : c.allTime = true) (phased : Phased plan r)
    (moves : Moves plan r i r') : Arrived plan c r' := by
  have exchanged {first : Op F} {rest : List (Op F)} (pending : r.todo i = first :: rest) (next : List (Op F)) :=
    load_advance (Op.adds c) (phased.inside pending) pending next
  have applied {u : Update F} {rest : List (Op F)} {stats : Stats F} (pending : r.todo i = .update u :: rest)
      (applied : r.stats.apply u = some stats) (kept : u ≠ .clear c) :
      Arrived plan c { r.advance i rest with stats } := by
    have less := exchanged pending []
    have more := Stats.counter_apply applied kept
    simp only [List.nil_append, List.map_nil, List.sum_nil, add_zero, Op.adds] at less
    change stats.counter c + load (Op.adds c) plan.workers (Function.update r.todo i rest) = r.records.countP c.arrivals
    rw [more, ← arrived, ← less]
    omega
  have silent {first : Op F} {rest : List (Op F)} (pending : r.todo i = first :: rest) (none : first.adds c = 0) :
      load (Op.adds c) plan.workers (Function.update r.todo i rest) = load (Op.adds c) plan.workers r.todo := by
    simpa [none] using exchanged pending []
  cases moves with
  | @arrive u updates record stats rest pending out unlocked applies =>
    refine applied pending applies fun clears => ?_
    have arrives := Record.arrives_of_mem (rest.mem List.mem_cons_self)
    rw [clears] at arrives
    contradiction
  | record all pending inside free applies =>
    refine applied pending applies fun clears => ?_
    have records := (all _ List.mem_cons_self).2
    rw [clears] at records
    contradiction
  | clear all pending locked empty applies =>
    exact applied pending applies (Counter.ne_clear allTime (all _ List.mem_cons_self))
  | lock pending =>
    have first : r.todo i = .lock :: .cut :: ((Stats.resetAll F plan).map .update ++ [.unlock]) := pending
    exact (congrArg (r.stats.counter c + ·) (silent first rfl)).trans arrived
  | rlock pending | runlock pending | cut pending | unlock pending | emit pending =>
    exact (congrArg (r.stats.counter c + ·) (silent pending rfl)).trans arrived
  | skip pending =>
    have same := exchanged pending [.runlock]
    simp only [Op.adds, List.map_cons, List.map_nil, List.sum_cons, List.sum_nil, add_zero] at same
    exact (congrArg (r.stats.counter c + ·) same).trans arrived
  | @check record pending =>
    have same := exchanged pending (record.body.map .update ++ [.runlock])
    rw [List.map_append, List.sum_append,
      sum_adds_eq_zero fun u member => Counter.weight_of_arrives allTime (Record.records_of_mem member).1] at same
    simp only [Op.adds, List.append_nil, List.map_cons, List.map_nil, List.sum_cons, List.sum_nil, add_zero] at same
    exact (congrArg (r.stats.counter c + ·) same).trans arrived
  | @read row reading left filling pending =>
    have total : c.windowed = false := by cases c <;> first | rfl | contradiction
    have same := exchanged pending [.sampling (r.stats.read row reading).2.1 ((r.stats.read row reading).2.2 ++ left)]
    simp only [Op.adds, List.append_nil, List.map_cons, List.map_nil, List.sum_cons, List.sum_nil, add_zero] at same
    have kept := r.stats.counter_read (filling.unread reading List.mem_cons_self) total
    change (r.stats.read row reading).1.counter c + load (Op.adds c) plan.workers (Function.update r.todo i _) = _
    rw [kept, same]
    exact arrived

private theorem Arrived.call (arrived : Arrived plan c r) {ops : List (Op F)} (called : r.call plan i ops = some r')
    (silent : (ops.map (Op.adds c)).sum = 0) : Arrived plan c r' := by
  obtain ⟨inside, idle, rfl⟩ := Recorder.call_eq_some called
  change r.stats.counter c + load (Op.adds c) plan.workers (Function.update r.todo i ops) = _
  rw [load_start _ inside idle, silent, add_zero]
  exact arrived

private theorem Arrived.step (arrived : Arrived plan c r) (allTime : c.allTime = true) (phased : Phased plan r)
    {label : Recorder.Label F} (stepped : r.step? plan label = some r') : Arrived plan c r' := by
  cases label with
  | allocate => cases stepped; exact arrived
  | storeDrops v =>
    cases stepped
    have other : c ≠ .drops := fun same => by subst same; contradiction
    have kept : (r.stats.storeDrops v).counter c = r.stats.counter c := Function.update_of_ne other _ _
    exact (congrArg (· + load (Op.adds c) plan.workers r.todo) kept).trans arrived
  | record i record =>
    obtain ⟨called, started, rfl⟩ := Option.map_eq_some_iff.1 stepped
    obtain ⟨inside, idle, rfl⟩ := Recorder.call_eq_some started
    change r.stats.counter c + load (Op.adds c) plan.workers (Function.update r.todo i record.ops) =
      (r.records ++ [record]).countP c.arrivals
    rw [load_start _ inside idle, ← add_assoc, arrived, List.countP_append, Record.ops, List.map_append,
      List.sum_append,
      sum_adds_updates, Counter.sum_weight_arrival allTime, List.countP_singleton]
    simp [Op.adds]
  | begin i =>
    refine arrived.call stepped ?_
    rw [beginMeasured, List.map_append, List.map_append, List.sum_append, List.sum_append,
      sum_adds_eq_zero fun u member => c.weight_of_clears (Stats.clears_of_mem member)]
    rfl
  | sample i => exact arrived.call stepped rfl
  | run i => exact arrived.run allTime phased (phased.moves stepped)

theorem arrived_of_reachable {ok : Recorder F → Recorder.Label F → Prop} (allTime : c.allTime = true)
    (reached : (recorder F plan).Reachable ok r) : Arrived plan c r := by
  refine reached.invariant (P := Arrived plan c) ?_ fun before arrived _ stepped =>
    arrived.step allTime (phased_of_reachable before) stepped
  change 0 + load (Op.adds c) plan.workers (fun _ => []) = 0
  rw [load_idle _ fun _ _ => rfl, add_zero]

/-- A delivery that is still to be counted by `allDelivered` is still to be counted by `allConsumed`, unless it is a
duplicate. -/
theorem Phased.load_delivered_le (phased : Phased plan r) (traced : Traced plan r)
    (fresh : ∀ record ∈ r.records, record.isDeliverWith true = false) :
    load (Op.adds .allDelivered) plan.workers r.todo ≤ load (Op.adds .allConsumed) plan.workers r.todo := by
  refine Finset.sum_le_sum fun i inside => ?_
  have unchecked (record : Record F) (pending : Op.check record ∈ r.todo i) : record.isDeliverWith true = false :=
    fresh record (traced.waiting record (mem_tally.2 ⟨i, Finset.mem_range.1 inside, _, pending, rfl⟩))
  have stage := phased.stages i
  generalize decide (i ∈ r.readers) = reading at stage
  generalize decide (r.writer = some i) = writing at stage
  generalize r.todo i = todo at stage unchecked
  have none {updates : List (Update F)} (later : ∀ u ∈ updates, u.arrives = false) :
      ((updates.map Op.update).map (Op.adds .allDelivered)).sum = 0 :=
    sum_adds_eq_zero fun u member => Counter.weight_of_arrives rfl (later u member)
  have cleared (u : Update F) (member : u ∈ Stats.resetAll F plan) : u.arrives = false := by
    have clears := Stats.clears_of_mem member
    cases u <;> first | rfl | contradiction
  cases stage with
  | idle => exact le_rfl
  | @arriving updates record rest =>
    have fresh := unchecked record (by simp)
    cases record with
    | deliver slot seq latUs dup =>
      cases dup with
      | true => contradiction
      | false =>
        simp only [Record.arrival, Bool.false_eq_true, ↓reduceIte, List.suffix_cons_iff, List.suffix_nil] at rest
        rcases rest with rfl | rfl | rfl <;> simp [Op.adds, Counter.weight]
    | publish | ack =>
      simp only [Record.arrival, List.suffix_cons_iff, List.suffix_nil] at rest
      rcases rest with rfl | rfl <;> simp [Op.adds, Counter.weight]
  | checking => exact le_rfl
  | recording all =>
    rw [List.map_append, List.sum_append, none fun u member => (all u member).1]
    simp [Op.adds]
  | opening =>
    rw [beginMeasured, List.map_append, List.map_append, List.sum_append, List.sum_append, none cleared]
    simp [Op.adds]
  | cutting =>
    rw [List.map_cons, List.map_append, List.sum_cons, List.sum_append, none cleared]
    simp [Op.adds]
  | clearing all =>
    rw [List.map_append, List.sum_append, none fun u member => cleared u (all u member)]
    simp [Op.adds]
  | sampling => exact le_rfl

end GolangMQ.Bench
