import GolangMQ.Bench.Rows

/-! # Where a call stands

`phaseMu` keeps the bodies of record calls and `beginMeasured` apart: as long as `beginMeasured` holds the lock, no
record call is past its check. `Stage` says what a worker has left to run together with the lock it holds, and
`Moves` what its next step can be.
-/

namespace GolangMQ.Bench

open Machine

variable {F : Type} {plan : Plan}

namespace Update

/-- The updates before `phaseMu` is taken. -/
def arrives : Update F → Bool
  | .add .allPublished | .add .allDelivered | .add .allConsumed | .add .allAcks => true
  | _ => false

/-- The updates of `resetAll`. -/
def clears : Update F → Bool
  | .clear _ | .resetLatency _ | .resetConn _ | .resetPubCh _ => true
  | _ => false

end Update

theorem Record.arrives_of_mem {record : Record F} {u : Update F} (member : u ∈ record.arrival) : u.arrives = true := by
  have all : ∀ u ∈ record.arrival, u.arrives = true := by
    cases record with
    | deliver _ _ _ dup => cases dup <;> simp [arrival, Update.arrives]
    | _ => simp [arrival, Update.arrives]
  exact all u member

theorem Record.records_of_mem {record : Record F} {u : Update F} (member : u ∈ record.body) :
    u.arrives = false ∧ u.clears = false := by
  have all : ∀ u ∈ record.body, u.arrives = false ∧ u.clears = false := by
    cases record with
    | publish slot => simp only [body]; split <;> simp [Update.arrives, Update.clears]
    | deliver slot _ _ dup =>
      simp only [body]
      generalize slot.role.key = key
      cases dup <;> cases key <;> simp [Update.arrives, Update.clears]
    | ack => simp [body, Update.arrives, Update.clears]
  exact all u member

theorem Stats.clears_of_mem {u : Update F} (member : u ∈ Stats.resetAll F plan) : u.clears = true := by
  simp only [resetAll, List.mem_append, List.mem_map, List.mem_flatMap, List.mem_cons, List.not_mem_nil,
    or_false] at member
  rcases member with (((⟨_, -, rfl⟩ | ⟨_, -, rfl⟩) | ⟨_, -, rfl | rfl⟩) | ⟨_, -, rfl⟩) | ⟨_, -, rfl⟩ <;> rfl

variable [Field F]

/-- What a worker has left to run when it does or does not hold `phaseMu`, for reading or for writing. -/
inductive Stage (plan : Plan) : (reads writes : Bool) → List (Op F) → Prop
  | idle : Stage plan false false []
  | arriving {updates : List (Update F)} {record : Record F} (rest : updates <:+ record.arrival) :
      Stage plan false false (updates.map .update ++ [.rlock, .check record])
  | checking {record : Record F} : Stage plan true false [.check record]
  | recording {updates : List (Update F)} (all : ∀ u ∈ updates, u.arrives = false ∧ u.clears = false) :
      Stage plan true false (updates.map .update ++ [.runlock])
  | opening : Stage plan false false (beginMeasured F plan)
  | cutting : Stage plan false true (.cut :: ((Stats.resetAll F plan).map .update ++ [.unlock]))
  | clearing {updates : List (Update F)} (all : ∀ u ∈ updates, u ∈ Stats.resetAll F plan) :
      Stage plan false true (updates.map .update ++ [.unlock])
  | sampling {row : Window F} {left : List Reading} (filling : Filling row left) :
      Stage plan false false [.sampling row left]

variable [LinearOrder F] {r r' : Recorder F} {i : ℕ}

/-- The locks and the calls fit together. -/
structure Phased (plan : Plan) (r : Recorder F) : Prop where
  stages : ∀ i, Stage plan (decide (i ∈ r.readers)) (decide (r.writer = some i)) (r.todo i)
  exclusive : r.writer ≠ none → r.readers = ∅
  idle : ∀ i, plan.workers ≤ i → r.todo i = []

/-- What another worker does with `phaseMu` does not change where a worker stands. -/
theorem Phased.other (phased : Phased plan r) {j : ℕ} (reads : j ∈ r'.readers ↔ j ∈ r.readers)
    (writes : r'.writer = some j ↔ r.writer = some j) (todo : r'.todo j = r.todo j) :
    Stage plan (decide (j ∈ r'.readers)) (decide (r'.writer = some j)) (r'.todo j) := by
  rw [todo, decide_eq_decide.2 reads, decide_eq_decide.2 writes]
  exact phased.stages j

/-- Where worker `i` stands after its step, together with what the other workers know of `phaseMu`. -/
theorem Phased.advance (phased : Phased plan r) (inside : i < plan.workers) {ops : List (Op F)} {reading writing : Bool}
    (todo : r'.todo = Function.update r.todo i ops) (read : decide (i ∈ r'.readers) = reading)
    (written : decide (r'.writer = some i) = writing) (stage : Stage plan reading writing ops)
    (reads : ∀ j ≠ i, (j ∈ r'.readers ↔ j ∈ r.readers)) (writes : ∀ j ≠ i, (r'.writer = some j ↔ r.writer = some j))
    (exclusive : r'.writer ≠ none → r'.readers = ∅) : Phased plan r' := by
  refine ⟨fun j => ?_, exclusive, fun j beyond => ?_⟩
  · by_cases same : j = i
    · subst same
      rwa [todo, Function.update_self, read, written]
    · exact phased.other (reads j same) (writes j same) (by rw [todo, Function.update_of_ne same])
  · rw [todo, Function.update_of_ne (by omega)]
    exact phased.idle j beyond

/-- A worker without a call holds no lock. -/
theorem Phased.outside (phased : Phased plan r) (idle : r.todo i = []) : i ∉ r.readers ∧ r.writer ≠ some i := by
  have stage := phased.stages i
  generalize reads : decide (i ∈ r.readers) = reading at stage
  generalize writes : decide (r.writer = some i) = writing at stage
  generalize r.todo i = todo at stage idle
  cases stage with
  | idle => exact ⟨of_decide_eq_false reads, of_decide_eq_false writes⟩
  | arriving | recording | clearing => exact absurd idle (by simp)
  | _ => contradiction

/-- The recorder after worker `i` has moved on. -/
def Recorder.advance (r : Recorder F) (i : ℕ) (ops : List (Op F)) : Recorder F :=
  { r with todo := Function.update r.todo i ops }

/-- What the next step of worker `i` can be. -/
inductive Moves (plan : Plan) (r : Recorder F) (i : ℕ) : Recorder F → Prop
  | arrive {u : Update F} {updates : List (Update F)} {record : Record F} {stats : Stats F}
      (rest : u :: updates <:+ record.arrival)
      (pending : r.todo i = .update u :: (updates.map .update ++ [.rlock, .check record]))
      (out : i ∉ r.readers) (unlocked : r.writer ≠ some i) (applied : r.stats.apply u = some stats) :
      Moves plan r i { r.advance i (updates.map .update ++ [.rlock, .check record]) with stats }
  | rlock {record : Record F} (pending : r.todo i = [.rlock, .check record]) (out : i ∉ r.readers)
      (free : r.writer = none) : Moves plan r i { r.advance i [.check record] with readers := insert i r.readers }
  | skip {record : Record F} (pending : r.todo i = [.check record]) (inside : i ∈ r.readers) (free : r.writer = none)
      (warmup : record.seq ≤ r.stats.phaseFrom) : Moves plan r i (r.advance i [.runlock])
  | check {record : Record F} (pending : r.todo i = [.check record]) (inside : i ∈ r.readers) (free : r.writer = none)
      (counts : r.stats.phaseFrom < record.seq) :
      Moves plan r i { r.advance i (record.body.map .update ++ [.runlock]) with measured := r.measured ++ [record] }
  | record {u : Update F} {updates : List (Update F)} {stats : Stats F}
      (all : ∀ v ∈ u :: updates, v.arrives = false ∧ v.clears = false)
      (pending : r.todo i = .update u :: (updates.map .update ++ [.runlock])) (inside : i ∈ r.readers)
      (free : r.writer = none) (applied : r.stats.apply u = some stats) :
      Moves plan r i { r.advance i (updates.map .update ++ [.runlock]) with stats }
  | runlock (pending : r.todo i = [.runlock]) (inside : i ∈ r.readers) (free : r.writer = none) :
      Moves plan r i { r.advance i [] with readers := r.readers.erase i }
  | lock (pending : r.todo i = beginMeasured F plan) (free : r.writer = none) (empty : r.readers = ∅) :
      Moves plan r i { r.advance i (.cut :: ((Stats.resetAll F plan).map .update ++ [.unlock])) with
        writer := some i }
  | cut (pending : r.todo i = .cut :: ((Stats.resetAll F plan).map .update ++ [.unlock]))
      (locked : r.writer = some i) (empty : r.readers = ∅) :
      Moves plan r i { r.advance i ((Stats.resetAll F plan).map .update ++ [.unlock]) with
        stats := { r.stats with phaseFrom := r.seqGen }, measured := [] }
  | clear {u : Update F} {updates : List (Update F)} {stats : Stats F}
      (all : ∀ v ∈ u :: updates, v ∈ Stats.resetAll F plan)
      (pending : r.todo i = .update u :: (updates.map .update ++ [.unlock])) (locked : r.writer = some i)
      (empty : r.readers = ∅) (applied : r.stats.apply u = some stats) :
      Moves plan r i { r.advance i (updates.map .update ++ [.unlock]) with stats }
  | unlock (pending : r.todo i = [.unlock]) (locked : r.writer = some i) (empty : r.readers = ∅) :
      Moves plan r i { r.advance i [] with writer := none, cutoff := some r.stats.phaseFrom }
  | read {row : Window F} {reading : Reading} {left : List Reading} (filling : Filling row (reading :: left))
      (pending : r.todo i = [.sampling row (reading :: left)]) (out : i ∉ r.readers) (unlocked : r.writer ≠ some i) :
      Moves plan r i
        { r.advance i [.sampling (r.stats.read row reading).2.1 ((r.stats.read row reading).2.2 ++ left)] with
        stats := (r.stats.read row reading).1 }
  | emit {row : Window F} (pending : r.todo i = [.sampling row []]) (out : i ∉ r.readers)
      (unlocked : r.writer ≠ some i) : Moves plan r i { r.advance i [] with windows := r.windows ++ [row] }

theorem Phased.moves (phased : Phased plan r) (stepped : r.step? plan (.run i) = some r') : Moves plan r i r' := by
  have stage := phased.stages i
  have exclusive := phased.exclusive
  generalize reads : decide (i ∈ r.readers) = reading at stage
  generalize writes : decide (r.writer = some i) = writing at stage
  generalize pending : r.todo i = todo at stage
  simp only [Recorder.step?, pending] at stepped
  have out (no : reading = false) : i ∉ r.readers := of_decide_eq_false (reads.trans no)
  have inside (yes : reading = true) : i ∈ r.readers := of_decide_eq_true (reads.trans yes)
  have free (yes : reading = true) : r.writer = none := by
    by_contra held
    exact absurd (inside yes) (by rw [exclusive held]; exact Finset.notMem_empty i)
  have locked (yes : writing = true) : r.writer = some i := of_decide_eq_true (writes.trans yes)
  have empty (yes : writing = true) : r.readers = ∅ := exclusive (by rw [locked yes]; exact Option.some_ne_none i)
  cases stage with
  | idle => contradiction
  | @arriving updates record rest =>
    cases updates with
    | nil =>
      simp only [List.map_nil, List.nil_append, Recorder.perform] at stepped
      split_ifs at stepped with unlocked <;> cases stepped
      exact .rlock pending (out rfl) unlocked
    | cons u updates =>
      obtain ⟨⟨after, next⟩, performed, rfl⟩ := Option.map_eq_some_iff.1 stepped
      obtain ⟨stats, applied, same⟩ := Option.map_eq_some_iff.1 performed
      cases same
      exact .arrive rest pending (out rfl) (of_decide_eq_false writes) applied
  | @checking record =>
    simp only [Recorder.perform] at stepped
    split_ifs at stepped with warmup <;> cases stepped
    · exact .skip pending (inside rfl) (free rfl) warmup
    · dsimp only
      rw [List.append_nil]
      exact .check pending (inside rfl) (free rfl) (Nat.lt_of_not_le warmup)
  | @recording updates all =>
    cases updates with
    | nil =>
      cases stepped
      exact .runlock pending (inside rfl) (free rfl)
    | cons u updates =>
      obtain ⟨⟨after, next⟩, performed, rfl⟩ := Option.map_eq_some_iff.1 stepped
      obtain ⟨stats, applied, same⟩ := Option.map_eq_some_iff.1 performed
      cases same
      exact .record all pending (inside rfl) (free rfl) applied
  | opening =>
    simp only [beginMeasured, List.cons_append, List.nil_append, Recorder.perform] at stepped
    split_ifs at stepped with unlocked <;> cases stepped
    exact .lock pending unlocked.1 unlocked.2
  | cutting =>
    cases stepped
    exact .cut pending (locked rfl) (empty rfl)
  | @clearing updates all =>
    cases updates with
    | nil =>
      cases stepped
      exact .unlock pending (locked rfl) (empty rfl)
    | cons u updates =>
      obtain ⟨⟨after, next⟩, performed, rfl⟩ := Option.map_eq_some_iff.1 stepped
      obtain ⟨stats, applied, same⟩ := Option.map_eq_some_iff.1 performed
      cases same
      exact .clear all pending (locked rfl) (empty rfl) applied
  | @sampling row left filling =>
    cases left with
    | nil =>
      cases stepped
      exact .emit pending (out rfl) (of_decide_eq_false writes)
    | cons reading left =>
      cases stepped
      exact .read filling pending (out rfl) (of_decide_eq_false writes)

/-- A goroutine that calls a function had nothing to run. -/
theorem Recorder.call_eq_some {ops : List (Op F)} (called : r.call plan i ops = some r') :
    i < plan.workers ∧ r.todo i = [] ∧ r' = r.advance i ops := by
  simp only [Recorder.call] at called
  split_ifs at called with ready
  cases called
  exact ⟨ready.1, List.isEmpty_iff.1 ready.2, rfl⟩

/-- A call starts without the lock. -/
theorem Phased.call (phased : Phased plan r) {ops : List (Op F)} (called : r.call plan i ops = some r')
    (stage : Stage plan false false ops) : Phased plan r' := by
  obtain ⟨inside, idle, rfl⟩ := Recorder.call_eq_some called
  obtain ⟨out, unlocked⟩ := phased.outside idle
  exact phased.advance inside rfl (decide_eq_false out) (decide_eq_false unlocked) stage (fun _ _ => .rfl)
    (fun _ _ => .rfl) phased.exclusive

private theorem Phased.init : Phased plan (recorder F plan).init :=
  ⟨fun _ => .idle, fun _ => rfl, fun _ _ => rfl⟩

/-- Every step keeps the locks and the calls in order. -/
theorem Phased.step (phased : Phased plan r) {label : Recorder.Label F} (stepped : r.step? plan label = some r') :
    Phased plan r' := by
  cases label with
  | allocate | storeDrops =>
    cases stepped
    exact ⟨phased.stages, phased.exclusive, phased.idle⟩
  | record i record =>
    obtain ⟨called, started, rfl⟩ := Option.map_eq_some_iff.1 stepped
    obtain ⟨stages, exclusive, idle⟩ := phased.call started (.arriving List.suffix_rfl)
    exact ⟨stages, exclusive, idle⟩
  | begin i => exact phased.call stepped .opening
  | sample i => exact phased.call stepped (.sampling filling_sampleWindow)
  | run i =>
    have inside : i < plan.workers := by
      by_contra beyond
      simp [Recorder.step?, phased.idle i (Nat.le_of_not_lt beyond)] at stepped
    have unlocked (free : r.writer = none) : decide (r.writer = some i) = false := by rw [free]; rfl
    have out (empty : r.readers = ∅) : decide (i ∈ r.readers) = false := by rw [empty]; rfl
    cases phased.moves stepped with
    | arrive rest pending out unlocked applied =>
      exact phased.advance inside rfl (decide_eq_false out) (decide_eq_false unlocked)
        (.arriving ((List.suffix_cons _ _).trans rest)) (fun _ _ => .rfl) (fun _ _ => .rfl) phased.exclusive
    | rlock pending out free =>
      exact phased.advance inside rfl (decide_eq_true (Finset.mem_insert_self i r.readers)) (unlocked free) .checking
        (fun j other => Finset.mem_insert.trans (or_iff_right other)) (fun _ _ => .rfl) fun held => absurd free held
    | skip pending reads free =>
      have none : ∀ u ∈ ([] : List (Update F)), u.arrives = false ∧ u.clears = false := by simp
      exact phased.advance inside rfl (decide_eq_true reads) (unlocked free) (.recording none) (fun _ _ => .rfl)
        (fun _ _ => .rfl) phased.exclusive
    | check pending reads free =>
      exact phased.advance inside rfl (decide_eq_true reads) (unlocked free)
        (.recording fun u member => Record.records_of_mem member) (fun _ _ => .rfl) (fun _ _ => .rfl) phased.exclusive
    | @record u updates stats all pending reads free applied =>
      exact phased.advance inside rfl (decide_eq_true reads) (unlocked free)
        (.recording fun v member => all v (List.mem_cons_of_mem _ member)) (fun _ _ => .rfl) (fun _ _ => .rfl)
        phased.exclusive
    | runlock pending reads free =>
      exact phased.advance inside rfl (decide_eq_false (Finset.notMem_erase i r.readers)) (unlocked free) .idle
        (fun j other => Finset.mem_erase.trans (and_iff_right other)) (fun _ _ => .rfl) fun held => absurd free held
    | lock pending free empty =>
      refine phased.advance inside rfl (out empty) (decide_eq_true rfl) .cutting (fun _ _ => .rfl) (fun j other => ?_)
        fun _ => empty
      exact ⟨fun same => absurd (Option.some.inj same).symm other,
        fun same => absurd (free.symm.trans same).symm (Option.some_ne_none j)⟩
    | cut pending locked empty =>
      exact phased.advance inside rfl (out empty) (decide_eq_true locked)
        (.clearing fun u member => member) (fun _ _ => .rfl) (fun _ _ => .rfl) phased.exclusive
    | @clear u updates stats all pending locked empty applied =>
      exact phased.advance inside rfl (out empty) (decide_eq_true locked)
        (.clearing fun v member => all v (List.mem_cons_of_mem _ member)) (fun _ _ => .rfl) (fun _ _ => .rfl)
        phased.exclusive
    | unlock pending locked empty =>
      refine phased.advance inside rfl (out empty) (decide_eq_false (Option.some_ne_none i).symm) .idle
        (fun _ _ => .rfl)
        (fun j other => ?_) fun held => absurd rfl held
      exact ⟨fun same => absurd same.symm (Option.some_ne_none j),
        fun same => absurd (Option.some.inj (locked.symm.trans same)).symm other⟩
    | read filling pending out unlocked =>
      exact phased.advance inside rfl (decide_eq_false out) (decide_eq_false unlocked) (.sampling filling.read)
        (fun _ _ => .rfl)
        (fun _ _ => .rfl) phased.exclusive
    | emit pending out unlocked =>
      exact phased.advance inside rfl (decide_eq_false out) (decide_eq_false unlocked) .idle (fun _ _ => .rfl)
        (fun _ _ => .rfl) phased.exclusive

theorem phased_of_reachable {ok : Recorder F → Recorder.Label F → Prop} (reached : (recorder F plan).Reachable ok r) :
    Phased plan r :=
  reached.invariant .init fun _ phased _ stepped => phased.step stepped

end GolangMQ.Bench
