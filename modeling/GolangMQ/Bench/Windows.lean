import GolangMQ.Bench.Decompositions

/-! # The rows partition the totals

Rows are only begun after the boundary, or from the start when there is none. The counters of the current window and
the rows then hold together what the totals hold, wherever the sampler stands; a record call may be split over several
rows, but nothing is lost or counted twice.
-/

namespace GolangMQ.Bench

open Machine

variable {F : Type} [Field F] [LinearOrder F] {plan : Plan} {r r' : Recorder F} {i : ℕ}

/-- The operations of `sampleWindow`. -/
def Op.samples : Op F → Bool
  | .sampling .. => true
  | _ => false

/-- The last operation of `beginMeasured`. -/
def Op.unlocks : Op F → Bool
  | .unlock => true
  | _ => false

/-- `beginMeasured` is not called once a row has been begun, and no row is begun while it runs. -/
def Recorder.SampledAfter (plan : Plan) (r : Recorder F) : Recorder.Label F → Prop
  | .begin _ => r.windows.isEmpty = true ∧ ∀ j < plan.workers, ∀ op ∈ r.todo j, op.samples = false
  | .sample _ => ∀ j < plan.workers, ∀ op ∈ r.todo j, op.unlocks = false
  | _ => True

/-- Only the goroutines of the plan have something to run. -/
theorem Phased.forall_todo (phased : Phased plan r) {p : Op F → Prop}
    (known : ∀ j < plan.workers, ∀ op ∈ r.todo j, p op) (j : ℕ) (op : Op F) (pending : op ∈ r.todo j) : p op := by
  by_cases inside : j < plan.workers
  · exact known j inside op pending
  · rw [phased.idle j (Nat.le_of_not_lt inside)] at pending
    cases pending

/-- While `beginMeasured` runs no row has been begun. -/
def Separated (r : Recorder F) : Prop := (∃ j, .unlock ∈ r.todo j) → Unsampled r

private theorem Phased.unlock_mem (phased : Phased plan r) (held : r.writer = some i) : .unlock ∈ r.todo i := by
  have stage := phased.stages i
  rw [decide_eq_true held] at stage
  generalize decide (i ∈ r.readers) = reading at stage
  generalize r.todo i = todo at stage
  cases stage with
  | cutting => simp
  | clearing => simp

/-- A step that leaves the rows alone. -/
theorem Separated.advance (separated : Separated r) {ops : List (Op F)} (todo : r'.todo = Function.update r.todo i ops)
    (windows : r'.windows = r.windows) (unlock : .unlock ∈ ops → .unlock ∈ r.todo i)
    (sampling : ∀ row left, .sampling row left ∉ ops) : Separated r' := by
  rintro ⟨j, pending⟩
  have before : Unsampled r := by
    refine separated ?_
    by_cases same : j = i
    · subst same
      rw [todo, Function.update_self] at pending
      exact ⟨j, unlock pending⟩
    · rw [todo, Function.update_of_ne same] at pending
      exact ⟨j, pending⟩
  refine ⟨windows.trans before.1, fun k row left => ?_⟩
  by_cases same : k = i
  · subst same
    rw [todo, Function.update_self]
    exact sampling row left
  · rw [todo, Function.update_of_ne same]
    exact before.2 k row left

private theorem Separated.run (separated : Separated r) (moves : Moves plan r i r') : Separated r' := by
  cases moves with
  | arrive _ pending | rlock pending | skip pending | check pending | record _ pending | runlock pending
  | clear _ pending | unlock pending | cut pending =>
    exact separated.advance rfl rfl (by simp [pending]) (by simp)
  | lock pending => exact separated.advance rfl rfl (by simp [pending, beginMeasured]) (by simp)
  | @read row reading left _ pending | @emit row pending =>
    rintro ⟨j, later⟩
    have other : j ≠ i := fun same => by
      subst same
      simp [Recorder.advance] at later
    have before : .unlock ∈ r.todo j := by simpa [Recorder.advance, Function.update_of_ne other] using later
    exact absurd (pending ▸ List.mem_singleton_self _) ((separated ⟨j, before⟩).2 i row _)

theorem separated_of_reachable (reached : (recorder F plan).Reachable (Recorder.SampledAfter plan) r) :
    Separated r := by
  refine reached.invariant (P := Separated) ?_ @fun source target label before separated allowed stepped => ?_
  · rintro ⟨j, pending⟩
    cases pending
  cases label with
  | allocate | storeDrops => cases stepped; exact separated
  | record i record =>
    obtain ⟨called, started, rfl⟩ := Option.map_eq_some_iff.1 stepped
    obtain ⟨-, idle, rfl⟩ := Recorder.call_eq_some started
    have advanced : Separated (source.advance i record.ops) :=
      separated.advance rfl rfl (by simp [Record.ops]) (by simp [Record.ops])
    exact advanced
  | begin i =>
    obtain ⟨-, idle, rfl⟩ := Recorder.call_eq_some stepped
    intro _
    refine ⟨List.isEmpty_iff.1 allowed.1, fun k row left sampling => ?_⟩
    by_cases same : k = i
    · subst same
      simp [Recorder.advance, beginMeasured] at sampling
    · simp only [Recorder.advance, Function.update_of_ne same] at sampling
      cases (phased_of_reachable before).forall_todo allowed.2 k _ sampling
  | sample i =>
    obtain ⟨-, idle, rfl⟩ := Recorder.call_eq_some stepped
    rintro ⟨j, pending⟩
    by_cases same : j = i
    · subst same
      simp [Recorder.advance] at pending
    · simp only [Recorder.advance, Function.update_of_ne same] at pending
      cases (phased_of_reachable before).forall_todo allowed j _ pending
  | run i => exact separated.run ((phased_of_reachable before).moves stepped)

/-- Under that discipline every accumulator is accounted for, also those that rows take from. -/
private theorem accounted_of_separated {M : Type} [AddCancelCommMonoid M] (A : Accumulator F M plan)
    (reached : (recorder F plan).Reachable (Recorder.SampledAfter plan) r) : Accounted A r :=
  reached.invariant .init fun before accounted _ stepped =>
    accounted.step (phased_of_reachable before) (Or.inr fun held => by
      obtain ⟨i, held⟩ := Option.ne_none_iff_exists'.1 held
      exact separated_of_reachable before ⟨i, (phased_of_reachable before).unlock_mem held⟩) stepped

/-- The rows that have been begun: those that `sampleWindow` has returned, and those it is filling. -/
def Recorder.rows (plan : Plan) (r : Recorder F) : List (Window F) :=
  r.windows ++ (List.range plan.workers).filterMap fun i =>
    match r.todo i with
    | [.sampling row _] => some row
    | _ => none

private theorem sum_rows {M : Type} [AddCancelCommMonoid M] (A : Accumulator F M plan) (done : r.Recorded) :
    ((r.rows plan).map A.row).sum = (r.windows.map A.row).sum + load A.pending plan.workers r.todo := by
  rw [Recorder.rows, List.map_append, List.sum_append]
  congr 1
  rw [load]
  generalize plan.workers = n
  induction n with
  | zero => rfl
  | succ n ih =>
    rw [List.range_succ, List.filterMap_append, List.map_append, List.sum_append, Finset.sum_range_succ, ih]
    congr 1
    rcases done n with idle | ⟨row, left, sampling⟩
    · simp [idle]
    · simp [sampling, Accumulator.pending]

/-- What the current window and the rows hold of an accumulator is what the counted calls add. -/
private theorem sum_rows_eq {M : Type} [AddCancelCommMonoid M] (A : Accumulator F M plan)
    (reached : (recorder F plan).Reachable (Recorder.SampledAfter plan) r) (done : r.Recorded) :
    ((r.rows plan).map A.row).sum + A.value r.stats = A.due r.measured := by
  rw [← (accounted_of_separated A reached).settled (done.not_clearing _), sum_rows A done]
  abel

private theorem LatencySet.count_summary (s : LatencySet F) : s.summary.count = s.samples.length := by
  simp only [LatencySet.summary]
  cases started : s.has with
  | false =>
    have empty : s.samples = [] := by simpa [started] using s.started
    simp [empty]
  | true => exact s.counted

/-- A row summarises the latencies that it has taken. -/
def Window.Summarised (w : Window F) : Prop := w.delLat.count = w.delSamples.length

private theorem Window.Summarised.read {w : Window F} (summarised : w.Summarised) (s : Stats F) (reading : Reading) :
    (s.read w reading).2.1.Summarised := by
  cases reading with
  | swap c => cases c <;> exact summarised
  | snapshot key =>
    cases key with
    | delLatWin => exact LatencySet.count_summary _
    | roleDelTot k | roleDelWin k => cases k <;> exact summarised
    | ackLatWin =>
      simp only [Stats.read, Window.setLatency]
      split <;> exact summarised
    | _ => exact summarised
  | loadPublished => exact summarised
  | loadConsumed pub =>
    simp only [Stats.read]
    split <;> exact summarised

/-- What every reading keeps holds of every row. -/
private theorem rows_forall {ok : Recorder F → Recorder.Label F → Prop} {P : Window F → Prop} (blank : P {})
    (reads : ∀ (s : Stats F) (w : Window F) (reading : Reading), P w → P (s.read w reading).2.1)
    (reached : (recorder F plan).Reachable ok r) :
    (∀ w ∈ r.windows, P w) ∧ ∀ i row left, .sampling row left ∈ r.todo i → P row := by
  refine reached.invariant
    (P := fun r => (∀ w ∈ r.windows, P w) ∧ ∀ i row left, .sampling row left ∈ r.todo i → P row)
    ⟨by simp [recorder], by simp [recorder]⟩ @fun source target label before known _ stepped => ?_
  have advance (i : ℕ) (ops : List (Op F)) (rows : ∀ row left, .sampling row left ∈ ops → P row) (j : ℕ)
    (row : Window F)
      (left : List Reading) (pending : .sampling row left ∈ Function.update source.todo i ops j) : P row := by
    by_cases same : j = i
    · subst same
      rw [Function.update_self] at pending
      exact rows row left pending
    · rw [Function.update_of_ne same] at pending
      exact known.2 j row left pending
  cases label with
  | allocate | storeDrops => cases stepped; exact known
  | record i record =>
    obtain ⟨called, started, rfl⟩ := Option.map_eq_some_iff.1 stepped
    obtain ⟨-, -, rfl⟩ := Recorder.call_eq_some started
    exact ⟨known.1, advance i record.ops (by simp [Record.ops])⟩
  | begin i =>
    obtain ⟨-, -, rfl⟩ := Recorder.call_eq_some stepped
    exact ⟨known.1, advance i _ (by simp [beginMeasured])⟩
  | sample i =>
    obtain ⟨-, -, rfl⟩ := Recorder.call_eq_some stepped
    exact ⟨known.1, advance i _ (by simpa using blank)⟩
  | run i =>
    cases (phased_of_reachable before).moves stepped with
    | @read row reading left _ pending =>
      have filled := reads source.stats row reading (known.2 i row (reading :: left) (by simp [pending]))
      exact ⟨known.1, advance i _ (by simpa using filled)⟩
    | @emit row pending =>
      refine ⟨fun w member => ?_, advance i _ (by simp)⟩
      rcases List.mem_append.1 member with old | new
      · exact known.1 w old
      · rw [List.mem_singleton.1 new]
        exact known.2 i row [] (by simp [pending])
    | _ => exact ⟨known.1, advance i _ (by simp)⟩

private theorem forall_rows {ok : Recorder F → Recorder.Label F → Prop} {P : Window F → Prop} (blank : P {})
    (reads : ∀ (s : Stats F) (w : Window F) (reading : Reading), P w → P (s.read w reading).2.1)
    (reached : (recorder F plan).Reachable ok r) : ∀ row ∈ r.rows plan, P row := by
  obtain ⟨windows, rows⟩ := rows_forall blank reads reached
  intro row member
  rcases List.mem_append.1 member with returned | filling
  · exact windows row returned
  · obtain ⟨i, -, found⟩ := List.mem_filterMap.1 filling
    split at found
    · next first left pending =>
      cases found
      exact rows i row left (by simp [pending])
    · cases found

instance (r : Recorder F) (label : Recorder.Label F) : Decidable (r.SampledAfter plan label) :=
  match label with
  | .begin _ => inferInstanceAs (Decidable (_ ∧ ∀ j < plan.workers, ∀ op ∈ r.todo j, op.samples = false))
  | .sample _ => inferInstanceAs (Decidable (∀ j < plan.workers, ∀ op ∈ r.todo j, op.unlocks = false))
  | .record .. | .allocate | .storeDrops _ | .run _ => .isTrue trivial

/-- A row is taken while a delivery is being recorded, so that the delivery is split over two rows. -/
def sampledInside : List (Recorder.Label ℚ) :=
  [.record 0 (.publish onlySlot 1)] ++ List.replicate 8 (.run 0) ++
    [.record 0 (.deliver onlySlot 1 5 false)] ++ List.replicate 6 (.run 0) ++
    [.sample 1] ++ List.replicate 11 (.run 1) ++ List.replicate 8 (.run 0) ++
    [.sample 1] ++ List.replicate 11 (.run 1)

end GolangMQ.Bench
