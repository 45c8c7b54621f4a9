import GolangMQ.Bench.Phases
import GolangMQ.Machine.Pool

/-! # What an accumulator holds

An accumulator of `stats` is added to by record calls, cleared by one update of `resetAll`, and moved into rows by
`sampleWindow`. Whatever the schedule, what it holds, what the rows have taken from it and what record calls still
have to add make up the calls counted since the last boundary; while `beginMeasured` is on its way to the reset of
the accumulator, nothing has been counted.
-/

namespace GolangMQ.Bench

open Machine

variable {F M : Type} [Field F] [LinearOrder F] [AddCancelCommMonoid M] {plan : Plan}

/-- A quantity that is read off `stats`, with the contribution of every update and of a row. -/
structure Accumulator (F M : Type) [Field F] [LinearOrder F] [AddCancelCommMonoid M] (plan : Plan) where
  value : Stats F → M
  weight : Update F → M
  row : Window F → M
  reset : Update F
  listed : reset ∈ Stats.resetAll F plan
  fresh : value (newStats F plan) = 0
  phase : ∀ (s : Stats F) (phaseFrom : ℕ), value { s with phaseFrom } = value s
  stores : ∀ (s : Stats F) (v : ℕ), value (s.storeDrops v) = value s
  adds : ∀ (s s' : Stats F) (u : Update F), s.apply u = some s' → u.clears = false → value s' = value s + weight u
  keeps : ∀ (s s' : Stats F) (u : Update F), s.apply u = some s' → u.clears = true → u ≠ reset → value s' = value s
  empties : ∀ s s' : Stats F, s.apply reset = some s' → value s' = 0
  arrives : ∀ u : Update F, u.arrives = true → weight u = 0
  blank : row {} = 0
  reads : ∀ (s : Stats F) (w : Window F) (reading : Reading), w.Unread reading →
    value (s.read w reading).1 + row (s.read w reading).2.1 = value s + row w

namespace Accumulator

variable (A : Accumulator F M plan)

/-- What an operation still has to add, or has in hand. -/
def pending : Op F → M
  | .update u => if u.clears then 0 else A.weight u
  | .sampling row _ => A.row row
  | _ => 0

/-- What the calls that were counted add. -/
def due (records : List (Record F)) : M := (records.map fun record => (record.body.map A.weight).sum).sum

/-- `sampleWindow` takes nothing from the accumulator. -/
def Total : Prop := ∀ w, A.row w = 0

private theorem pending_body (record : Record F) :
    ((record.body.map Op.update).map A.pending).sum = (record.body.map A.weight).sum := by
  rw [List.map_map]
  refine congrArg List.sum (List.map_congr_left fun u member => ?_)
  simp [pending, (Record.records_of_mem member).2]

private theorem pending_silent {updates : List (Update F)} (silent : ∀ u ∈ updates, A.pending (.update u) = 0) :
    ((updates.map Op.update).map A.pending).sum = 0 := by
  refine List.sum_eq_zero fun x member => ?_
  obtain ⟨op, listed, rfl⟩ := List.mem_map.1 member
  obtain ⟨u, updated, rfl⟩ := List.mem_map.1 listed
  exact silent u updated

private theorem pending_arriving {updates : List (Update F)} (all : ∀ u ∈ updates, u.arrives = true) :
    ((updates.map Op.update).map A.pending).sum = 0 :=
  A.pending_silent fun u member => by simp [pending, A.arrives u (all u member)]

private theorem pending_clearing {updates : List (Update F)} (all : ∀ u ∈ updates, u.clears = true) :
    ((updates.map Op.update).map A.pending).sum = 0 :=
  A.pending_silent fun u member => if_pos (all u member)

private theorem pending_beginMeasured : ((beginMeasured F plan).map A.pending).sum = 0 := by
  have reset := A.pending_clearing fun (u : Update F) (member : u ∈ Stats.resetAll F plan) => Stats.clears_of_mem member
  simpa [beginMeasured, pending] using reset

private theorem pending_ops (record : Record F) : (record.ops.map A.pending).sum = 0 := by
  rw [Record.ops, List.map_append, List.sum_append, A.pending_arriving fun u => Record.arrives_of_mem, zero_add]
  simp [pending]

end Accumulator

/-- `beginMeasured` is past the boundary and has the update still to run. -/
def Clearing (r : Recorder F) (u : Update F) : Prop := ∃ i, r.writer = some i ∧ .cut ∉ r.todo i ∧ .update u ∈ r.todo i

/-- No row has been begun. -/
def Unsampled (r : Recorder F) : Prop := r.windows = [] ∧ ∀ i row left, .sampling row left ∉ r.todo i

/-- What the accumulator holds, what rows have taken and what is still to be added, against what is due. -/
structure Accounted (A : Accumulator F M plan) (r : Recorder F) : Prop where
  clearing : Clearing r A.reset → load A.pending plan.workers r.todo = 0 ∧ r.measured = []
  settled : ¬Clearing r A.reset →
    A.value r.stats + (r.windows.map A.row).sum + load A.pending plan.workers r.todo = A.due r.measured

variable {A : Accumulator F M plan} {r r' : Recorder F} {i : ℕ}

/-- Another goroutine does not change how far `beginMeasured` has come. -/
private theorem clearing_advance {u : Update F} {ops : List (Op F)} (writer : r'.writer = r.writer)
    (todo : r'.todo = Function.update r.todo i ops) (unlocked : r.writer ≠ some i) :
    Clearing r' u ↔ Clearing r u := by
  refine exists_congr fun j => ?_
  rw [writer, todo]
  refine and_congr_right fun held => ?_
  have other : j ≠ i := fun same => unlocked (same ▸ held)
  rw [Function.update_of_ne other]

private theorem not_clearing_of_free {u : Update F} (free : r.writer = none) : ¬Clearing r u := by
  rintro ⟨j, held, -⟩
  cases free.symm.trans held

/-- A step of a goroutine that is not `beginMeasured`, from what it does to the two sides. -/
theorem Accounted.advance (accounted : Accounted A r) {ops : List (Op F)} (writer : r'.writer = r.writer)
    (todo : r'.todo = Function.update r.todo i ops) (unlocked : r.writer ≠ some i)
    (still : Clearing r A.reset → load A.pending plan.workers r'.todo = load A.pending plan.workers r.todo ∧
      r'.measured = r.measured)
    (kept : ¬Clearing r A.reset →
      A.value r.stats + (r.windows.map A.row).sum + load A.pending plan.workers r.todo = A.due r.measured →
      A.value r'.stats + (r'.windows.map A.row).sum + load A.pending plan.workers r'.todo = A.due r'.measured) :
    Accounted A r' := by
  have same := clearing_advance (u := A.reset) writer todo unlocked
  constructor
  · intro clearing
    obtain ⟨nothing, none⟩ := accounted.clearing (same.1 clearing)
    obtain ⟨load, measured⟩ := still (same.1 clearing)
    exact ⟨load.trans nothing, measured.trans none⟩
  · intro settled
    exact kept (mt same.2 settled) (accounted.settled (mt same.2 settled))

theorem Phased.inside (phased : Phased plan r) {op : Op F} {rest : List (Op F)} (pending : r.todo i = op :: rest) :
    i < plan.workers := by
  by_contra beyond
  rw [phased.idle i (Nat.le_of_not_lt beyond)] at pending
  cases pending

/-- Behind the boundary nothing is pending: whoever holds no lock has counted nothing yet. -/
theorem Phased.load_eq_zero (phased : Phased plan r) (empty : r.readers = ∅) (free : A.Total ∨ Unsampled r) :
    load A.pending plan.workers r.todo = 0 := by
  refine Finset.sum_eq_zero fun j _ => ?_
  have stage := phased.stages j
  have out : decide (j ∈ r.readers) = false := by rw [empty]; rfl
  rw [out] at stage
  generalize decide (r.writer = some j) = writing at stage
  generalize left : r.todo j = todo at stage
  cases stage with
  | idle => rfl
  | arriving rest =>
    rw [List.map_append, List.sum_append, A.pending_arriving fun u member => Record.arrives_of_mem (rest.mem member),
      zero_add]
    simp [Accumulator.pending]
  | opening => exact A.pending_beginMeasured
  | cutting => simpa [Accumulator.pending] using A.pending_clearing fun u member => Stats.clears_of_mem member
  | clearing all =>
    rw [List.map_append, List.sum_append,
      A.pending_clearing fun u member => Stats.clears_of_mem (all u member), zero_add]
    simp [Accumulator.pending]
  | @sampling row rest =>
    rcases free with total | unsampled
    · simp [Accumulator.pending, total row]
    · exact absurd (left ▸ List.mem_singleton_self _) (unsampled.2 j row rest)

/-- A step that moves nothing. -/
theorem Accounted.silent (accounted : Accounted A r) {ops : List (Op F)} (writer : r'.writer = r.writer)
    (todo : r'.todo = Function.update r.todo i ops) (unlocked : r.writer ≠ some i)
    (value : A.value r'.stats = A.value r.stats) (windows : r'.windows = r.windows)
    (measured : r'.measured = r.measured)
    (same : load A.pending plan.workers r'.todo = load A.pending plan.workers r.todo) : Accounted A r' := by
  refine accounted.advance writer todo unlocked (fun _ => ⟨same, measured⟩) fun _ settled => ?_
  rw [value, windows, measured, same]
  exact settled

/-- A call starts with nothing to add. -/
theorem Accounted.call (accounted : Accounted A r) (phased : Phased plan r) {ops : List (Op F)}
    (called : r.call plan i ops = some r') (silent : (ops.map A.pending).sum = 0) : Accounted A r' := by
  obtain ⟨inside, idle, rfl⟩ := Recorder.call_eq_some called
  refine accounted.silent rfl rfl (phased.outside idle).2 rfl rfl rfl ?_
  rw [Recorder.advance, load_start _ inside idle, silent, add_zero]

/-- What a goroutine moves on with exchanges what it had in hand. -/
theorem Phased.load_advance (phased : Phased plan r) (A : Accumulator F M plan) {first : Op F} {rest : List (Op F)}
    (pending : r.todo i = first :: rest) (next : List (Op F)) :
    load A.pending plan.workers (r.advance i (next ++ rest)).todo + A.pending first =
      load A.pending plan.workers r.todo + (next.map A.pending).sum :=
  GolangMQ.load_advance A.pending (phased.inside pending) pending next

/-- The same for an operation that has nothing in hand and leads to nothing. -/
theorem Phased.load_silent (phased : Phased plan r) {first : Op F} {rest : List (Op F)}
    (pending : r.todo i = first :: rest) (none : A.pending first = 0) :
    load A.pending plan.workers (r.advance i rest).todo = load A.pending plan.workers r.todo := by
  simpa [none] using phased.load_advance A pending []

/-- Every step of a record call keeps the accounts of an accumulator. -/
theorem Accounted.clear (accounted : Accounted A r) (phased : Phased plan r)
    (free : A.Total ∨ Unsampled r) {u : Update F} {updates : List (Update F)} {stats : Stats F}
    (all : ∀ v ∈ u :: updates, v.clears = true)
    (pending : r.todo i = .update u :: (updates.map .update ++ [.unlock])) (locked : r.writer = some i)
    (applied : r.stats.apply u = some stats) :
    Accounted A { r.advance i (updates.map .update ++ [.unlock]) with stats } := by
  have clears := all u List.mem_cons_self
  have same := phased.load_silent (A := A) pending (if_pos clears)
  have uncut : Op.cut ∉ r.todo i := by simp [pending]
  have now {v : Update F} : Clearing { r.advance i (updates.map .update ++ [.unlock]) with stats } v ↔ v ∈ updates := by
    simp [Clearing, Recorder.advance, locked]
  have before {v : Update F} : Clearing r v ↔ v = u ∨ v ∈ updates := by
    simp [Clearing, locked, pending]
  constructor
  · intro clearing
    obtain ⟨nothing, none⟩ := accounted.clearing (before.2 (Or.inr (now.1 clearing)))
    exact ⟨same.trans nothing, none⟩
  · intro settled
    by_cases last : u = A.reset
    · subst last
      obtain ⟨nothing, none⟩ := accounted.clearing (before.2 (Or.inl rfl))
      have rows : (r.windows.map A.row).sum = 0 := by
        rcases free with total | unsampled
        · exact List.sum_eq_zero fun x member => by
            obtain ⟨w, -, rfl⟩ := List.mem_map.1 member
            exact total w
        · rw [unsampled.1]
          rfl
      change A.value stats + (r.windows.map A.row).sum + load A.pending plan.workers (r.advance i _).todo =
        A.due r.measured
      rw [same, nothing, none, rows, A.empties _ _ applied]
      simp [Accumulator.due]
    · have remained := accounted.settled fun clearing =>
        (before.1 clearing).elim (fun equal => last equal.symm) fun member => settled (now.2 member)
      change A.value stats + (r.windows.map A.row).sum + load A.pending plan.workers (r.advance i _).todo =
        A.due r.measured
      rw [same, A.keeps _ _ u applied clears last]
      exact remained

/-- Every step keeps the accounts of an accumulator, as long as no row is begun before the boundary. -/
theorem Accounted.run (accounted : Accounted A r) (phased : Phased plan r)
    (free : A.Total ∨ (r.writer ≠ none → Unsampled r)) (moves : Moves plan r i r') : Accounted A r' := by
  have unlocked (free : r.writer = none) : r.writer ≠ some i := by rw [free]; exact (Option.some_ne_none i).symm
  have behind (held : r.writer = some i) : A.Total ∨ Unsampled r :=
    free.imp id fun unsampled => unsampled (by rw [held]; exact Option.some_ne_none i)
  cases moves with
  | @arrive u updates record stats rest pending out unlocked applied =>
    have arrives := Record.arrives_of_mem (rest.mem List.mem_cons_self)
    have none : A.weight u = 0 := A.arrives u arrives
    have clears : u.clears = false := by
      cases u <;> first | rfl | contradiction
    refine accounted.silent rfl rfl unlocked ?_ rfl rfl (phased.load_silent pending ?_)
    · rw [A.adds _ _ u applied clears, none, add_zero]
    · simp [Accumulator.pending, none]
  | rlock pending out free =>
    exact accounted.silent rfl rfl (unlocked free) rfl rfl rfl (phased.load_silent pending rfl)
  | skip pending inside free warmup =>
    refine accounted.silent rfl rfl (unlocked free) rfl rfl rfl ?_
    simpa [Accumulator.pending] using phased.load_advance A pending [.runlock]
  | @check record pending inside free counts =>
    refine accounted.advance rfl rfl (unlocked free) (fun clearing => absurd clearing (not_clearing_of_free free))
      fun _ settled => ?_
    have more := phased.load_advance A pending (record.body.map .update ++ [.runlock])
    rw [List.append_nil, List.map_append, List.sum_append, A.pending_body] at more
    simp only [Accumulator.pending, add_zero, List.map_cons, List.map_nil, List.sum_cons, List.sum_nil] at more
    change A.value r.stats + (r.windows.map A.row).sum + load A.pending plan.workers (r.advance i _).todo =
      A.due (r.measured ++ [record])
    rw [more, ← add_assoc, settled]
    simp [Accumulator.due]
  | @record u updates stats all pending inside free applied =>
    refine accounted.advance rfl rfl (unlocked free) (fun clearing => absurd clearing (not_clearing_of_free free))
      fun _ settled => ?_
    have clears := (all u List.mem_cons_self).2
    have less := phased.load_advance A pending []
    simp only [Accumulator.pending, clears, Bool.false_eq_true, ↓reduceIte, add_zero, List.map_nil, List.sum_nil,
      List.nil_append] at less
    change A.value stats + (r.windows.map A.row).sum + load A.pending plan.workers (r.advance i _).todo =
      A.due r.measured
    rw [A.adds _ _ u applied clears, ← settled, ← less]
    abel
  | runlock pending inside free =>
    exact accounted.silent rfl rfl (unlocked free) rfl rfl rfl (phased.load_silent pending rfl)
  | lock pending free empty =>
    have first : r.todo i = .lock :: .cut :: ((Stats.resetAll F plan).map .update ++ [.unlock]) := pending
    have same := phased.load_silent (A := A) first rfl
    have uncut (u : Update F) : ¬Clearing
      { r.advance i (.cut :: ((Stats.resetAll F plan).map .update ++ [.unlock])) with
        writer := some i } u := by
      simp [Clearing, Recorder.advance]
    refine ⟨fun clearing => absurd clearing (uncut _), fun _ => ?_⟩
    change A.value r.stats + (r.windows.map A.row).sum + load A.pending plan.workers (r.advance i _).todo =
      A.due r.measured
    rw [same]
    exact accounted.settled (not_clearing_of_free free)
  | cut pending locked empty =>
    have nothing := phased.load_eq_zero empty (behind locked)
    have same := phased.load_silent (A := A) pending rfl
    have clearing : Clearing { r.advance i ((Stats.resetAll F plan).map .update ++ [.unlock]) with
        stats := { r.stats with phaseFrom := r.seqGen }, measured := [] } A.reset := by
      simp [Clearing, Recorder.advance, locked, A.listed]
    exact ⟨fun _ => ⟨same.trans nothing, rfl⟩, fun settled => absurd clearing settled⟩
  | clear all pending locked empty applied =>
    exact accounted.clear phased (behind locked)
      (fun v member => Stats.clears_of_mem (all v member)) pending locked applied
  | unlock pending locked empty =>
    have ended : ¬Clearing r A.reset := by simp [Clearing, locked, pending]
    refine ⟨fun clearing => absurd clearing (not_clearing_of_free rfl), fun _ => ?_⟩
    change A.value r.stats + (r.windows.map A.row).sum + load A.pending plan.workers (r.advance i _).todo =
      A.due r.measured
    rw [phased.load_silent pending rfl]
    exact accounted.settled ended
  | @read row reading left filling pending out unlocked =>
    have exchanged := phased.load_advance A pending
      [.sampling (r.stats.read row reading).2.1 ((r.stats.read row reading).2.2 ++ left)]
    simp only [List.append_nil, Accumulator.pending, List.map_cons, List.map_nil, List.sum_cons, List.sum_nil,
      add_zero] at exchanged
    have moved := A.reads r.stats row reading (filling.unread reading List.mem_cons_self)
    refine accounted.advance rfl rfl unlocked (fun clearing => ⟨?_, rfl⟩) fun _ settled => ?_
    · obtain ⟨j, held, -, resets⟩ := clearing
      rcases free with total | unsampled
      · rwa [total row, total, add_zero, add_zero] at exchanged
      · have none := (unsampled (by rw [held]; exact Option.some_ne_none j)).2 i row (reading :: left)
        exact absurd (pending ▸ List.mem_singleton_self _) none
    · change A.value (r.stats.read row reading).1 + (r.windows.map A.row).sum +
        load A.pending plan.workers (r.advance i _).todo = A.due r.measured
      rw [← settled]
      refine add_right_cancel (b := A.row row) ?_
      calc _ = A.value (r.stats.read row reading).1 + (r.windows.map A.row).sum +
            (load A.pending plan.workers (r.advance i _).todo + A.row row) := by abel
        _ = A.value (r.stats.read row reading).1 + A.row (r.stats.read row reading).2.1 +
            (r.windows.map A.row).sum + load A.pending plan.workers r.todo := by rw [exchanged]; abel
        _ = _ := by rw [moved]; abel
  | @emit row pending out unlocked =>
    have less := phased.load_advance A pending []
    simp only [List.nil_append, Accumulator.pending, List.map_nil, List.sum_nil, add_zero] at less
    refine accounted.advance rfl rfl unlocked (fun clearing => ⟨?_, rfl⟩) fun _ settled => ?_
    · obtain ⟨j, held, -, resets⟩ := clearing
      rcases free with total | unsampled
      · rwa [total row, add_zero] at less
      · have none := (unsampled (by rw [held]; exact Option.some_ne_none j)).2 i row []
        exact absurd (pending ▸ List.mem_singleton_self _) none
    · change A.value r.stats + ((r.windows ++ [row]).map A.row).sum +
        load A.pending plan.workers (r.advance i _).todo = A.due r.measured
      rw [← settled, ← less]
      simp only [List.map_append, List.sum_append, List.map_cons, List.map_nil, List.sum_cons, List.sum_nil, add_zero]
      abel

theorem Accounted.init : Accounted A (recorder F plan).init := by
  refine ⟨fun clearing => absurd clearing (not_clearing_of_free rfl), fun _ => ?_⟩
  change A.value (newStats F plan) + 0 + load A.pending plan.workers (fun _ => []) = 0
  rw [A.fresh, load_idle _ fun _ _ => rfl, add_zero, add_zero]

theorem Accounted.step (accounted : Accounted A r) (phased : Phased plan r)
    (free : A.Total ∨ (r.writer ≠ none → Unsampled r)) {label : Recorder.Label F}
    (stepped : r.step? plan label = some r') : Accounted A r' := by
  cases label with
  | allocate =>
    cases stepped
    exact ⟨accounted.clearing, accounted.settled⟩
  | storeDrops v =>
    cases stepped
    refine ⟨accounted.clearing, fun settled => ?_⟩
    rw [A.stores]
    exact accounted.settled settled
  | record i record =>
    obtain ⟨called, started, rfl⟩ := Option.map_eq_some_iff.1 stepped
    obtain ⟨clearing, settled⟩ := accounted.call phased started (A.pending_ops record)
    exact ⟨clearing, settled⟩
  | begin i => exact accounted.call phased stepped A.pending_beginMeasured
  | sample i => exact accounted.call phased stepped (by simp [Accumulator.pending, A.blank])
  | run i => exact accounted.run phased free (phased.moves stepped)

/-- An accumulator that rows take nothing from is accounted for in every reachable state. -/
theorem accounted_of_reachable {ok : Recorder F → Recorder.Label F → Prop} (total : A.Total)
    (reached : (recorder F plan).Reachable ok r) : Accounted A r :=
  reached.invariant .init fun before accounted _ stepped =>
    accounted.step (phased_of_reachable before) (Or.inl total) stepped

/-- The record calls have returned, and `beginMeasured` too; rows may be in the making. -/
def Recorder.Recorded (r : Recorder F) : Prop := ∀ i, r.todo i = [] ∨ ∃ row left, r.todo i = [.sampling row left]

theorem Recorder.Recorded.not_clearing (done : r.Recorded) (u : Update F) : ¬Clearing r u := by
  rintro ⟨i, -, -, resets⟩
  rcases done i with idle | ⟨row, left, sampling⟩
  · rw [idle] at resets
    cases resets
  · simp [sampling] at resets

/-- When no record call is in progress, such an accumulator holds what the calls counted since the boundary add. -/
theorem Accounted.quiet (accounted : Accounted A r) (total : A.Total) (done : r.Recorded) :
    A.value r.stats = A.due r.measured := by
  have rows : (r.windows.map A.row).sum = 0 := List.sum_eq_zero fun x member => by
    obtain ⟨w, -, rfl⟩ := List.mem_map.1 member
    exact total w
  have nothing : load A.pending plan.workers r.todo = 0 := Finset.sum_eq_zero fun i _ => by
    rcases done i with idle | ⟨row, left, sampling⟩
    · rw [idle]
      rfl
    · rw [sampling]
      simpa [Accumulator.pending] using total row
  simpa [rows, nothing] using accounted.settled (done.not_clearing _)

end GolangMQ.Bench
