import GolangMQ.Bench.Accumulators
import Mathlib.Algebra.Field.Rat
import Mathlib.Algebra.Order.Ring.Unbundled.Rat

/-! # The warmup boundary

Workers record only sequence numbers that have been handed out, so that nothing recorded before the boundary can
carry a number above the cutoff. The calls counted since the boundary are then exactly the calls of the whole run
with a number above it, and the totals count those.
-/

namespace GolangMQ.Bench

open Machine

variable {F : Type} [Field F] {plan : Plan}

/-- The record calls that have not come to the test of the warmup. -/
def Op.unchecked : Op F → Option (Record F)
  | .check record => some record
  | _ => none

private theorem unchecked_updates (updates : List (Update F)) :
    (updates.map Op.update).filterMap Op.unchecked = [] := by
  simp [List.filterMap_map, Function.comp_def, Op.unchecked]

theorem unchecked_ops (record : Record F) : record.ops.filterMap Op.unchecked = [record] := by
  rw [Record.ops, List.filterMap_append, unchecked_updates]
  rfl

theorem unchecked_beginMeasured (plan : Plan) : (beginMeasured F plan).filterMap Op.unchecked = [] := by
  rw [beginMeasured, List.filterMap_append, List.filterMap_append, unchecked_updates]
  rfl

variable [LinearOrder F] {r r' : Recorder F} {i : ℕ}

/-- A record call is made for a sequence number that has been handed out. -/
def Recorder.Allocated (r : Recorder F) : Recorder.Label F → Prop
  | .record _ record => record.seq ≤ r.seqGen
  | _ => True

/-- The calls counted since the boundary, and those that will be, are the calls with a number above it. -/
structure Sequenced (plan : Plan) (r : Recorder F) : Prop where
  allocated : ∀ record ∈ r.records, record.seq ≤ r.seqGen
  waiting : ∀ record ∈ tally Op.unchecked plan.workers r.todo, record.seq ≤ r.seqGen
  counted : (r.measured : Multiset (Record F)) +
      (tally Op.unchecked plan.workers r.todo).filter (r.stats.phaseFrom < ·.seq) =
    (r.records : Multiset (Record F)).filter (r.stats.phaseFrom < ·.seq)
  returned : ∀ cutoff, r.cutoff = some cutoff → r.writer = none → r.stats.phaseFrom = cutoff

private theorem Stats.phaseFrom_apply {s s' : Stats F} {u : Update F} (applied : s.apply u = some s') :
    s'.phaseFrom = s.phaseFrom := by
  cases Stats.applies_of_apply applied <;> rfl

private theorem Stats.phaseFrom_read (s : Stats F) (w : Window F) (reading : Reading) :
    (s.read w reading).1.phaseFrom = s.phaseFrom := by
  cases reading <;> rfl

/-- A step that neither makes a call nor tests one. -/
theorem Sequenced.silent (sequenced : Sequenced plan r) (seqGen : r'.seqGen = r.seqGen)
    (records : r'.records = r.records) (measured : r'.measured = r.measured)
    (phaseFrom : r'.stats.phaseFrom = r.stats.phaseFrom) (cutoff : r'.cutoff = r.cutoff)
    (writer : r'.writer = none → r.writer = none)
    (same : tally Op.unchecked plan.workers r'.todo = tally Op.unchecked plan.workers r.todo) : Sequenced plan r' := by
  refine ⟨?_, ?_, ?_, ?_⟩
  · rw [records, seqGen]
    exact sequenced.allocated
  · rw [same, seqGen]
    exact sequenced.waiting
  · rw [measured, same, phaseFrom, records]
    exact sequenced.counted
  · rw [cutoff, phaseFrom]
    exact fun last returned free => sequenced.returned last returned (writer free)

private theorem Phased.tally_advance (phased : Phased plan r) {first : Op F} {rest : List (Op F)}
    (pending : r.todo i = first :: rest) (next : List (Op F)) (quiet : next.filterMap Op.unchecked = []) :
    tally Op.unchecked plan.workers (r.advance i (next ++ rest)).todo + (first.unchecked.toList : Multiset (Record F)) =
      tally Op.unchecked plan.workers r.todo := by
  have exchanged := GolangMQ.tally_advance Op.unchecked (phased.inside pending) pending next
  rwa [quiet, Multiset.coe_nil, add_zero] at exchanged

private theorem Phased.tally_silent (phased : Phased plan r) {first : Op F} {rest : List (Op F)}
    (pending : r.todo i = first :: rest) (silent : first.unchecked = none) :
    tally Op.unchecked plan.workers (r.advance i rest).todo = tally Op.unchecked plan.workers r.todo := by
  simpa [silent] using phased.tally_advance pending [] rfl

/-- What a step means for the calls that wait for their test, and for those that passed it. -/
inductive Passes (plan : Plan) (r r' : Recorder F) : Prop
  | silent (waiting : tally Op.unchecked plan.workers r'.todo = tally Op.unchecked plan.workers r.todo)
      (measured : r'.measured = r.measured) (phaseFrom : r'.stats.phaseFrom = r.stats.phaseFrom)
      (cutoff : r'.cutoff = r.cutoff) (writer : r'.writer = none → r.writer = none)
  | tested (record : Record F)
      (waiting : tally Op.unchecked plan.workers r'.todo + {record} = tally Op.unchecked plan.workers r.todo)
      (measured : r'.measured = r.measured ++ if r.stats.phaseFrom < record.seq then [record] else [])
      (phaseFrom : r'.stats.phaseFrom = r.stats.phaseFrom) (cutoff : r'.cutoff = r.cutoff)
      (writer : r'.writer = r.writer)
  | cut (waiting : tally Op.unchecked plan.workers r'.todo = tally Op.unchecked plan.workers r.todo)
      (measured : r'.measured = []) (phaseFrom : r'.stats.phaseFrom = r.seqGen) (writer : r'.writer ≠ none)
  | returned (waiting : tally Op.unchecked plan.workers r'.todo = tally Op.unchecked plan.workers r.todo)
      (measured : r'.measured = r.measured) (phaseFrom : r'.stats.phaseFrom = r.stats.phaseFrom)
      (cutoff : r'.cutoff = some r.stats.phaseFrom)

theorem Phased.passes (phased : Phased plan r) (moves : Moves plan r i r') :
    Passes plan r r' ∧ r'.seqGen = r.seqGen ∧ r'.records = r.records := by
  cases moves with
  | arrive _ pending _ _ applied | record _ pending _ _ applied | clear _ pending _ _ applied =>
    exact ⟨.silent (phased.tally_silent pending rfl) rfl (Stats.phaseFrom_apply applied) rfl id, rfl, rfl⟩
  | rlock pending | runlock pending | emit pending =>
    exact ⟨.silent (phased.tally_silent pending rfl) rfl rfl rfl id, rfl, rfl⟩
  | @skip record pending _ _ warmup =>
    refine ⟨.tested record (phased.tally_advance pending [.runlock] rfl) ?_ rfl rfl rfl, rfl, rfl⟩
    rw [if_neg (Nat.not_lt.2 warmup), List.append_nil]
    rfl
  | @check record pending _ _ counts =>
    have quiet : (record.body.map Op.update ++ [Op.runlock]).filterMap Op.unchecked = [] := by
      rw [List.filterMap_append, unchecked_updates]
      rfl
    have less := phased.tally_advance pending _ quiet
    rw [List.append_nil] at less
    refine ⟨.tested record less ?_ rfl rfl rfl, rfl, rfl⟩
    rw [if_pos counts]
  | lock pending =>
    have first : r.todo i = .lock :: .cut :: ((Stats.resetAll F plan).map .update ++ [.unlock]) := pending
    exact ⟨.silent (phased.tally_silent first rfl) rfl rfl rfl
      fun free => absurd free (Option.some_ne_none i), rfl, rfl⟩
  | cut pending locked =>
    refine ⟨.cut (phased.tally_silent pending rfl) rfl rfl fun free => ?_, rfl, rfl⟩
    cases locked.symm.trans free
  | unlock pending => exact ⟨.returned (phased.tally_silent pending rfl) rfl rfl rfl, rfl, rfl⟩
  | @read row reading left _ pending =>
    have same := phased.tally_advance pending
      [.sampling (r.stats.read row reading).2.1 ((r.stats.read row reading).2.2 ++ left)] rfl
    refine ⟨.silent ?_ rfl (Stats.phaseFrom_read _ _ _) rfl id, rfl, rfl⟩
    simpa [Op.unchecked] using same

private theorem Sequenced.run (sequenced : Sequenced plan r) (phased : Phased plan r) (moves : Moves plan r i r') :
    Sequenced plan r' := by
  obtain ⟨passes, seqGen, records⟩ := phased.passes moves
  cases passes with
  | silent waiting measured phaseFrom cutoff writer =>
    exact sequenced.silent seqGen records measured phaseFrom cutoff writer waiting
  | tested record waiting measured phaseFrom cutoff writer =>
    refine ⟨?_, fun other member => ?_, ?_, ?_⟩
    · rw [records, seqGen]
      exact sequenced.allocated
    · rw [seqGen]
      exact sequenced.waiting other (waiting ▸ Multiset.mem_add.2 (Or.inl member))
    · have before := sequenced.counted
      rw [← waiting, Multiset.filter_add, Multiset.filter_singleton] at before
      rw [measured, phaseFrom, records, ← before, ← Multiset.coe_add, add_assoc]
      congr 1
      rw [add_comm]
      split <;> rfl
    · rw [cutoff, writer, phaseFrom]
      exact sequenced.returned
  | cut waiting measured phaseFrom writer =>
    refine ⟨?_, ?_, ?_, fun _ _ free => absurd free writer⟩
    · rw [records, seqGen]
      exact sequenced.allocated
    · rw [waiting, seqGen]
      exact sequenced.waiting
    · -- everything recorded so far, and every call under way, has a number up to the cutoff
      have none : (tally Op.unchecked plan.workers r.todo).filter (r.seqGen < ·.seq) = 0 :=
        Multiset.filter_eq_nil.2 fun record member => Nat.not_lt.2 (sequenced.waiting record member)
      have nothing : (r.records : Multiset (Record F)).filter (r.seqGen < ·.seq) = 0 :=
        Multiset.filter_eq_nil.2 fun record member => Nat.not_lt.2 (sequenced.allocated record member)
      rw [waiting, measured, phaseFrom, records, none, nothing, add_zero, Multiset.coe_nil]
  | returned waiting measured phaseFrom cutoff =>
    refine ⟨?_, ?_, ?_, fun last same _ => ?_⟩
    · rw [records, seqGen]
      exact sequenced.allocated
    · rw [waiting, seqGen]
      exact sequenced.waiting
    · rw [measured, waiting, phaseFrom, records]
      exact sequenced.counted
    · rw [phaseFrom]
      exact Option.some.inj (cutoff.symm.trans same)

private theorem Sequenced.init : Sequenced plan (recorder F plan).init := by
  have none : tally (Op.unchecked (F := F)) plan.workers (fun _ => []) = 0 := tally_idle _ fun _ _ => rfl
  refine ⟨by simp [recorder], ?_, ?_, by simp [recorder]⟩
  · simp [recorder, none]
  · change 0 + (tally Op.unchecked plan.workers fun _ => []).filter _ = (0 : Multiset (Record F)).filter _
    rw [none, Multiset.filter_zero, add_zero]

private theorem Sequenced.step (sequenced : Sequenced plan r) (phased : Phased plan r) {label : Recorder.Label F}
    (allocated : r.Allocated label) (stepped : r.step? plan label = some r') : Sequenced plan r' := by
  cases label with
  | allocate =>
    cases stepped
    exact ⟨fun record member => (sequenced.allocated record member).trans (Nat.le_succ _),
      fun record member => (sequenced.waiting record member).trans (Nat.le_succ _), sequenced.counted,
      sequenced.returned⟩
  | storeDrops v => cases stepped; exact sequenced.silent rfl rfl rfl rfl rfl id rfl
  | record i record =>
    obtain ⟨called, started, rfl⟩ := Option.map_eq_some_iff.1 stepped
    obtain ⟨inside, idle, rfl⟩ := Recorder.call_eq_some started
    have more := tally_update Op.unchecked r.todo inside record.ops
    rw [idle, unchecked_ops, List.filterMap_nil, Multiset.coe_nil, add_zero, Multiset.coe_singleton] at more
    refine ⟨?_, ?_, ?_, sequenced.returned⟩
    · intro other member
      rcases List.mem_append.1 member with old | new
      · exact sequenced.allocated other old
      · rw [List.mem_singleton.1 new]
        exact allocated
    · intro other member
      rcases Multiset.mem_add.1 (more ▸ member) with old | new
      · exact sequenced.waiting other old
      · rw [Multiset.mem_singleton.1 new]
        exact allocated
    · change (r.measured : Multiset (Record F)) +
          (tally Op.unchecked plan.workers (Function.update r.todo i record.ops)).filter (r.stats.phaseFrom < ·.seq) =
        ((r.records ++ [record] : List (Record F)) : Multiset (Record F)).filter (r.stats.phaseFrom < ·.seq)
      rw [more, ← Multiset.coe_add, Multiset.filter_add, Multiset.filter_add, ← sequenced.counted, add_assoc,
        Multiset.coe_singleton]
  | begin i =>
    obtain ⟨inside, idle, rfl⟩ := Recorder.call_eq_some stepped
    exact sequenced.silent rfl rfl rfl rfl rfl id (tally_start Op.unchecked inside idle (unchecked_beginMeasured plan))
  | sample i =>
    obtain ⟨inside, idle, rfl⟩ := Recorder.call_eq_some stepped
    exact sequenced.silent rfl rfl rfl rfl rfl id (tally_start Op.unchecked inside idle rfl)
  | run i => exact sequenced.run phased (phased.moves stepped)

theorem sequenced_of_reachable {ok : Recorder F → Recorder.Label F → Prop}
    (allocated : ∀ r label, ok r label → r.Allocated label) (reached : (recorder F plan).Reachable ok r) :
    Sequenced plan r :=
  reached.invariant .init fun before sequenced allowed stepped =>
    sequenced.step (phased_of_reachable before) (allocated _ _ allowed) stepped

/-- When no record call is in progress, what has been counted are the calls with a number above the boundary. -/
theorem Sequenced.measured_perm (sequenced : Sequenced plan r) (done : r.Recorded) :
    r.measured.Perm (r.records.filter (r.stats.phaseFrom < ·.seq)) := by
  have none : tally Op.unchecked plan.workers r.todo = 0 := Multiset.eq_zero_of_forall_notMem fun record member => by
    obtain ⟨i, -, op, pending, checks⟩ := mem_tally.1 member
    rcases done i with idle | ⟨row, left, sampling⟩
    · rw [idle] at pending
      cases pending
    · rw [sampling, List.mem_singleton] at pending
      subst pending
      cases checks
  have counted := sequenced.counted
  rw [none, Multiset.filter_zero, add_zero, Multiset.filter_coe] at counted
  exact Multiset.coe_eq_coe.1 counted

namespace Record

omit [Field F] [LinearOrder F]

def isPublish : Record F → Bool
  | publish .. => true
  | _ => false

def isDeliver : Record F → Bool
  | deliver .. => true
  | _ => false

/-- A delivery that is or is not a duplicate. -/
def isDeliverWith (dup : Bool) : Record F → Bool
  | deliver _ _ _ dup' => dup' == dup
  | _ => false

def ackLatency : Record F → Option F
  | ack _ latUs => some latUs
  | _ => none

end Record

/-- Nobody holds the lock when the record calls and `beginMeasured` have returned. -/
theorem Phased.writer_eq_none (phased : Phased plan r) (done : r.Recorded) : r.writer = none := by
  by_contra held
  obtain ⟨i, held⟩ := Option.ne_none_iff_exists'.1 held
  have stage := phased.stages i
  rw [decide_eq_true held] at stage
  generalize decide (i ∈ r.readers) = reading at stage
  rcases done i with idle | ⟨row, left, sampling⟩
  · generalize r.todo i = todo at stage idle
    cases stage with
    | clearing => exact absurd idle (by simp)
    | _ => contradiction
  · generalize r.todo i = todo at stage sampling
    cases stage with
    | @clearing updates => cases updates <;> simp at sampling
    | cutting => simp at sampling

/-- The totals count the record calls with a number above the cutoff that `beginMeasured` returned, and no others. -/
theorem warmup_boundary_exact (F : Type) [Field F] [LinearOrder F] (plan : Plan) (r : Recorder F) (cutoff : ℕ)
    (reached : (recorder F plan).Reachable Recorder.Allocated r) (returned : r.cutoff = some cutoff)
    (done : r.Recorded) :
    let measured := r.records.filter (cutoff < ·.seq)
    r.stats.counter .published = measured.countP Record.isPublish ∧
      r.stats.counter .delivered = measured.countP Record.isDeliver ∧
      r.stats.counter .consumed = measured.countP (Record.isDeliverWith false) ∧
      r.stats.counter .duplicates = measured.countP (Record.isDeliverWith true) ∧
      (r.stats.latency .ackLatTot).samples.Perm (measured.filterMap Record.ackLatency) ∧
      (r.stats.latency .ackLatTot).count = (measured.filterMap Record.ackLatency).length := by
  have sequenced := sequenced_of_reachable (fun _ _ allocated => allocated) reached
  have boundary := sequenced.returned cutoff returned ((phased_of_reachable reached).writer_eq_none done)
  have same := sequenced.measured_perm done
  rw [boundary] at same
  have counts (c : Counter) (measured : c.resettable = true) (total : c.windowed = false) :
      r.stats.counter c = (r.records.filter (cutoff < ·.seq)).countP c.counts := by
    have held := (accounted_of_reachable (counted_total measured total) reached).quiet
      (counted_total measured total) done
    rw [due_counted, same.countP_eq] at held
    exact held
  have samples : (r.stats.latency .ackLatTot).samples.Perm
      ((r.records.filter (cutoff < ·.seq)).filterMap Record.ackLatency) := by
    have total : (sampled F plan .ackLatTot rfl).Total := sampled_total rfl (by decide)
    have held := (accounted_of_reachable total reached).quiet total done
    refine (Multiset.coe_eq_coe.1 (held.trans (due_sampled rfl _))).trans ?_
    have read : (LatencyKey.ackLatTot.sampleOf : Record F → Option F) = Record.ackLatency := by
      funext record
      cases record <;> rfl
    rw [read]
    exact same.filterMap _
  have read (c : Counter) (p : Record F → Bool) (agree : ∀ record, c.counts record = p record) : c.counts = p :=
    funext agree
  refine ⟨?_, ?_, ?_, ?_, samples, (r.stats.latency .ackLatTot).counted.trans samples.length_eq⟩
  · rw [counts .published rfl rfl, read .published Record.isPublish fun record => by cases record <;> rfl]
  · rw [counts .delivered rfl rfl, read .delivered Record.isDeliver fun record => by cases record <;> rfl]
  · rw [counts .consumed rfl rfl, read .consumed (Record.isDeliverWith false) fun record => by
      cases record with
      | deliver _ _ _ dup => cases dup <;> rfl
      | _ => rfl]
  · rw [counts .duplicates rfl rfl, read .duplicates (Record.isDeliverWith true) fun record => by
      cases record with
      | deliver _ _ _ dup => cases dup <;> rfl
      | _ => rfl]

instance (r : Recorder F) (label : Recorder.Label F) : Decidable (r.Allocated label) := by
  cases label <;> unfold Recorder.Allocated <;> infer_instance

/-- Only the goroutines of the plan can have a call in progress. -/
theorem Phased.recorded (phased : Phased plan r) (idle : ∀ i < plan.workers, (r.todo i).isEmpty = true) :
    r.Recorded := by
  intro i
  by_cases inside : i < plan.workers
  · exact Or.inl (List.isEmpty_iff.1 (idle i inside))
  · exact Or.inl (phased.idle i (Nat.le_of_not_lt inside))

/-- The channel of the examples. -/
def onlySlot : ChannelSlot := { conn := 0, ch := 0, globalIndex := 0, publishCapIdx := 0 }

/-- A message published during the warmup and delivered after it, and one of the measured phase. -/
def acrossTheBoundary : List (Recorder.Label ℚ) :=
  [.allocate, .record 0 (.publish onlySlot 1)] ++ List.replicate 8 (.run 0) ++
    [.begin 1] ++ List.replicate 22 (.run 1) ++
    [.record 1 (.deliver onlySlot 1 5 false)] ++ List.replicate 5 (.run 1) ++
    [.allocate, .record 0 (.publish onlySlot 2)] ++ List.replicate 8 (.run 0) ++
    [.record 1 (.deliver onlySlot 2 7 false)] ++ List.replicate 14 (.run 1) ++
    [.record 1 (.ack 2 3)] ++ List.replicate 6 (.run 1)

theorem warmup_boundary_exact_across :
    ((recorder ℚ ⟨1, 1, 2⟩).replay Recorder.Allocated acrossTheBoundary).stats.counter .published = 1 ∧
      ((recorder ℚ ⟨1, 1, 2⟩).replay Recorder.Allocated acrossTheBoundary).stats.counter .consumed = 1 := by
  have reached : (recorder ℚ ⟨1, 1, 2⟩).Reachable Recorder.Allocated _ := .of_replay acrossTheBoundary
  have counted := warmup_boundary_exact ℚ ⟨1, 1, 2⟩ _ 1 reached (by decide +kernel)
    ((phased_of_reachable reached).recorded (by decide +kernel))
  exact ⟨counted.1.trans (by decide +kernel), counted.2.2.1.trans (by decide +kernel)⟩

end GolangMQ.Bench
