import GolangMQ.Bench.Topology
import GolangMQ.Machine.Core
import Mathlib.Algebra.BigOperators.Group.List.Basic
import Mathlib.Algebra.Field.Defs
import Mathlib.Data.Finset.Erase
import Mathlib.Data.Finset.Insert
import Mathlib.Order.Defs.LinearOrder

/-! # The benchmark's accumulators

`stats` is shared by the workers of the benchmark, and every atomic operation on it is a step of its own. A record
call takes `phaseMu` for reading, leaves when its message belongs to the warmup, and then updates one accumulator
after the other; `beginMeasured` takes `phaseMu` for writing, captures the last sequence number handed out, and
clears all of them; `sampleWindow` takes no lock and empties the accumulators of the current window one by one.
Samples are elements of an ordered field. Counters are natural numbers; those of the source wrap after 2^64
increments, which no run makes.
-/

namespace GolangMQ.Bench

/-- `roleKeys`. -/
inductive RoleKey where
  | both
  | cons
deriving DecidableEq, Repr

def roleKeys : List RoleKey := [.both, .cons]

/-- `Role.key`; channels that only publish have none. -/
def Role.key : Role → Option RoleKey
  | .both => some .both
  | .consume => some .cons
  | .publish => none

/-- The counters of `stats`. -/
inductive Counter where
  | published
  | delivered
  | consumed
  | duplicates
  | drops
  | allPublished
  | allDelivered
  | allConsumed
  | allAcks
  | pubW
  | delW
  | consW
  | dupW
deriving DecidableEq, Repr

/-- The latency sets of `stats`. -/
inductive LatencyKey where
  | delLatTot
  | ackLatTot
  | delLatWin
  | ackLatWin
  | roleDelTot (key : RoleKey)
  | roleDelWin (key : RoleKey)
deriving DecidableEq, Repr

/-- The running minimum of nonempty samples after one more; `max` is the same with the order reversed. -/
private theorem extremum_append {α : Type} (le : α → α → Prop) [DecidableRel le] {samples : List α} {best : α} (v : α)
    {has : Bool}
    (total : ∀ a b, le a b ∨ le b a) (trans : ∀ a b c, le a b → le b c → le a c)
    (started : has = !samples.isEmpty) (known : has = true → best ∈ samples ∧ ∀ w ∈ samples, le best w) :
    let best' := if !has || ¬le best v then v else best
    best' ∈ samples ++ [v] ∧ ∀ w ∈ samples ++ [v], le best' w := by
  have self (a : α) : le a a := (total a a).elim id id
  cases has with
  | false =>
    have empty : samples = [] := by simpa using started.symm
    simp [empty, self]
  | true =>
    obtain ⟨member, least⟩ := known rfl
    by_cases kept : le best v
    · simpa [kept, member] using fun w listed => listed.elim (least w) fun same => same ▸ kept
    · have below : le v best := (total best v).resolve_left kept
      simpa [kept] using fun w listed => listed.elim (fun old => trans _ _ _ below (least w old))
        fun same => same ▸ self v

variable {F : Type} [Field F] [LinearOrder F]

/-- `latencySet`: the running values are those of the samples. -/
structure LatencySet (F : Type) [Field F] [LinearOrder F] where
  samples : List F := []
  count : ℕ := 0
  sum : F := 0
  min : F := 0
  max : F := 0
  has : Bool := false
  counted : count = samples.length := by rfl
  summed : sum = samples.sum := by rfl
  started : has = !samples.isEmpty := by rfl
  least : has = true → min ∈ samples ∧ ∀ v ∈ samples, min ≤ v := by simp
  greatest : has = true → max ∈ samples ∧ ∀ v ∈ samples, v ≤ max := by simp

/-- `LatencySummary`. -/
structure LatencySummary (F : Type) [Zero F] where
  count : ℕ := 0
  min : F := 0
  avg : F := 0
  max : F := 0
  p50 : F := 0
  p95 : F := 0
  p99 : F := 0
deriving DecidableEq

/-- `percentile`, with exact arithmetic. -/
def percentile (sorted : List F) (p : ℚ) : F :=
  if sorted.length = 0 then 0
  else
    let idx := (p / 100 * sorted.length).ceil - 1
    let idx := if idx < 0 then 0 else idx
    let idx := if (sorted.length : ℤ) ≤ idx then (sorted.length : ℤ) - 1 else idx
    sorted.getD idx.toNat 0

namespace LatencySet

def add (s : LatencySet F) (v : F) : LatencySet F where
  samples := s.samples ++ [v]
  count := s.count + 1
  sum := s.sum + v
  min := if !s.has || v < s.min then v else s.min
  max := if !s.has || s.max < v then v else s.max
  has := true
  counted := by simp [s.counted]
  summed := by simp [s.summed]
  started := by simp
  least _ := by
    simpa [not_le] using extremum_append (· ≤ ·) v le_total (fun _ _ _ => le_trans) s.started s.least
  greatest _ := by
    simpa [not_le] using
      extremum_append (· ≥ ·) v (fun a b => le_total b a) (fun _ _ _ => ge_trans) s.started s.greatest

def summary (s : LatencySet F) : LatencySummary F :=
  if !s.has then {}
  else
    let sorted :=
      if 1 < s.samples.length ∧ ¬s.samples.Pairwise (· ≤ ·) then s.samples.insertionSort (· ≤ ·) else s.samples
    { count := s.count
      min := s.min
      avg := s.sum / s.count
      max := s.max
      p50 := percentile sorted 50
      p95 := percentile sorted 95
      p99 := percentile sorted 99 }

end LatencySet

structure ConnStats (F : Type) [Zero F] where
  published : ℕ := 0
  consumed : ℕ := 0
  delivered : ℕ := 0
  delLatSum : F := 0
  delLatCount : ℕ := 0

def ConnStats.deliver (cs : ConnStats F) (latUs : F) (dup : Bool) : ConnStats F :=
  { cs with
    delivered := cs.delivered + 1
    consumed := if dup then cs.consumed else cs.consumed + 1
    delLatSum := cs.delLatSum + latUs
    delLatCount := cs.delLatCount + 1 }

structure Stats (F : Type) [Field F] [LinearOrder F] where
  phaseFrom : ℕ := 0
  counter : Counter → ℕ := fun _ => 0
  latency : LatencyKey → LatencySet F := fun _ => {}
  perConn : List (ConnStats F) := []
  perPubCh : List ℕ := []

/-- How large the arrays are, and how many goroutines use them. -/
structure Plan where
  conns : ℕ
  pubChs : ℕ
  workers : ℕ

/-- The arrays of a topology. -/
def Topology.plan (t : Topology ChannelSlot) (workers : ℕ) : Plan := ⟨t.conns.length, t.publishCapable.length, workers⟩

def newStats (F : Type) [Field F] [LinearOrder F] (plan : Plan) : Stats F where
  perConn := List.replicate plan.conns {}
  perPubCh := List.replicate plan.pubChs 0

/-- One atomic operation, or one critical section of a latency set, a connection or a channel. -/
inductive Update (F : Type) where
  | add (counter : Counter)
  | clear (counter : Counter)
  | sample (key : LatencyKey) (value : F)
  | resetLatency (key : LatencyKey)
  | connPublish (conn : ℕ)
  | connDeliver (conn : ℕ) (latUs : F) (dup : Bool)
  | resetConn (conn : ℕ)
  | pubChPublish (idx : ℕ)
  | resetPubCh (idx : ℕ)

/-- A call of `recordPublish`, which does not use its latency, of `recordDeliver` or of `recordAck`. -/
inductive Record (F : Type) where
  | publish (slot : ChannelSlot) (seq : ℕ)
  | deliver (slot : ChannelSlot) (seq : ℕ) (latUs : F) (dup : Bool)
  | ack (seq : ℕ) (latUs : F)

/-- `intervalRecord` without the times, and the latencies that `delLat` summarises. -/
structure Window (F : Type) [Zero F] where
  published : ℕ := 0
  delivered : ℕ := 0
  consumed : ℕ := 0
  duplicates : ℕ := 0
  drops : ℕ := 0
  delLat : LatencySummary F := {}
  ackAvgUs : F := 0
  bothP95Us : F := 0
  consP95Us : F := 0
  delSamples : List F := []

/-- What `sampleWindow` reads, one after the other. -/
inductive Reading where
  | swap (counter : Counter)
  | snapshot (key : LatencyKey)
  | loadPublished
  | loadConsumed (pub : ℕ)
deriving DecidableEq, Repr

namespace Window

/-- The field of a row that a window counter goes to. -/
def setCounter (w : Window F) (v : ℕ) : Counter → Window F
  | .pubW => { w with published := v }
  | .delW => { w with delivered := v }
  | .consW => { w with consumed := v }
  | .dupW => { w with duplicates := v }
  | _ => w

/-- The field of a row that a window latency goes to. -/
def setLatency (w : Window F) (s : LatencySet F) : LatencyKey → Window F
  | .delLatWin => { w with delLat := s.summary, delSamples := s.samples }
  | .ackLatWin => if 0 < s.summary.count then { w with ackAvgUs := s.summary.avg } else w
  | .roleDelWin .both => { w with bothP95Us := s.summary.p95 }
  | .roleDelWin .cons => { w with consP95Us := s.summary.p95 }
  | _ => w

end Window

namespace Stats

/-- An index outside its array is a panic. -/
def apply (s : Stats F) : Update F → Option (Stats F)
  | .add c => some { s with counter := Function.update s.counter c (s.counter c + 1) }
  | .clear c => some { s with counter := Function.update s.counter c 0 }
  | .sample key v => some { s with latency := Function.update s.latency key ((s.latency key).add v) }
  | .resetLatency key => some { s with latency := Function.update s.latency key {} }
  | .connPublish i =>
    if i < s.perConn.length then
      some { s with perConn := s.perConn.modify i fun cs => { cs with published := cs.published + 1 } }
    else none
  | .connDeliver i latUs dup =>
    if i < s.perConn.length then some { s with perConn := s.perConn.modify i (·.deliver latUs dup) } else none
  | .resetConn i => if i < s.perConn.length then some { s with perConn := s.perConn.set i {} } else none
  | .pubChPublish i =>
    if i < s.perPubCh.length then some { s with perPubCh := s.perPubCh.modify i (· + 1) } else none
  | .resetPubCh i => if i < s.perPubCh.length then some { s with perPubCh := s.perPubCh.set i 0 } else none

/-- What an update does; the entry that it writes exists. -/
inductive Applies (s : Stats F) : Update F → Stats F → Prop
  | add (c : Counter) : Applies s (.add c) { s with counter := Function.update s.counter c (s.counter c + 1) }
  | clear (c : Counter) : Applies s (.clear c) { s with counter := Function.update s.counter c 0 }
  | sample (key : LatencyKey) (v : F) :
      Applies s (.sample key v) { s with latency := Function.update s.latency key ((s.latency key).add v) }
  | resetLatency (key : LatencyKey) :
      Applies s (.resetLatency key) { s with latency := Function.update s.latency key {} }
  | connPublish {i : ℕ} (bound : i < s.perConn.length) :
      Applies s (.connPublish i)
        { s with perConn := s.perConn.modify i fun cs => { cs with published := cs.published + 1 } }
  | connDeliver {i : ℕ} (latUs : F) (dup : Bool) (bound : i < s.perConn.length) :
      Applies s (.connDeliver i latUs dup) { s with perConn := s.perConn.modify i (·.deliver latUs dup) }
  | resetConn {i : ℕ} (bound : i < s.perConn.length) :
      Applies s (.resetConn i) { s with perConn := s.perConn.set i {} }
  | pubChPublish {i : ℕ} (bound : i < s.perPubCh.length) :
      Applies s (.pubChPublish i) { s with perPubCh := s.perPubCh.modify i (· + 1) }
  | resetPubCh {i : ℕ} (bound : i < s.perPubCh.length) :
      Applies s (.resetPubCh i) { s with perPubCh := s.perPubCh.set i 0 }

theorem applies_of_apply {s s' : Stats F} {u : Update F} (applied : s.apply u = some s') : s.Applies u s' := by
  cases u with
  | add c => cases applied; exact .add c
  | clear c => cases applied; exact .clear c
  | sample key v => cases applied; exact .sample key v
  | resetLatency key => cases applied; exact .resetLatency key
  | connPublish i =>
    obtain ⟨bound, same⟩ := Option.ite_none_right_eq_some.1 applied
    cases same
    exact .connPublish bound
  | connDeliver i latUs dup =>
    obtain ⟨bound, same⟩ := Option.ite_none_right_eq_some.1 applied
    cases same
    exact .connDeliver latUs dup bound
  | resetConn i =>
    obtain ⟨bound, same⟩ := Option.ite_none_right_eq_some.1 applied
    cases same
    exact .resetConn bound
  | pubChPublish i =>
    obtain ⟨bound, same⟩ := Option.ite_none_right_eq_some.1 applied
    cases same
    exact .pubChPublish bound
  | resetPubCh i =>
    obtain ⟨bound, same⟩ := Option.ite_none_right_eq_some.1 applied
    cases same
    exact .resetPubCh bound

/-- One reading of `sampleWindow`: the accumulators and the row after it, and what has to be read right after. -/
def read (s : Stats F) (w : Window F) : Reading → Stats F × Window F × List Reading
  | .swap c => ({ s with counter := Function.update s.counter c 0 }, w.setCounter (s.counter c) c, [])
  | .snapshot key => ({ s with latency := Function.update s.latency key {} }, w.setLatency (s.latency key) key, [])
  | .loadPublished => (s, w, [.loadConsumed (s.counter .published)])
  | .loadConsumed pub =>
    (s, if s.counter .consumed < pub then { w with drops := pub - s.counter .consumed } else w, [])

/-- `s.drops.Store(v)`. -/
def storeDrops (s : Stats F) (v : ℕ) : Stats F := { s with counter := Function.update s.counter .drops v }

/-- What `resetAll` does, in its order. -/
def resetAll (F : Type) (plan : Plan) : List (Update F) :=
  [Counter.published, .delivered, .consumed, .duplicates, .drops, .pubW, .delW, .consW, .dupW].map Update.clear ++
    [LatencyKey.delLatTot, .ackLatTot, .delLatWin, .ackLatWin].map Update.resetLatency ++
    roleKeys.flatMap (fun k => [.resetLatency (.roleDelTot k), .resetLatency (.roleDelWin k)]) ++
    (List.range plan.conns).map Update.resetConn ++ (List.range plan.pubChs).map Update.resetPubCh

end Stats

/-- What `sampleWindow` reads, in its order. -/
def sampleWindow : List Reading :=
  [.swap .pubW, .swap .delW, .swap .consW, .swap .dupW, .snapshot .delLatWin, .snapshot .ackLatWin,
    .snapshot (.roleDelWin .both), .snapshot (.roleDelWin .cons), .loadPublished]

namespace Record

omit [Field F] [LinearOrder F]

def seq : Record F → ℕ
  | publish _ seq => seq
  | deliver _ seq _ _ => seq
  | ack seq _ => seq

/-- The counters that include the warmup are incremented before `phaseMu` is taken. -/
def arrival : Record F → List (Update F)
  | publish .. => [.add .allPublished]
  | deliver _ _ _ dup => .add .allDelivered :: if dup then [] else [.add .allConsumed]
  | ack .. => [.add .allAcks]

/-- What a record call does for a message of the measured phase. -/
def body : Record F → List (Update F)
  | publish slot _ =>
    [.add .published, .add .pubW, .connPublish slot.conn] ++
      if 0 ≤ slot.publishCapIdx then [.pubChPublish slot.publishCapIdx.toNat] else []
  | deliver slot _ latUs dup =>
    [.add .delivered, .add .delW] ++
      (if dup then [.add .duplicates, .add .dupW] else [.add .consumed, .add .consW]) ++
      [.sample .delLatTot latUs, .sample .delLatWin latUs] ++
      (slot.role.key.toList.flatMap fun k => [.sample (.roleDelTot k) latUs, .sample (.roleDelWin k) latUs]) ++
      [.connDeliver slot.conn latUs dup]
  | ack _ latUs => [.sample .ackLatTot latUs, .sample .ackLatWin latUs]

end Record

/-- What a goroutine has to run until its call returns. `check` is the test that separates the warmup, and
`sampling` carries the row filled so far and what is still to be read. -/
inductive Op (F : Type) [Zero F] where
  | update (update : Update F)
  | rlock
  | check (record : Record F)
  | runlock
  | lock
  | cut
  | unlock
  | sampling (row : Window F) (left : List Reading)

/-- The calls that use `stats` and `seqGen`, with the record calls made so far, those of them that have been counted
since the last boundary, what `beginMeasured` has returned last, and the rows that `sampleWindow` has returned. -/
structure Recorder (F : Type) [Field F] [LinearOrder F] where
  stats : Stats F
  seqGen : ℕ := 0
  readers : Finset ℕ := ∅
  writer : Option ℕ := none
  todo : ℕ → List (Op F) := fun _ => []
  records : List (Record F) := []
  measured : List (Record F) := []
  cutoff : Option ℕ := none
  windows : List (Window F) := []

def Record.ops (record : Record F) : List (Op F) := record.arrival.map .update ++ [.rlock, .check record]

def beginMeasured (F : Type) [Zero F] (plan : Plan) : List (Op F) :=
  [.lock, .cut] ++ (Stats.resetAll F plan).map .update ++ [.unlock]

namespace Recorder

/-- What goroutine `i` does next, and what that leads to. -/
def perform (r : Recorder F) (i : ℕ) : Op F → Option (Recorder F × List (Op F))
  | .update u => (r.stats.apply u).map fun stats => ({ r with stats }, [])
  | .rlock => if r.writer = none then some ({ r with readers := insert i r.readers }, []) else none
  | .check record =>
    if record.seq ≤ r.stats.phaseFrom then some (r, [.runlock])
    else some ({ r with measured := r.measured ++ [record] }, record.body.map .update ++ [.runlock])
  | .runlock => some ({ r with readers := r.readers.erase i }, [])
  | .lock => if r.writer = none ∧ r.readers = ∅ then some ({ r with writer := some i }, []) else none
  | .cut => some ({ r with stats := { r.stats with phaseFrom := r.seqGen }, measured := [] }, [])
  | .unlock => some ({ r with writer := none, cutoff := some r.stats.phaseFrom }, [])
  | .sampling row (reading :: left) =>
    let (stats, row, next) := r.stats.read row reading
    some ({ r with stats }, [.sampling row (next ++ left)])
  | .sampling row [] => some ({ r with windows := r.windows ++ [row] }, [])

/-- A sequence number is handed out; the losses are stored; a goroutine calls a record function, `beginMeasured` or
`sampleWindow`; or the call of a goroutine goes on. -/
inductive Label (F : Type) where
  | allocate
  | storeDrops (v : ℕ)
  | record (i : ℕ) (record : Record F)
  | begin (i : ℕ)
  | sample (i : ℕ)
  | run (i : ℕ)

/-- Goroutine `i` calls a function that runs `ops`. -/
def call (plan : Plan) (r : Recorder F) (i : ℕ) (ops : List (Op F)) : Option (Recorder F) :=
  if i < plan.workers ∧ (r.todo i).isEmpty then some { r with todo := Function.update r.todo i ops } else none

def step? (plan : Plan) (r : Recorder F) : Label F → Option (Recorder F)
  | .allocate => some { r with seqGen := r.seqGen + 1 }
  | .storeDrops v => some { r with stats := r.stats.storeDrops v }
  | .record i record => (r.call plan i record.ops).map fun r' => { r' with records := r.records ++ [record] }
  | .begin i => r.call plan i (beginMeasured F plan)
  | .sample i => r.call plan i [.sampling {} sampleWindow]
  | .run i =>
    match r.todo i with
    | [] => none
    | op :: rest => (r.perform i op).map fun (r', next) => { r' with todo := Function.update r'.todo i (next ++ rest) }

end Recorder

/-- The goroutines of a plan and their calls. -/
def recorder (F : Type) [Field F] [LinearOrder F] (plan : Plan) : Machine (Recorder F) (Recorder.Label F) where
  init := { stats := newStats F plan }
  step? := Recorder.step? plan

end GolangMQ.Bench
