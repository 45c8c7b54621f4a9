import GolangMQ.Bench.Header
import GolangMQ.Bench.Stats

/-! # The run of a benchmark

`Run` starts a goroutine for every publisher and every consumer of the plan and one that samples, and goes itself
through warmup, measured phase, drain and shutdown. Everything they share is here: the recorder, the two arrays over
the message budget, the channels that stop publishers and sampler, and the context. What the client library does is
left to the schedule: a publish or an acknowledgement may succeed or fail, a delivery may carry any body, and the
deliveries of a consumer may end at any time. So are the clock, the timers and the destination of the rows.

Setting up the fixture and opening the channels precede the states shown here. A panic ends the process: a goroutine
that would panic has no step.
-/

namespace GolangMQ.Bench

/-- A configuration and the plan that was built for it. -/
structure Job where
  cfg : Config
  topology : Topology ChannelSlot

namespace Job

/-- The channels of the publishers that `Run` starts, in its order. -/
def publishers (job : Job) : List ChannelSlot :=
  job.topology.publishCapable.flatMap fun sl => sl.pubGoroutines.map fun _ => sl

/-- The channels of the consumers that `Run` starts, in its order. -/
def consumers (job : Job) : List ChannelSlot :=
  job.topology.consumeCapable.flatMap fun sl => sl.consGoroutines.map fun _ => sl

/-- The message budget; the allocation of the arrays panics when it is negative. -/
def total (job : Job) : ℕ := (job.cfg.publishers * job.cfg.msgs).toNatClampNeg

/-- There is something to drain when this counter is not zero. -/
def needDrain (job : Job) : Counter := if job.cfg.ack then .allPublished else .published

/-- The goroutines of the recorder: publishers, consumers, `Run` itself and the sampler. -/
def consumerId (job : Job) (c : ℕ) : ℕ := job.publishers.length + c

def mainId (job : Job) : ℕ := job.publishers.length + job.consumers.length

def samplerId (job : Job) : ℕ := job.publishers.length + job.consumers.length + 1

def plan (job : Job) : Plan := job.topology.plan (job.publishers.length + job.consumers.length + 2)

end Job

/-- What `publishWorker.run` can fail with. -/
inductive PublishError where
  | budget (seq : UInt64) (len : ℕ)
  | publish
deriving DecidableEq, Repr

/-- Where a publisher stands: at the head of its loop, past the select, past the budget, inside `Publish`. -/
inductive PublishPlace where
  | looping (i : ℕ)
  | allocating (i : ℕ)
  | stamping (i : ℕ) (seq : UInt64)
  | publishing (i : ℕ) (seq : UInt64)
  | returned (err : Option PublishError)
deriving DecidableEq, Repr

/-- A publisher and the buffer it fills again for every message. -/
structure PublishWorker where
  body : List UInt8
  place : PublishPlace := .looping 0
deriving DecidableEq, Repr

/-- Where a consumer stands: waiting for a delivery, with a delivery, with its index and latency, inside `Ack`. -/
inductive ConsumePlace (F : Type) where
  | waiting
  | received (body : List UInt8)
  | located (seq : UInt64) (idx : Int64) (delLatUs : F)
  | acking (seq : UInt64)
  | returned (failed : Bool)
deriving DecidableEq, Repr

/-- What `totals` returns for the summary. -/
structure Totals where
  published : ℕ
  delivered : ℕ
  consumed : ℕ
  duplicates : ℕ
  drops : ℕ
deriving DecidableEq, Repr

/-- Where `Run` stands. `drained` evaluates `drained`, in the loop or after it, with the counters loaded so far;
`dropping` has loaded some of `published` and `consumed`. A run that failed its warmup aborts. -/
inductive Main where
  | warming
  | beginning
  | measuring
  | stopping
  | draining
  | drained (looping : Bool) (loads : List ℕ)
  | pausing
  | dropping (loads : List ℕ)
  | shutdown (abort : Bool)
  | closing (abort : Bool)
  | joining (abort : Bool)
  | finishing
  | returned (totals : Option Totals)
deriving DecidableEq, Repr

inductive Sampler where
  | off
  | ticking
  | writing (final : Bool)
  | done
deriving DecidableEq, Repr

/-- The shared state of a run, with the sequence numbers handed out, the entries of `sentTimes` written, the bodies
passed to `Publish`, the bodies delivered, and whether `drained` has returned true. -/
structure Engine (F : Type) [Field F] [LinearOrder F] where
  recorder : Recorder F
  publisher : ℕ → PublishWorker
  consumer : ℕ → ConsumePlace F := fun _ => .waiting
  main : Main
  sampler : Sampler
  stopPub : Bool := false
  ctxDone : Bool := false
  stopSampler : Bool := false
  csvErr : Bool := false
  sentTimes : List Int64
  seen : List Bool
  rows : List (Window F) := []
  handed : List (ℕ × UInt64) := []
  stored : List (ℕ × ℕ) := []
  sent : List (List UInt8) := []
  received : List (List UInt8) := []
  drained : Bool := false

/-- `seq == 0 || int(seq)-1 >= len(w.sentTimes)`. -/
def exceedsBudget (seq : UInt64) (len : ℕ) : Bool := seq = 0 ∨ Int64.ofNat len ≤ seq.toInt64 - 1

/-- The counter that `drained` loads next, or its result. -/
def drained : (ack : Bool) → (loads : List ℕ) → Counter ⊕ Bool
  | true, [] => .inl .allConsumed
  | true, [_] => .inl .allPublished
  | true, [consumed, published] => if published ≤ consumed then .inl .allAcks else .inr false
  | true, [_, _, _] => .inl .allDelivered
  | true, _ :: _ :: acks :: delivered :: _ => .inr (delivered ≤ acks)
  | false, [] => .inl .consumed
  | false, [_] => .inl .published
  | false, consumed :: published :: _ => .inr (published ≤ consumed)

/-- `seen[idx].Swap(true)` for an index of the array: the array after it, and the value before. -/
def swapSeen (seen : List Bool) (idx : Int64) : List Bool × Bool :=
  if 0 ≤ idx ∧ idx < Int64.ofNat seen.length then
    (seen.set idx.toNatClampNeg true, seen.getD idx.toNatClampNeg false)
  else (seen, false)

/-- The index and the latency of a delivery. A negative index is a panic. -/
def locate (F : Type) [Field F] (sentTimes : List Int64) (seq : UInt64) (recvNanos : Int64) : Option (Int64 × F) :=
  if 0 < seq ∧ seq.toInt64 - 1 < Int64.ofNat sentTimes.length then
    let idx := seq.toInt64 - 1
    if idx < 0 then none
    else sentTimes[idx.toNatClampNeg]?.map fun st => (idx, if 0 < st then ((recvNanos - st).toInt : F) / 1000 else 0)
  else some (-1, 0)

/-- The index of any sequence number, in the signed arithmetic of the workers. -/
theorem toInt_index (seq : UInt64) :
    (seq.toInt64 - 1).toInt = if seq.toNat ≤ 2 ^ 63 ∧ 0 < seq.toNat then (seq.toNat : ℤ) - 1
      else if seq.toNat = 0 then -1 else (seq.toNat : ℤ) - 1 - 2 ^ 64 := by
  have bound := seq.toNat_lt
  have read : seq.toInt64.toInt = (seq.toNat : ℤ).bmod (2 ^ 64) := by
    rw [Int64.toInt, BitVec.toInt_eq_toNat_bmod]
    rfl
  rw [Int64.toInt_sub, read, Int64.toInt_one, Int.bmod_def, Int.bmod_def]
  split <;> split <;> split_ifs <;> omega

/-- The index of a sequence number that fits. -/
private theorem toInt_sub_one {seq : UInt64} (positive : 1 ≤ seq.toNat) (small : seq.toNat < 2 ^ 63) :
    (seq.toInt64 - 1).toInt = (seq.toNat : ℤ) - 1 := by
  rw [toInt_index, if_pos ⟨small.le, positive⟩]

private theorem toNatClampNeg_sub_one {seq : UInt64} (positive : 1 ≤ seq.toNat) (small : seq.toNat < 2 ^ 63) :
    (seq.toInt64 - 1).toNatClampNeg = seq.toNat - 1 := by
  rw [Int64.toNatClampNeg, toInt_sub_one positive small]
  omega

theorem exceedsBudget_eq {seq : UInt64} {len : ℕ} (positive : 1 ≤ seq.toNat) (small : seq.toNat < 2 ^ 63)
    (size : len < 2 ^ 63) : exceedsBudget seq len = decide (len < seq.toNat) := by
  have nonzero : seq ≠ 0 := fun zero => by
    rw [zero] at positive
    contradiction
  rw [exceedsBudget, decide_eq_decide, or_iff_right nonzero, Int64.le_iff_toInt_le, toInt_sub_one positive small,
    Int64.toInt_ofNat_of_lt size]
  omega

theorem swapSeen_eq {seen : List Bool} {seq : UInt64} (positive : 1 ≤ seq.toNat) (inside : seq.toNat ≤ seen.length)
    (size : seen.length < 2 ^ 63) :
    swapSeen seen (seq.toInt64 - 1) = (seen.set (seq.toNat - 1) true, seen.getD (seq.toNat - 1) false) := by
  have small : seq.toNat < 2 ^ 63 := inside.trans_lt size
  rw [swapSeen, if_pos, toNatClampNeg_sub_one positive small]
  rw [Int64.le_iff_toInt_le, Int64.lt_iff_toInt_lt, toInt_sub_one positive small, Int64.toInt_ofNat_of_lt size,
    Int64.toInt_zero]
  omega

theorem locate_eq {F : Type} [Field F] {sentTimes : List Int64} {seq : UInt64} {recvNanos idx : Int64} {delLatUs : F}
    (positive : 1 ≤ seq.toNat) (inside : seq.toNat ≤ sentTimes.length) (size : sentTimes.length < 2 ^ 63)
    (found : locate F sentTimes seq recvNanos = some (idx, delLatUs)) : idx = seq.toInt64 - 1 := by
  have small : seq.toNat < 2 ^ 63 := inside.trans_lt size
  have covered : 0 < seq ∧ seq.toInt64 - 1 < Int64.ofNat sentTimes.length := by
    rw [UInt64.lt_iff_toNat_lt, Int64.lt_iff_toInt_lt, toInt_sub_one positive small, Int64.toInt_ofNat_of_lt size,
      UInt64.toNat_zero]
    omega
  rw [locate, if_pos covered] at found
  dsimp only at found
  split at found
  · contradiction
  · obtain ⟨st, -, same⟩ := Option.map_eq_some_iff.1 found
    cases same
    rfl

namespace Engine

inductive PublishLabel where
  | select
  | allocate
  | stamp (sendNanos : Int64)
  | publish
  | fail

inductive ConsumeLabel where
  | receive (body : List UInt8)
  | finish
  | locate (recvNanos : Int64)
  | deliver
  | ack (nanos : Int64)
  | fail

/-- The branch of a select, a deadline that has passed, or whether the writer closes without an error. -/
inductive MainLabel where
  | ctxDone
  | pubDone
  | elapsed
  | next
  | closed (ok : Bool)

inductive SampleLabel where
  | tick
  | stop
  | write (ok : Bool)

/-- Who acts; `run` goes on with the call that a goroutine has in progress. -/
inductive Label where
  | publisher (p : ℕ) (label : PublishLabel)
  | consumer (c : ℕ) (label : ConsumeLabel)
  | main (label : MainLabel)
  | sampler (label : SampleLabel)
  | run (i : ℕ)
  | cancel

variable {F : Type} [Field F] [LinearOrder F]

/-- Publisher `p` goes to a place. -/
def publisherTo (e : Engine F) (p : ℕ) (place : PublishPlace) : Engine F :=
  { e with publisher := Function.update e.publisher p { e.publisher p with place } }

/-- Consumer `c` goes to a place. -/
def consumerTo (e : Engine F) (c : ℕ) (place : ConsumePlace F) : Engine F :=
  { e with consumer := Function.update e.consumer c place }

/-- Every publisher has returned. -/
def PubsReturned (job : Job) (e : Engine F) : Prop :=
  ∀ p < job.publishers.length, ∃ err, (e.publisher p).place = .returned err

/-- Every consumer has returned. -/
def ConsReturned (job : Job) (e : Engine F) : Prop :=
  ∀ c < job.consumers.length, ∃ failed, e.consumer c = .returned failed

/-- A worker has put an error into `errCh`. -/
def WorkerFailed (job : Job) (e : Engine F) : Prop :=
  (∃ p < job.publishers.length, ∃ err, (e.publisher p).place = .returned (some err)) ∨
    ∃ c < job.consumers.length, e.consumer c = .returned true

end Engine

/-- Whether a place is the end of a worker. -/
def PublishPlace.isReturned : PublishPlace → Bool
  | returned _ => true
  | _ => false

theorem PublishPlace.isReturned_iff {place : PublishPlace} :
    place.isReturned = true ↔ ∃ err, place = .returned err := by
  cases place <;> simp [isReturned]

def PublishPlace.hasFailed : PublishPlace → Bool
  | returned (some _) => true
  | _ => false

theorem PublishPlace.hasFailed_iff {place : PublishPlace} :
    place.hasFailed = true ↔ ∃ err, place = .returned (some err) := by
  cases place with
  | returned err => cases err <;> simp [hasFailed]
  | _ => simp [hasFailed]

def ConsumePlace.isReturned {F : Type} : ConsumePlace F → Bool
  | returned _ => true
  | _ => false

theorem ConsumePlace.isReturned_iff {F : Type} {place : ConsumePlace F} :
    place.isReturned = true ↔ ∃ failed, place = .returned failed := by
  cases place <;> simp [isReturned]

def ConsumePlace.hasFailed {F : Type} : ConsumePlace F → Bool
  | returned failed => failed
  | _ => false

private theorem ConsumePlace.hasFailed_iff {F : Type} {place : ConsumePlace F} :
    place.hasFailed = true ↔ place = .returned true := by
  cases place <;> simp [hasFailed]

namespace Engine

variable {F : Type} [Field F] [LinearOrder F]

instance (job : Job) (e : Engine F) : Decidable (e.PubsReturned job) :=
  decidable_of_iff (∀ p < job.publishers.length, (e.publisher p).place.isReturned = true)
    (forall₂_congr fun _ _ => PublishPlace.isReturned_iff)

instance (job : Job) (e : Engine F) : Decidable (e.ConsReturned job) :=
  decidable_of_iff (∀ c < job.consumers.length, (e.consumer c).isReturned = true)
    (forall₂_congr fun _ _ => ConsumePlace.isReturned_iff)

instance (job : Job) (e : Engine F) : Decidable (e.WorkerFailed job) :=
  decidable_of_iff ((∃ p < job.publishers.length, (e.publisher p).place.hasFailed = true) ∨
      ∃ c < job.consumers.length, (e.consumer c).hasFailed = true)
    (or_congr (exists_congr fun _ => and_congr_right fun _ => PublishPlace.hasFailed_iff)
      (exists_congr fun _ => and_congr_right fun _ => ConsumePlace.hasFailed_iff))

/-- `publishWorker.run`. -/
def publisherStep? (job : Job) (e : Engine F) (p : ℕ) (slot : ChannelSlot) : PublishLabel → Option (Engine F)
  | .select =>
    match (e.publisher p).place with
    | .looping i =>
      if job.cfg.msgs.toInt ≤ i ∨ e.stopPub then some (e.publisherTo p (.returned none))
      else some (e.publisherTo p (.allocating i))
    | _ => none
  | .allocate =>
    match (e.publisher p).place with
    | .allocating i =>
      let seq := UInt64.ofNat (e.recorder.seqGen + 1)
      let len := e.sentTimes.length
      (e.recorder.step? job.plan .allocate).map fun recorder =>
        { e.publisherTo p (if exceedsBudget seq len then .returned (some (.budget seq len)) else .stamping i seq) with
          recorder
          handed := e.handed ++ [(p, seq)] }
    | _ => none
  | .stamp sendNanos =>
    match (e.publisher p).place with
    | .stamping i seq =>
      let idx := (seq - 1).toNat
      if idx < e.sentTimes.length then
        (encodeHeader (e.publisher p).body seq sendNanos).map fun body =>
          { e with
            publisher := Function.update e.publisher p ⟨body, .publishing i seq⟩
            sentTimes := e.sentTimes.set idx sendNanos
            stored := e.stored ++ [(p, idx)]
            sent := e.sent ++ [body] }
      else none
    | _ => none
  | .publish =>
    match (e.publisher p).place with
    | .publishing i seq =>
      (e.recorder.step? job.plan (.record p (.publish slot seq.toNat))).map fun recorder =>
        { e.publisherTo p (.looping (i + 1)) with recorder }
    | _ => none
  | .fail =>
    match (e.publisher p).place with
    | .publishing _ _ => some (e.publisherTo p (.returned (some .publish)))
    | _ => none

/-- `consumeWorker.run`. -/
def consumerStep? (job : Job) (e : Engine F) (c : ℕ) (slot : ChannelSlot) : ConsumeLabel → Option (Engine F)
  | .receive body =>
    match e.consumer c with
    | .waiting => some { e.consumerTo c (.received body) with received := e.received ++ [body] }
    | _ => none
  | .finish =>
    match e.consumer c with
    | .waiting => some (e.consumerTo c (.returned false))
    | _ => none
  | .locate recvNanos =>
    match e.consumer c with
    | .received body =>
      let (seq, _) := decodeHeader body
      (Bench.locate F e.sentTimes seq recvNanos).map fun (idx, delLatUs) => e.consumerTo c (.located seq idx delLatUs)
    | _ => none
  | .deliver =>
    match e.consumer c with
    | .located seq idx delLatUs =>
      let (seen, dup) := swapSeen e.seen idx
      (e.recorder.step? job.plan (.record (job.consumerId c) (.deliver slot seq.toNat delLatUs dup))).map
        fun recorder =>
        { e.consumerTo c (if job.cfg.ack then .acking seq else .waiting) with recorder, seen }
    | _ => none
  | .ack nanos =>
    match e.consumer c with
    | .acking seq =>
      (e.recorder.step? job.plan (.record (job.consumerId c) (.ack seq.toNat ((nanos.toInt : F) / 1000)))).map
        fun recorder => { e.consumerTo c .waiting with recorder }
    | _ => none
  | .fail =>
    match e.consumer c with
    | .acking _ => some (e.consumerTo c (.returned true))
    | _ => none

/-- `buildSummary`, as far as the counters. -/
def totals (e : Engine F) : Totals where
  published := e.recorder.stats.counter .published
  delivered := e.recorder.stats.counter .delivered
  consumed := e.recorder.stats.counter .consumed
  duplicates := e.recorder.stats.counter .duplicates
  drops := e.recorder.stats.counter .drops

/-- `Run`, from the start of the warmup. -/
def mainStep? (job : Job) (e : Engine F) (label : MainLabel) : Option (Engine F) :=
  match e.main, label with
  | .warming, .ctxDone => if e.ctxDone then some { e with main := .shutdown true } else none
  | .warming, .pubDone => if e.PubsReturned job then some { e with main := .shutdown true } else none
  | .warming, .elapsed =>
    (e.recorder.step? job.plan (.begin job.mainId)).map fun recorder => { e with recorder, main := .beginning }
  | .beginning, .next =>
    e.recorder.cutoff.map fun cutoff =>
      if job.total ≤ cutoff then { e with main := .shutdown true }
      else { e with main := .measuring, sampler := .ticking }
  | .measuring, .ctxDone => if e.ctxDone then some { e with main := .stopping, stopPub := true } else none
  | .measuring, .elapsed => if 0 < job.cfg.duration then some { e with main := .stopping, stopPub := true } else none
  | .measuring, .pubDone | .stopping, .pubDone => if e.PubsReturned job then some { e with main := .draining } else none
  | .draining, .next =>
    if e.ctxDone then some { e with main := .shutdown false }
    else if 0 < job.cfg.consumers ∧ 0 < e.recorder.stats.counter job.needDrain then
      some { e with main := .drained true [] }
    else some { e with main := .dropping [] }
  | .drained looping loads, .next =>
    match Bench.drained job.cfg.ack loads with
    | .inl counter => some { e with main := .drained looping (loads ++ [e.recorder.stats.counter counter]) }
    | .inr result =>
      some { e with
        main := if !looping then .dropping [] else if result then .drained false [] else .pausing
        drained := e.drained || result }
  | .drained true loads, .elapsed =>
    match Bench.drained job.cfg.ack loads with
    | .inr false => some { e with main := .drained false [] }
    | _ => none
  | .pausing, .ctxDone => if e.ctxDone then some { e with main := .shutdown false } else none
  | .pausing, .elapsed => some { e with main := .drained true [] }
  | .dropping [], .next => some { e with main := .dropping [e.recorder.stats.counter .published] }
  | .dropping [pub], .next => some { e with main := .dropping [pub, e.recorder.stats.counter .consumed] }
  | .dropping (pub :: con :: _), .next =>
    if con < pub then
      (e.recorder.step? job.plan (.storeDrops (pub - con))).map fun recorder =>
        { e with recorder, main := .shutdown false }
    else some { e with main := .shutdown false }
  | .shutdown abort, .next => some { e with main := .closing abort, stopPub := true }
  | .closing abort, .next => if e.PubsReturned job then some { e with main := .joining abort } else none
  | .joining abort, .next =>
    if e.ConsReturned job then
      if abort then some { e with main := .returned none }
      else some { e with main := .finishing, stopSampler := true }
    else none
  | .finishing, .closed ok =>
    if e.sampler = .done then
      if e.ctxDone ∨ e.WorkerFailed job ∨ e.csvErr ∨ !ok then some { e with main := .returned none }
      else some { e with main := .returned (some e.totals) }
    else none
  | _, _ => none

/-- The sampling goroutine. The writer of the rows keeps its first error. -/
def samplerStep? (job : Job) (e : Engine F) (label : SampleLabel) : Option (Engine F) :=
  match e.sampler, label with
  | .ticking, .tick =>
    (e.recorder.step? job.plan (.sample job.samplerId)).map fun recorder =>
      { e with recorder, sampler := .writing false }
  | .ticking, .stop =>
    if e.stopSampler then
      (e.recorder.step? job.plan (.sample job.samplerId)).map fun recorder =>
        { e with recorder, sampler := .writing true }
    else none
  | .writing final, .write ok =>
    if ok ∧ !e.csvErr then
      e.recorder.windows.getLast?.map fun row =>
        { e with rows := e.rows ++ [row], sampler := if final then .done else .ticking }
    else some { e with csvErr := true, sampler := .done }
  | _, _ => none

/-- A goroutine without a call in progress may act. -/
def step? (job : Job) (e : Engine F) : Label → Option (Engine F)
  | .publisher p label =>
    if (e.recorder.todo p).isEmpty then job.publishers[p]?.bind fun slot => e.publisherStep? job p slot label else none
  | .consumer c label =>
    if (e.recorder.todo (job.consumerId c)).isEmpty then
      job.consumers[c]?.bind fun slot => e.consumerStep? job c slot label
    else none
  | .main label => if (e.recorder.todo job.mainId).isEmpty then e.mainStep? job label else none
  | .sampler label => if (e.recorder.todo job.samplerId).isEmpty then e.samplerStep? job label else none
  | .run i => (e.recorder.step? job.plan (.run i)).map fun recorder => { e with recorder }
  | .cancel => some { e with ctxDone := true }

end Engine

/-- The run of a job, from the start of its workers. -/
def engine (F : Type) [Field F] [LinearOrder F] (job : Job) : Machine (Engine F) Engine.Label where
  init :=
    { recorder := (recorder F job.plan).init
      publisher := fun _ => { body := List.replicate job.cfg.size.toNatClampNeg 0 }
      main := if 0 < job.cfg.warmup ∧ 0 < job.total then .warming else .measuring
      sampler := if 0 < job.cfg.warmup ∧ 0 < job.total then .off else .ticking
      sentTimes := List.replicate job.total 0
      seen := List.replicate job.total false }
  step? := Engine.step? job

end GolangMQ.Bench
