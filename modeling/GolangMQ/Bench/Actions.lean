import GolangMQ.Bench.Engine
import GolangMQ.Bench.Phases

/-! # What a goroutine of the engine can do

One relation for each kind of goroutine lists its steps, with what holds before them and what they change.
-/

namespace GolangMQ.Bench

open Machine

variable {F : Type} [Field F] [LinearOrder F] {job : Job} {e e' : Engine F}

/-- The steps of publisher `p`. -/
inductive Publishes (job : Job) (e : Engine F) (p : ℕ) (slot : ChannelSlot) : Engine.PublishLabel → Engine F → Prop
  | finish {i : ℕ} (place : (e.publisher p).place = .looping i) :
      Publishes job e p slot .select (e.publisherTo p (.returned none))
  | select {i : ℕ} (place : (e.publisher p).place = .looping i) (more : (i : ℤ) < job.cfg.msgs.toInt) :
      Publishes job e p slot .select (e.publisherTo p (.allocating i))
  | refuse {i : ℕ} (place : (e.publisher p).place = .allocating i)
      (exceeded : exceedsBudget (UInt64.ofNat (e.recorder.seqGen + 1)) e.sentTimes.length = true) :
      Publishes job e p slot .allocate
        { e.publisherTo p (.returned (some (.budget (UInt64.ofNat (e.recorder.seqGen + 1)) e.sentTimes.length))) with
          recorder := { e.recorder with seqGen := e.recorder.seqGen + 1 }
          handed := e.handed ++ [(p, UInt64.ofNat (e.recorder.seqGen + 1))] }
  | allocate {i : ℕ} (place : (e.publisher p).place = .allocating i)
      (within : exceedsBudget (UInt64.ofNat (e.recorder.seqGen + 1)) e.sentTimes.length = false) :
      Publishes job e p slot .allocate
        { e.publisherTo p (.stamping i (UInt64.ofNat (e.recorder.seqGen + 1))) with
          recorder := { e.recorder with seqGen := e.recorder.seqGen + 1 }
          handed := e.handed ++ [(p, UInt64.ofNat (e.recorder.seqGen + 1))] }
  | stamp {i : ℕ} {seq : UInt64} {sendNanos : Int64} {body : List UInt8}
      (place : (e.publisher p).place = .stamping i seq) (inside : (seq - 1).toNat < e.sentTimes.length)
      (encoded : encodeHeader (e.publisher p).body seq sendNanos = some body) :
      Publishes job e p slot (.stamp sendNanos)
        { e with
          publisher := Function.update e.publisher p ⟨body, .publishing i seq⟩
          sentTimes := e.sentTimes.set (seq - 1).toNat sendNanos
          stored := e.stored ++ [(p, (seq - 1).toNat)]
          sent := e.sent ++ [body] }
  | publish {i : ℕ} {seq : UInt64} {recorder : Recorder F} (place : (e.publisher p).place = .publishing i seq)
      (recorded : e.recorder.step? job.plan (.record p (.publish slot seq.toNat)) = some recorder) :
      Publishes job e p slot .publish { e.publisherTo p (.looping (i + 1)) with recorder }
  | fail {i : ℕ} {seq : UInt64} (place : (e.publisher p).place = .publishing i seq) :
      Publishes job e p slot .fail (e.publisherTo p (.returned (some .publish)))

/-- The steps of consumer `c`. -/
inductive Consumes (job : Job) (e : Engine F) (c : ℕ) (slot : ChannelSlot) : Engine.ConsumeLabel → Engine F → Prop
  | receive {body : List UInt8} (place : e.consumer c = .waiting) :
      Consumes job e c slot (.receive body)
        { e.consumerTo c (.received body) with received := e.received ++ [body] }
  | finish (place : e.consumer c = .waiting) : Consumes job e c slot .finish (e.consumerTo c (.returned false))
  | locate {body : List UInt8} {recvNanos : Int64} {idx : Int64} {delLatUs : F} (place : e.consumer c = .received body)
      (found : locate F e.sentTimes (decodeHeader body).1 recvNanos = some (idx, delLatUs)) :
      Consumes job e c slot (.locate recvNanos) (e.consumerTo c (.located (decodeHeader body).1 idx delLatUs))
  | deliver {seq : UInt64} {idx : Int64} {delLatUs : F} {recorder : Recorder F}
      (place : e.consumer c = .located seq idx delLatUs)
      (recorded : e.recorder.step? job.plan
        (.record (job.consumerId c) (.deliver slot seq.toNat delLatUs (swapSeen e.seen idx).2)) = some recorder) :
      Consumes job e c slot .deliver
        { e.consumerTo c (if job.cfg.ack then .acking seq else .waiting) with
          recorder
          seen := (swapSeen e.seen idx).1 }
  | ack {seq : UInt64} {nanos : Int64} {recorder : Recorder F} (place : e.consumer c = .acking seq)
      (recorded : e.recorder.step? job.plan
        (.record (job.consumerId c) (.ack seq.toNat ((nanos.toInt : F) / 1000))) = some recorder) :
      Consumes job e c slot (.ack nanos) { e.consumerTo c .waiting with recorder }
  | fail {seq : UInt64} (place : e.consumer c = .acking seq) :
      Consumes job e c slot .fail (e.consumerTo c (.returned true))

/-- The steps of `Run`. -/
inductive Directs (job : Job) (e : Engine F) : Engine F → Prop
  | abort (place : e.main = .warming) : Directs job e { e with main := .shutdown true }
  | begin {recorder : Recorder F} (place : e.main = .warming)
      (begun : e.recorder.step? job.plan (.begin job.mainId) = some recorder) :
      Directs job e { e with recorder, main := .beginning }
  | exceeded (place : e.main = .beginning) : Directs job e { e with main := .shutdown true }
  | measure {cutoff : ℕ} (place : e.main = .beginning) (returned : e.recorder.cutoff = some cutoff) :
      Directs job e { e with main := .measuring, sampler := .ticking }
  | stop (place : e.main = .measuring) : Directs job e { e with main := .stopping, stopPub := true }
  | published (place : e.main = .measuring ∨ e.main = .stopping) (returned : e.PubsReturned job) :
      Directs job e { e with main := .draining }
  | interrupt (place : e.main = .draining ∨ e.main = .pausing) (done : e.ctxDone = true) :
      Directs job e { e with main := .shutdown false }
  | drain (place : e.main = .draining) : Directs job e { e with main := .drained true [] }
  | skip (place : e.main = .draining) : Directs job e { e with main := .dropping [] }
  | load {looping : Bool} {loads : List ℕ} {counter : Counter} (place : e.main = .drained looping loads)
      (next : drained job.cfg.ack loads = .inl counter) :
      Directs job e { e with main := .drained looping (loads ++ [e.recorder.stats.counter counter]) }
  | drained {looping : Bool} {loads : List ℕ} (place : e.main = .drained looping loads)
      (result : drained job.cfg.ack loads = .inr true) :
      Directs job e { e with main := if looping then .drained false [] else .dropping [], drained := true }
  | undrained {looping : Bool} {loads : List ℕ} {next : Main} (place : e.main = .drained looping loads)
      (result : drained job.cfg.ack loads = .inr false)
      (goes : next = .dropping [] ∨ next = .drained false [] ∨ next = .pausing) :
      Directs job e { e with main := next }
  | again (place : e.main = .pausing) : Directs job e { e with main := .drained true [] }
  | loadPublished (place : e.main = .dropping []) :
      Directs job e { e with main := .dropping [e.recorder.stats.counter .published] }
  | loadConsumed {pub : ℕ} (place : e.main = .dropping [pub]) :
      Directs job e { e with main := .dropping [pub, e.recorder.stats.counter .consumed] }
  | storeDrops {pub con : ℕ} {rest : List ℕ} (place : e.main = .dropping (pub :: con :: rest)) (lost : con < pub) :
      Directs job e
        { e with
          recorder := { e.recorder with stats := e.recorder.stats.storeDrops (pub - con) }
          main := .shutdown false }
  | noDrops {pub con : ℕ} {rest : List ℕ} (place : e.main = .dropping (pub :: con :: rest)) (all : pub ≤ con) :
      Directs job e { e with main := .shutdown false }
  | shutdown {abort : Bool} (place : e.main = .shutdown abort) :
      Directs job e { e with main := .closing abort, stopPub := true }
  | close {abort : Bool} (place : e.main = .closing abort) (returned : e.PubsReturned job) :
      Directs job e { e with main := .joining abort }
  | join (place : e.main = .joining false) (returned : e.ConsReturned job) :
      Directs job e { e with main := .finishing, stopSampler := true }
  | fail (place : e.main = .joining true ∧ e.ConsReturned job ∨ e.main = .finishing) :
      Directs job e { e with main := .returned none }
  | succeed (place : e.main = .finishing) (sampled : e.sampler = .done) (running : e.ctxDone = false)
      (workers : ¬e.WorkerFailed job) (written : e.csvErr = false) :
      Directs job e { e with main := .returned (some e.totals) }

/-- The steps of the sampler. -/
inductive Samples (job : Job) (e : Engine F) : Engine F → Prop
  | sample {final : Bool} {recorder : Recorder F} (place : e.sampler = .ticking)
      (stopped : final = true → e.stopSampler = true)
      (begun : e.recorder.step? job.plan (.sample job.samplerId) = some recorder) :
      Samples job e { e with recorder, sampler := .writing final }
  | write {final : Bool} {row : Window F} (place : e.sampler = .writing final)
      (last : e.recorder.windows.getLast? = some row) :
      Samples job e { e with rows := e.rows ++ [row], sampler := if final then .done else .ticking }
  | fail {final : Bool} (place : e.sampler = .writing final) :
      Samples job e { e with csvErr := true, sampler := .done }

/-- Every step of the engine. -/
inductive Acts (job : Job) (e : Engine F) : Engine.Label → Engine F → Prop
  | publisher {p : ℕ} {slot : ChannelSlot} {label : Engine.PublishLabel} {e' : Engine F}
      (listed : job.publishers[p]? = some slot) (idle : e.recorder.todo p = [])
      (publishes : Publishes job e p slot label e') : Acts job e (.publisher p label) e'
  | consumer {c : ℕ} {slot : ChannelSlot} {label : Engine.ConsumeLabel} {e' : Engine F}
      (listed : job.consumers[c]? = some slot) (idle : e.recorder.todo (job.consumerId c) = [])
      (consumes : Consumes job e c slot label e') : Acts job e (.consumer c label) e'
  | main {label : Engine.MainLabel} {e' : Engine F} (idle : e.recorder.todo job.mainId = [])
      (directs : Directs job e e') : Acts job e (.main label) e'
  | sampler {label : Engine.SampleLabel} {e' : Engine F} (idle : e.recorder.todo job.samplerId = [])
      (samples : Samples job e e') : Acts job e (.sampler label) e'
  | run {i : ℕ} {recorder : Recorder F} (ran : e.recorder.step? job.plan (.run i) = some recorder) :
      Acts job e (.run i) { e with recorder }
  | cancel : Acts job e .cancel { e with ctxDone := true }

private theorem publishes_of_step {p : ℕ} {slot : ChannelSlot} {label : Engine.PublishLabel}
    (stepped : e.publisherStep? job p slot label = some e') : Publishes job e p slot label e' := by
  cases label with
  | select =>
    simp only [Engine.publisherStep?] at stepped
    split at stepped <;> try contradiction
    next i place =>
      split_ifs at stepped with ends <;> cases stepped
      · exact .finish place
      · exact .select place (not_le.1 (not_or.1 ends).1)
  | allocate =>
    simp only [Engine.publisherStep?] at stepped
    split at stepped <;> try contradiction
    next i place =>
      obtain ⟨recorder, allocated, rfl⟩ := Option.map_eq_some_iff.1 stepped
      cases allocated
      split_ifs with exceeded
      · exact .refuse place exceeded
      · exact .allocate place (Bool.eq_false_iff.2 exceeded)
  | stamp sendNanos =>
    simp only [Engine.publisherStep?] at stepped
    split at stepped <;> try contradiction
    next i seq place =>
      split_ifs at stepped with inside
      obtain ⟨body, encoded, rfl⟩ := Option.map_eq_some_iff.1 stepped
      exact .stamp place inside encoded
  | publish =>
    simp only [Engine.publisherStep?] at stepped
    split at stepped <;> try contradiction
    next i seq place =>
      obtain ⟨recorder, recorded, rfl⟩ := Option.map_eq_some_iff.1 stepped
      exact .publish place recorded
  | fail =>
    simp only [Engine.publisherStep?] at stepped
    split at stepped <;> cases stepped
    next i seq place => exact .fail place

private theorem consumes_of_step {c : ℕ} {slot : ChannelSlot} {label : Engine.ConsumeLabel}
    (stepped : e.consumerStep? job c slot label = some e') : Consumes job e c slot label e' := by
  cases label with
  | receive body =>
    simp only [Engine.consumerStep?] at stepped
    split at stepped <;> cases stepped
    next place => exact .receive place
  | finish =>
    simp only [Engine.consumerStep?] at stepped
    split at stepped <;> cases stepped
    next place => exact .finish place
  | locate recvNanos =>
    simp only [Engine.consumerStep?] at stepped
    split at stepped <;> try contradiction
    next body place =>
      obtain ⟨⟨idx, delLatUs⟩, found, rfl⟩ := Option.map_eq_some_iff.1 stepped
      exact .locate place found
  | deliver =>
    simp only [Engine.consumerStep?] at stepped
    split at stepped <;> try contradiction
    next seq idx delLatUs place =>
      obtain ⟨recorder, recorded, rfl⟩ := Option.map_eq_some_iff.1 stepped
      exact .deliver place recorded
  | ack nanos =>
    simp only [Engine.consumerStep?] at stepped
    split at stepped <;> try contradiction
    next seq place =>
      obtain ⟨recorder, recorded, rfl⟩ := Option.map_eq_some_iff.1 stepped
      exact .ack place recorded
  | fail =>
    simp only [Engine.consumerStep?] at stepped
    split at stepped <;> cases stepped
    next seq place => exact .fail place

private theorem directs_of_step {label : Engine.MainLabel} (stepped : e.mainStep? job label = some e') :
    Directs job e e' := by
  unfold Engine.mainStep? at stepped
  split at stepped
  · next place => split_ifs at stepped; cases stepped; exact .abort place
  · next place => split_ifs at stepped; cases stepped; exact .abort place
  · next place =>
    obtain ⟨recorder, begun, rfl⟩ := Option.map_eq_some_iff.1 stepped
    exact .begin place begun
  · next place =>
    obtain ⟨cutoff, returned, rfl⟩ := Option.map_eq_some_iff.1 stepped
    split_ifs
    · exact .exceeded place
    · exact .measure place returned
  · next place => split_ifs at stepped; cases stepped; exact .stop place
  · next place => split_ifs at stepped; cases stepped; exact .stop place
  · next place => split_ifs at stepped with returned; cases stepped; exact .published (.inl place) returned
  · next place => split_ifs at stepped with returned; cases stepped; exact .published (.inr place) returned
  · next place =>
    by_cases done : e.ctxDone = true
    · rw [if_pos done] at stepped
      cases stepped
      exact .interrupt (.inl place) done
    · rw [if_neg done] at stepped
      split at stepped <;> cases stepped
      · exact .drain place
      · exact .skip place
  · next looping loads place =>
    split at stepped
    · next next => cases stepped; exact .load place next
    · next result holds =>
      cases stepped
      cases result with
      | true => cases looping <;> simpa using .drained place holds
      | false =>
        rw [Bool.or_false]
        exact .undrained place holds (by cases looping <;> simp)
  · next loads place =>
    split at stepped <;> cases stepped
    next holds => exact .undrained place holds (.inr (.inl rfl))
  · next place => split_ifs at stepped with done; cases stepped; exact .interrupt (.inr place) done
  · next place => cases stepped; exact .again place
  · next place => cases stepped; exact .loadPublished place
  · next pub place => cases stepped; exact .loadConsumed place
  · next pub con rest place =>
    split_ifs at stepped with lost <;> cases stepped
    · exact .storeDrops place lost
    · exact .noDrops place (Nat.le_of_not_lt lost)
  · next abort place => cases stepped; exact .shutdown place
  · next abort place => split_ifs at stepped with returned; cases stepped; exact .close place returned
  · next abort place =>
    split_ifs at stepped with returned aborted <;> cases stepped
    · rw [aborted] at place
      exact .fail (.inl ⟨place, returned⟩)
    · rw [Bool.eq_false_iff.2 aborted] at place
      exact .join place returned
  · next ok place =>
    split_ifs at stepped with sampled failed <;> cases stepped
    · exact .fail (.inr place)
    · simp only [not_or, Bool.not_eq_true] at failed
      exact .succeed place sampled failed.1 failed.2.1 failed.2.2.1
  · contradiction

private theorem samples_of_step {label : Engine.SampleLabel} (stepped : e.samplerStep? job label = some e') :
    Samples job e e' := by
  unfold Engine.samplerStep? at stepped
  split at stepped
  · next place =>
    obtain ⟨recorder, begun, rfl⟩ := Option.map_eq_some_iff.1 stepped
    exact .sample place (fun final => absurd final Bool.false_ne_true) begun
  · next place =>
    split_ifs at stepped with stopped
    obtain ⟨recorder, begun, rfl⟩ := Option.map_eq_some_iff.1 stepped
    exact .sample place (fun _ => stopped) begun
  · next final ok place =>
    by_cases writes : ok = true ∧ (!e.csvErr) = true
    · rw [if_pos writes] at stepped
      obtain ⟨row, last, rfl⟩ := Option.map_eq_some_iff.1 stepped
      exact .write place last
    · rw [if_neg writes] at stepped
      cases stepped
      exact .fail place
  · contradiction

theorem acts_of_step {label : Engine.Label} (stepped : e.step? job label = some e') : Acts job e label e' := by
  cases label with
  | publisher p label =>
    simp only [Engine.step?] at stepped
    split_ifs at stepped with idle
    obtain ⟨slot, listed, stepped⟩ := Option.bind_eq_some_iff.1 stepped
    exact .publisher listed (List.isEmpty_iff.1 idle) (publishes_of_step stepped)
  | consumer c label =>
    simp only [Engine.step?] at stepped
    split_ifs at stepped with idle
    obtain ⟨slot, listed, stepped⟩ := Option.bind_eq_some_iff.1 stepped
    exact .consumer listed (List.isEmpty_iff.1 idle) (consumes_of_step stepped)
  | main label =>
    simp only [Engine.step?] at stepped
    split_ifs at stepped with idle
    exact .main (List.isEmpty_iff.1 idle) (directs_of_step stepped)
  | sampler label =>
    simp only [Engine.step?] at stepped
    split_ifs at stepped with idle
    exact .sampler (List.isEmpty_iff.1 idle) (samples_of_step stepped)
  | run i =>
    obtain ⟨recorder, ran, rfl⟩ := Option.map_eq_some_iff.1 stepped
    exact .run ran
  | cancel =>
    cases stepped
    exact .cancel

/-- A call in progress hands out no number, makes no record call, and leaves the calls of others alone. -/
theorem Recorder.run_eq_some {plan : Plan} {r r' : Recorder F} {i : ℕ} (ran : r.step? plan (.run i) = some r') :
    r'.seqGen = r.seqGen ∧ r'.records = r.records ∧ r.todo i ≠ [] ∧ ∃ ops, r'.todo = Function.update r.todo i ops := by
  simp only [Recorder.step?] at ran
  split at ran
  · contradiction
  · next op rest pending =>
    obtain ⟨⟨after, next⟩, performed, rfl⟩ := Option.map_eq_some_iff.1 ran
    have busy : r.todo i ≠ [] := by simp [pending]
    cases op with
    | update u =>
      obtain ⟨stats, -, same⟩ := Option.map_eq_some_iff.1 performed
      cases same
      exact ⟨rfl, rfl, busy, _, rfl⟩
    | sampling row left => cases left <;> cases performed <;> exact ⟨rfl, rfl, busy, _, rfl⟩
    | rlock | check | lock =>
      simp only [Recorder.perform] at performed
      split_ifs at performed <;> cases performed <;> exact ⟨rfl, rfl, busy, _, rfl⟩
    | _ => cases performed; exact ⟨rfl, rfl, busy, _, rfl⟩

/-- The record call that a label makes. -/
def Recorder.Label.made : Recorder.Label F → List (Record F)
  | .record _ made => [made]
  | _ => []

theorem Recorder.records_step {plan : Plan} {r r' : Recorder F} {label : Recorder.Label F}
    (stepped : r.step? plan label = some r') : r'.records = r.records ++ label.made := by
  cases label with
  | allocate | storeDrops => cases stepped; exact (List.append_nil _).symm
  | record i record =>
    obtain ⟨called, started, rfl⟩ := Option.map_eq_some_iff.1 stepped
    rfl
  | begin i | sample i =>
    obtain ⟨-, -, rfl⟩ := Recorder.call_eq_some stepped
    exact (List.append_nil _).symm
  | run i => exact (Recorder.run_eq_some stepped).2.1.trans (List.append_nil _).symm

/-- Only the allocation of a sequence number moves `seqGen`. -/
theorem Recorder.seqGen_step {plan : Plan} {r r' : Recorder F} {label : Recorder.Label F}
    (stepped : r.step? plan label = some r') (other : label ≠ .allocate) : r'.seqGen = r.seqGen := by
  cases label with
  | allocate => exact absurd rfl other
  | storeDrops v => cases stepped; rfl
  | record i record =>
    obtain ⟨called, started, rfl⟩ := Option.map_eq_some_iff.1 stepped
    obtain ⟨-, -, rfl⟩ := Recorder.call_eq_some started
    rfl
  | begin i | sample i =>
    obtain ⟨-, -, rfl⟩ := Recorder.call_eq_some stepped
    rfl
  | run i => exact (Recorder.run_eq_some stepped).1

/-- The goroutine that makes a call. -/
def Recorder.Label.calls : Recorder.Label F → Option ℕ
  | .record i _ | .begin i | .sample i => some i
  | _ => none

/-- A goroutine without a call in progress gets one only by making it. -/
theorem Recorder.idle_step {plan : Plan} {r r' : Recorder F} {label : Recorder.Label F} {j : ℕ}
    (stepped : r.step? plan label = some r') (other : label.calls ≠ some j)
    (idle : r.todo j = []) : r'.todo j = [] := by
  cases label with
  | allocate | storeDrops => cases stepped; exact idle
  | record i record =>
    obtain ⟨called, started, rfl⟩ := Option.map_eq_some_iff.1 stepped
    obtain ⟨-, -, rfl⟩ := Recorder.call_eq_some started
    exact (Function.update_of_ne (fun same => other (by rw [same]; rfl)) _ _).trans idle
  | begin i | sample i =>
    obtain ⟨-, -, rfl⟩ := Recorder.call_eq_some stepped
    exact (Function.update_of_ne (fun same => other (by rw [same]; rfl)) _ _).trans idle
  | run i =>
    obtain ⟨-, -, busy, ops, todo⟩ := Recorder.run_eq_some stepped
    have apart : j ≠ i := fun same => busy (same ▸ idle)
    rw [todo, Function.update_of_ne apart]
    exact idle

/-- What publishers write is written by no one else. -/
structure Engine.SamePublishing (e e' : Engine F) : Prop where
  publisher : e'.publisher = e.publisher
  seqGen : e'.recorder.seqGen = e.recorder.seqGen
  sentTimes : e'.sentTimes = e.sentTimes
  handed : e'.handed = e.handed
  stored : e'.stored = e.stored
  sent : e'.sent = e.sent

theorem Acts.samePublishing {label : Engine.Label} (acts : Acts job e label e')
    (other : ∀ p l, label ≠ .publisher p l) : e.SamePublishing e' := by
  cases acts with
  | publisher => exact absurd rfl (other _ _)
  | consumer _ _ consumes =>
    cases consumes with
    | deliver _ recorded | ack _ recorded =>
      exact ⟨rfl, Recorder.seqGen_step recorded (by simp), rfl, rfl, rfl, rfl⟩
    | _ => exact ⟨rfl, rfl, rfl, rfl, rfl, rfl⟩
  | main _ directs =>
    cases directs with
    | begin _ begun => exact ⟨rfl, Recorder.seqGen_step begun (by simp), rfl, rfl, rfl, rfl⟩
    | _ => exact ⟨rfl, rfl, rfl, rfl, rfl, rfl⟩
  | sampler _ samples =>
    cases samples with
    | sample _ _ begun => exact ⟨rfl, Recorder.seqGen_step begun (by simp), rfl, rfl, rfl, rfl⟩
    | _ => exact ⟨rfl, rfl, rfl, rfl, rfl, rfl⟩
  | run ran => exact ⟨rfl, Recorder.seqGen_step ran (by simp), rfl, rfl, rfl, rfl⟩
  | cancel => exact ⟨rfl, rfl, rfl, rfl, rfl, rfl⟩

end GolangMQ.Bench
