import GolangMQ.Bench.Callers

/-! # From a publish to its acknowledgement

A message is a sequence number. It goes from the bodies handed to `Publish` to the publishes recorded, and from the
bodies delivered to the deliveries recorded and on to the acknowledgements recorded; in between a worker has it.
-/

namespace GolangMQ.Bench

open Machine

/-- The sequence number that a worker reads off a body. -/
def seqOf (body : List UInt8) : ℕ := (decodeHeader body).1.toNat

namespace Record

variable {F : Type}

def publishSeq : Record F → Option ℕ
  | publish _ seq => some seq
  | _ => none

def deliverSeq : Record F → Option ℕ
  | deliver _ seq _ _ => some seq
  | _ => none

/-- The number of a delivery that is not a duplicate. -/
def freshSeq : Record F → Option ℕ
  | deliver _ seq _ false => some seq
  | _ => none

def ackSeq : Record F → Option ℕ
  | ack seq _ => some seq
  | _ => none

theorem deliverSeq_of_freshSeq {record : Record F} {seq : ℕ} (fresh : record.freshSeq = some seq) :
    record.deliverSeq = some seq := by
  cases record with
  | deliver _ _ _ dup =>
    cases dup with
    | false => exact fresh
    | true => contradiction
  | _ => contradiction

end Record

/-- The message that a publisher has handed to `Publish`. -/
def PublishWorker.inPublish (worker : PublishWorker) : Option ℕ :=
  match worker.place with
  | .publishing _ seq => some seq.toNat
  | _ => none

namespace ConsumePlace

variable {F : Type}

/-- The message that a consumer has received and not recorded. -/
def inHand : ConsumePlace F → Option ℕ
  | received body => some (seqOf body)
  | located seq _ _ => some seq.toNat
  | _ => none

/-- The message that a consumer has recorded and not acknowledged. -/
def inAck : ConsumePlace F → Option ℕ
  | acking seq => some seq.toNat
  | _ => none

end ConsumePlace

variable {F : Type} [Field F] [LinearOrder F] {job : Job} {e e' : Engine F}

/-- The messages that the record calls made so far are about, as far as they are read. -/
def Recorder.seqs (r : Recorder F) (read : Record F → Option ℕ) : Multiset ℕ := (r.records.filterMap read : Multiset ℕ)

private theorem Recorder.seqs_step {plan : Plan} {r r' : Recorder F} {label : Recorder.Label F}
    (stepped : r.step? plan label = some r') (read : Record F → Option ℕ) :
    r'.seqs read = r.seqs read + (label.made.filterMap read : Multiset ℕ) := by
  rw [Recorder.seqs, Recorder.records_step stepped, List.filterMap_append, ← Multiset.coe_add]
  rfl

/-- No publisher has returned an error. -/
def Engine.Unfailed (job : Job) (e : Engine F) : Prop :=
  ∀ p < job.publishers.length, (e.publisher p).place.hasFailed = false

instance (job : Job) (e : Engine F) : Decidable (e.Unfailed job) :=
  inferInstanceAs (Decidable (∀ p < job.publishers.length, _ = false))

/-- Every message is where it was last seen. -/
structure Flow (job : Job) (e : Engine F) : Prop where
  sent : e.Unfailed job → (e.sent.map seqOf : Multiset ℕ) =
    e.recorder.seqs Record.publishSeq + census PublishWorker.inPublish job.publishers.length e.publisher
  received : (e.received.map seqOf : Multiset ℕ) =
    e.recorder.seqs Record.deliverSeq + census ConsumePlace.inHand job.consumers.length e.consumer
  acked : e.recorder.seqs Record.ackSeq + census ConsumePlace.inAck job.consumers.length e.consumer ≤
    e.recorder.seqs Record.deliverSeq

/-- A failure of a publisher remains. -/
theorem Publishes.unfailed {p : ℕ} {slot : ChannelSlot} {label : Engine.PublishLabel}
    (publishes : Publishes job e p slot label e') (unfailed : e'.Unfailed job) : e.Unfailed job := by
  intro q inside
  by_cases here : q = p
  · subst here
    cases publishes with
    | finish place | select place | refuse place | allocate place | stamp place | publish place | fail place =>
      rw [place]
      rfl
  · have after := unfailed q inside
    cases publishes <;> simpa [Engine.publisherTo, Function.update_of_ne here] using after

private theorem Flow.publishes (flow : Flow job e) {p : ℕ} {slot : ChannelSlot} {label : Engine.PublishLabel}
    (inside : p < job.publishers.length) (publishes : Publishes job e p slot label e') : Flow job e' := by
  have before := publishes.unfailed
  have exchanged (worker : PublishWorker) := census_update PublishWorker.inPublish e.publisher inside worker
  have silent {worker : PublishWorker} (first : (e.publisher p).inPublish = none) (second : worker.inPublish = none) :
      census PublishWorker.inPublish job.publishers.length (Function.update e.publisher p worker) =
        census PublishWorker.inPublish job.publishers.length e.publisher := by
    simpa [first, second] using exchanged worker
  cases publishes with
  | finish place | select place | refuse place | allocate place =>
    have out : (e.publisher p).inPublish = none := by simp [PublishWorker.inPublish, place]
    refine ⟨fun unfailed => (flow.sent (before unfailed)).trans (congrArg (_ + ·) (Eq.symm (silent out ?_))),
      flow.received, flow.acked⟩
    rfl
  | @stamp i seq sendNanos body place bound encoded =>
    have more := exchanged ⟨body, .publishing i seq⟩
    simp only [PublishWorker.inPublish, place, Option.toList_none, Multiset.coe_nil, add_zero, Option.toList_some,
      Multiset.coe_singleton] at more
    have value : seqOf body = seq.toNat := by rw [seqOf, decodeHeader_encodeHeader encoded]
    refine ⟨fun unfailed => ?_, flow.received, flow.acked⟩
    calc ((e.sent ++ [body]).map seqOf : Multiset ℕ)
      _ = (e.sent.map seqOf : Multiset ℕ) + {seq.toNat} := by
        rw [List.map_append, ← Multiset.coe_add, List.map_singleton, value, Multiset.coe_singleton]
      _ = _ := by rw [flow.sent (before unfailed), add_assoc]; exact congrArg (_ + ·) more.symm
  | @publish i seq recorder place recorded =>
    have less := exchanged { e.publisher p with place := .looping (i + 1) }
    simp only [PublishWorker.inPublish, place, Option.toList_none, Multiset.coe_nil, add_zero, Option.toList_some,
      Multiset.coe_singleton] at less
    have records := Recorder.seqs_step recorded
    refine ⟨fun unfailed => (flow.sent (before unfailed)).trans ?_,
      flow.received.trans (congrArg (· + _) ((records Record.deliverSeq).trans (add_zero _)).symm), ?_⟩
    · change _ = recorder.seqs _ + _
      rw [records, ← less, add_assoc]
      exact congrArg (_ + ·) (add_comm _ _)
    · have acks : recorder.seqs Record.ackSeq = e.recorder.seqs Record.ackSeq := (records _).trans (add_zero _)
      have delivers : recorder.seqs Record.deliverSeq = e.recorder.seqs Record.deliverSeq :=
        (records _).trans (add_zero _)
      change recorder.seqs _ + _ ≤ recorder.seqs _
      rw [acks, delivers]
      exact flow.acked
  | fail place =>
    refine ⟨fun unfailed => ?_, flow.received, flow.acked⟩
    have failed := unfailed p inside
    simp [Engine.publisherTo, PublishPlace.hasFailed] at failed

private theorem Flow.consumes (flow : Flow job e) {c : ℕ} {slot : ChannelSlot} {label : Engine.ConsumeLabel}
    (inside : c < job.consumers.length) (consumes : Consumes job e c slot label e') : Flow job e' := by
  have hand (place : ConsumePlace F) := census_update ConsumePlace.inHand e.consumer inside place
  have ack (place : ConsumePlace F) := census_update ConsumePlace.inAck e.consumer inside place
  cases consumes with
  | @receive body place =>
    have more := hand (.received body)
    have same := ack (.received body)
    simp only [ConsumePlace.inHand, ConsumePlace.inAck, place, Option.toList_none, Multiset.coe_nil, add_zero,
      Option.toList_some, Multiset.coe_singleton] at more same
    refine ⟨flow.sent, ?_, (congrArg (_ + ·) same).le.trans flow.acked⟩
    calc ((e.received ++ [body]).map seqOf : Multiset ℕ)
      _ = (e.received.map seqOf : Multiset ℕ) + {seqOf body} := by
        rw [List.map_append, ← Multiset.coe_add, List.map_singleton, Multiset.coe_singleton]
      _ = _ := by rw [flow.received, add_assoc]; exact congrArg (_ + ·) more.symm
  | finish place =>
    have less := hand (.returned false)
    have same := ack (.returned false)
    simp only [ConsumePlace.inHand, ConsumePlace.inAck, place, Option.toList_none, Multiset.coe_nil,
      add_zero] at less same
    exact ⟨flow.sent, flow.received.trans (congrArg (_ + ·) less.symm), (congrArg (_ + ·) same).le.trans flow.acked⟩
  | @locate body recvNanos idx delLatUs place found =>
    have less := hand (.located (decodeHeader body).1 idx delLatUs)
    have same := ack (.located (decodeHeader body).1 idx delLatUs)
    simp only [ConsumePlace.inHand, ConsumePlace.inAck, place, Option.toList_none, Multiset.coe_nil,
      add_zero] at less same
    exact ⟨flow.sent, flow.received.trans (congrArg (_ + ·) (add_right_cancel less).symm),
      (congrArg (_ + ·) same).le.trans flow.acked⟩
  | @deliver seq idx delLatUs recorder place recorded =>
    have less := hand (if job.cfg.ack then .acking seq else .waiting)
    have more := ack (if job.cfg.ack then .acking seq else .waiting)
    have out : (if job.cfg.ack then .acking seq else .waiting : ConsumePlace F).inHand = none := by split <;> rfl
    have acking : ((if job.cfg.ack then .acking seq else .waiting : ConsumePlace F).inAck.toList : Multiset ℕ) ≤
        {seq.toNat} := by
      split
      · exact le_rfl
      · exact Multiset.zero_le _
    rw [place, out, Option.toList_none, Multiset.coe_nil, add_zero] at less
    have before : (.located seq idx delLatUs : ConsumePlace F).inAck = none := rfl
    rw [place, before, Option.toList_none, Multiset.coe_nil, add_zero] at more
    have records := Recorder.seqs_step recorded
    refine ⟨fun unfailed => (flow.sent unfailed).trans (congrArg (· + _) ((records _).trans (add_zero _)).symm), ?_, ?_⟩
    · refine flow.received.trans ?_
      change _ = recorder.seqs _ + census _ _ (Function.update e.consumer c _)
      rw [records, ← less, add_assoc]
      exact congrArg (_ + ·) (add_comm _ _)
    · have acks : recorder.seqs Record.ackSeq = e.recorder.seqs Record.ackSeq := (records _).trans (add_zero _)
      change recorder.seqs _ + census _ _ (Function.update e.consumer c _) ≤ recorder.seqs _
      rw [acks, records, more, ← add_assoc]
      exact add_le_add flow.acked acking
  | @ack seq nanos recorder place recorded =>
    have same := hand .waiting
    have less := ack .waiting
    simp only [ConsumePlace.inHand, ConsumePlace.inAck, place, Option.toList_none, Multiset.coe_nil, add_zero,
      Option.toList_some, Multiset.coe_singleton] at same less
    have records := Recorder.seqs_step recorded
    refine ⟨fun unfailed => (flow.sent unfailed).trans (congrArg (· + _) ((records _).trans (add_zero _)).symm), ?_, ?_⟩
    · refine flow.received.trans ?_
      change _ = recorder.seqs _ + census _ _ (Function.update e.consumer c _)
      rw [records, same]
      exact congrArg (· + _) (add_zero _).symm
    · change recorder.seqs _ + census _ _ (Function.update e.consumer c _) ≤ recorder.seqs _
      refine le_trans (le_of_eq ?_) (flow.acked.trans (Eq.ge ((records _).trans (add_zero _))))
      rw [records, ← less, add_assoc]
      exact congrArg (_ + ·) (add_comm _ _)
  | @fail seq place =>
    have same := hand (.returned true)
    have less := ack (.returned true)
    simp only [ConsumePlace.inHand, ConsumePlace.inAck, place, Option.toList_none, Multiset.coe_nil, add_zero,
      Option.toList_some, Multiset.coe_singleton] at same less
    refine ⟨flow.sent, flow.received.trans (congrArg (_ + ·) same.symm), le_trans (add_le_add le_rfl ?_) flow.acked⟩
    exact (Multiset.le_add_right _ _).trans less.le

private theorem Flow.step (flow : Flow job e) {label : Engine.Label} (acts : Acts job e label e') : Flow job e' := by
  have same {recorder : Recorder F} (seqs : ∀ read, recorder.seqs read = e.recorder.seqs read) :
      Flow job { e with recorder } :=
    ⟨by rw [seqs]; exact flow.sent, by rw [seqs]; exact flow.received, by rw [seqs, seqs]; exact flow.acked⟩
  cases acts with
  | publisher listed _ publishes => exact flow.publishes (List.getElem?_eq_some_iff.1 listed).1 publishes
  | consumer listed _ consumes => exact flow.consumes (List.getElem?_eq_some_iff.1 listed).1 consumes
  | main _ directs =>
    cases directs with
    | begin _ begun =>
      obtain ⟨sent, received, acked⟩ := same fun read => (Recorder.seqs_step begun read).trans (add_zero _)
      exact ⟨sent, received, acked⟩
    | _ => exact ⟨flow.sent, flow.received, flow.acked⟩
  | sampler _ samples =>
    cases samples with
    | sample _ _ begun =>
      obtain ⟨sent, received, acked⟩ := same fun read => (Recorder.seqs_step begun read).trans (add_zero _)
      exact ⟨sent, received, acked⟩
    | _ => exact ⟨flow.sent, flow.received, flow.acked⟩
  | run ran => exact same fun read => (Recorder.seqs_step ran read).trans (add_zero _)
  | cancel => exact ⟨flow.sent, flow.received, flow.acked⟩

theorem flow_of_reachable {ok : Engine F → Engine.Label → Prop} (reached : (engine F job).Reachable ok e) :
    Flow job e := by
  refine reached.invariant (P := Flow job) ?_ fun _ flow _ stepped => flow.step (acts_of_step stepped)
  exact ⟨fun _ => Eq.symm ((zero_add _).trans (census_eq_zero.2 fun _ _ => rfl)),
    Eq.symm ((zero_add _).trans (census_eq_zero.2 fun _ _ => rfl)),
    Eq.le ((zero_add _).trans (census_eq_zero.2 fun _ _ => rfl))⟩

/-- Once publishers have returned, none of them is inside `Publish`. -/
theorem Engine.PubsReturned.census_inPublish (returned : e.PubsReturned job) :
    census PublishWorker.inPublish job.publishers.length e.publisher = 0 := by
  refine census_eq_zero.2 fun p inside => ?_
  obtain ⟨err, place⟩ := returned p inside
  rw [PublishWorker.inPublish, place]

end GolangMQ.Bench
