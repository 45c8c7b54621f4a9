import GolangMQ.Bench.Duplicates
import GolangMQ.Bench.Places

/-! # Draining an acking run

`drained` loads four counters one after the other while consumers keep going. The counters only grow and publishers
have returned, so what the first two loads say remains true: every message has been consumed, and since `allDelivered`
is incremented before `allConsumed`, also counted as delivered. The last two loads then compare the acknowledgements
with all messages there are.
-/

namespace GolangMQ.Bench

open Machine

variable {F : Type} [Field F] [LinearOrder F] {job : Job} {e e' : Engine F}

private theorem Moves.counter_le {plan : Plan} {r r' : Recorder F} {i : ℕ} {c : Counter} (allTime : c.allTime = true)
    (moves : Moves plan r i r') : r.stats.counter c ≤ r'.stats.counter c := by
  have total : c.windowed = false := by cases c <;> first | rfl | contradiction
  rcases moves.counter_eq total with ⟨op, -, more⟩ | ⟨-, resets, -⟩
  · rw [more]
    exact Nat.le_add_right _ _
  · exact absurd rfl (Counter.ne_clear allTime resets)

/-- The counters that include the warmup never decrease. -/
private theorem Recorder.counter_mono {plan : Plan} {r r' : Recorder F} {label : Recorder.Label F} {c : Counter}
    (allTime : c.allTime = true) (phased : Phased plan r) (stepped : r.step? plan label = some r') :
    r.stats.counter c ≤ r'.stats.counter c := by
  cases label with
  | allocate => cases stepped; exact le_rfl
  | storeDrops v =>
    cases stepped
    have other : c ≠ .drops := fun same => by subst same; contradiction
    exact (Function.update_of_ne other _ _).ge
  | record i record =>
    obtain ⟨called, started, rfl⟩ := Option.map_eq_some_iff.1 stepped
    obtain ⟨-, -, rfl⟩ := Recorder.call_eq_some started
    exact le_rfl
  | begin i | sample i =>
    obtain ⟨-, -, rfl⟩ := Recorder.call_eq_some stepped
    exact le_rfl
  | run i => exact (phased.moves stepped).counter_le allTime

/-- A delivery is of a message that was published, and there are no more deliveries of it than publishes. -/
def Engine.AtMostOnce (e : Engine F) : Engine.Label → Prop
  | .consumer _ (.receive body) => Multiset.count body e.received < Multiset.count body e.sent
  | _ => True

instance (e : Engine F) (label : Engine.Label) : Decidable (e.AtMostOnce label) :=
  match label with
  | .consumer _ (.receive body) => inferInstanceAs (Decidable (Multiset.count body e.received < _))
  | .consumer _ .finish | .consumer _ (.locate _) | .consumer _ .deliver | .consumer _ (.ack _) | .consumer _ .fail
  | .publisher .. | .main _ | .sampler _ | .run _ | .cancel => .isTrue trivial

private theorem received_le_sent (reached : (engine F job).Reachable Engine.AtMostOnce e) :
    (e.received : Multiset (List UInt8)) ≤ (e.sent : Multiset (List UInt8)) := by
  refine reached.invariant (P := fun e => (e.received : Multiset (List UInt8)) ≤ (e.sent : Multiset (List UInt8)))
    le_rfl @fun e e' label before known once stepped => ?_
  cases acts_of_step stepped with
  | publisher _ _ publishes =>
    cases publishes with
    | stamp =>
      refine known.trans ?_
      rw [← Multiset.coe_add]
      exact Multiset.le_add_right _ _
    | _ => exact known
  | consumer _ _ consumes =>
    cases consumes with
    | @receive body place =>
      refine Multiset.le_iff_count.2 fun other => ?_
      have bound := Multiset.le_iff_count.1 known other
      change Multiset.count other (e.received ++ [body] : List (List UInt8)) ≤ Multiset.count other e.sent
      rw [← Multiset.coe_add, Multiset.count_add, Multiset.coe_singleton, Multiset.count_singleton]
      split
      · next same =>
        have less : Multiset.count body e.received < Multiset.count body e.sent := once
        rwa [← same] at less
      · exact bound
    | _ => exact known
  | main _ directs => cases directs <;> exact known
  | sampler _ samples => cases samples <;> exact known
  | run => exact known
  | cancel => exact known

/-- The publishes recorded so far. -/
def Engine.publishes (e : Engine F) : ℕ := (e.recorder.records.filterMap Record.publishSeq).length

/-- What holds of the messages once all publishers have returned without an error. -/
structure Settled (job : Job) (e : Engine F) : Prop where
  acked : e.recorder.seqs Record.ackSeq + census ConsumePlace.inAck job.consumers.length e.consumer ≤
    e.recorder.seqs Record.deliverSeq
  received : (e.received.map seqOf : Multiset ℕ) =
    e.recorder.seqs Record.deliverSeq + census ConsumePlace.inHand job.consumers.length e.consumer
  sent : (e.received.map seqOf : Multiset ℕ) ≤ e.recorder.seqs Record.publishSeq

theorem settled_of_reachable (reached : (engine F job).Reachable Engine.AtMostOnce e)
    (unfailed : e.Unfailed job) (returned : e.PubsReturned job) : Settled job e := by
  have flow := flow_of_reachable reached
  refine ⟨flow.acked, flow.received, ?_⟩
  have sent := flow.sent unfailed
  rw [returned.census_inPublish, add_zero] at sent
  rw [← sent]
  exact Multiset.map_le_map (received_le_sent reached)

/-- `allPublished` is exact once publishers have returned. -/
private theorem allPublished_eq {ok : Engine F → Engine.Label → Prop} (reached : (engine F job).Reachable ok e)
    (returned : e.PubsReturned job) : e.recorder.stats.counter .allPublished = e.publishes := by
  have calls := calls_of_reachable reached
  have arrived : Arrived job.plan .allPublished e.recorder := arrived_of_reachable rfl calls
  have called := called_of_reachable (fun _ _ allowed => allowed) calls
  have none : load (Op.adds .allPublished) job.plan.workers e.recorder.todo = 0 := called.load_eq_zero fun i mine =>
    (placed_of_reachable reached).publishers_idle returned i (List.mem_singleton.1 mine)
  rw [Arrived, none, add_zero] at arrived
  rw [arrived]
  exact countP_eq_length_filterMap Record.publishSeq _ (fun record => by cases record <;> rfl) _

omit [Field F] [LinearOrder F] in
/-- Deliveries are first ones and duplicates. -/
private theorem countP_delivered (records : List (Record F)) :
    records.countP (Counter.arrivals .allDelivered) =
      records.countP (Counter.arrivals .allConsumed) + records.countP (Record.isDeliverWith true) := by
  induction records with
  | nil => rfl
  | cons record rest ih =>
    simp only [List.countP_cons, ih]
    cases record with
    | deliver _ _ _ dup => cases dup <;> simp [Counter.arrivals, Record.isDeliverWith] <;> omega
    | _ => simp [Counter.arrivals, Record.isDeliverWith]

namespace Settled

variable (settled : Settled job e)

include settled

private theorem card_deliver_le : Multiset.card (e.recorder.seqs Record.deliverSeq) ≤ e.publishes := by
  have part := Multiset.le_add_right (e.recorder.seqs Record.deliverSeq)
    (census ConsumePlace.inHand job.consumers.length e.consumer)
  exact Multiset.card_le_card (part.trans (settled.received.symm.le.trans settled.sent))

/-- When all messages have been consumed, all of them have been counted as delivered. -/
theorem allDelivered_eq {ok : Engine F → Engine.Label → Prop} (reached : (engine F job).Reachable ok e)
    (consumed : e.publishes ≤ e.recorder.stats.counter .allConsumed) :
    e.recorder.stats.counter .allDelivered = e.publishes := by
  have calls := calls_of_reachable reached
  have first : Arrived job.plan .allConsumed e.recorder := arrived_of_reachable rfl calls
  have second : Arrived job.plan .allDelivered e.recorder := arrived_of_reachable rfl calls
  rw [Arrived] at first second
  have delivered : e.recorder.records.countP (Counter.arrivals .allDelivered) ≤ e.publishes := by
    refine le_trans (le_of_eq ?_) settled.card_deliver_le
    exact countP_eq_length_filterMap Record.deliverSeq _ (fun record => by cases record <;> rfl) _
  -- there are as many first deliveries as there can be deliveries, so that there is no duplicate
  have both := countP_delivered e.recorder.records
  have dups : e.recorder.records.countP (Record.isDeliverWith true) = 0 := by omega
  have fresh (record : Record F) (member : record ∈ e.recorder.records) : record.isDeliverWith true = false :=
    Bool.eq_false_iff.2 (List.countP_eq_zero.1 dups record member)
  have ordered := (phased_of_reachable calls).load_delivered_le (traced_of_reachable calls) fresh
  omega

/-- When all messages have been acknowledged, no consumer has one. -/
theorem acked_eq {ok : Engine F → Engine.Label → Prop} (reached : (engine F job).Reachable ok e)
    (acks : e.publishes ≤ e.recorder.stats.counter .allAcks) :
    e.recorder.seqs Record.ackSeq = e.recorder.seqs Record.publishSeq ∧
      census ConsumePlace.inAck job.consumers.length e.consumer = 0 ∧
      census ConsumePlace.inHand job.consumers.length e.consumer = 0 := by
  have arrived : Arrived job.plan .allAcks e.recorder := arrived_of_reachable rfl (calls_of_reachable reached)
  rw [Arrived] at arrived
  have counted : e.recorder.records.countP (Counter.arrivals .allAcks) =
      Multiset.card (e.recorder.seqs Record.ackSeq) :=
    countP_eq_length_filterMap Record.ackSeq _ (fun record => by cases record <;> rfl) _
  have first := Multiset.card_le_card settled.acked
  have second := congrArg Multiset.card settled.received
  have third := Multiset.card_le_card settled.sent
  have all : Multiset.card (e.recorder.seqs Record.publishSeq) = e.publishes := rfl
  rw [Multiset.card_add] at first second
  refine ⟨Multiset.eq_of_le_of_card_le ?_ (by omega), Multiset.card_eq_zero.1 (by omega),
    Multiset.card_eq_zero.1 (by omega)⟩
  calc e.recorder.seqs Record.ackSeq
    _ ≤ e.recorder.seqs Record.deliverSeq := (Multiset.le_add_right _ _).trans settled.acked
    _ ≤ (e.received.map seqOf : Multiset ℕ) := (Multiset.le_add_right _ _).trans settled.received.ge
    _ ≤ e.recorder.seqs Record.publishSeq := settled.sent

end Settled

/-- What the loads of `drained` say about the counters of a later moment, when `n` messages have been published. -/
def Loaded (n : ℕ) (counter : Counter → ℕ) : List ℕ → Prop
  | [] => True
  | [consumed] => consumed ≤ counter .allConsumed
  | [consumed, published] => consumed ≤ counter .allConsumed ∧ published = n
  | [_, _, acks] => n ≤ counter .allConsumed ∧ acks ≤ counter .allAcks
  | _ :: _ :: acks :: delivered :: _ => n ≤ counter .allConsumed ∧ acks ≤ counter .allAcks ∧ delivered = n

private theorem Loaded.mono {n : ℕ} {counter counter' : Counter → ℕ} {loads : List ℕ} (loaded : Loaded n counter loads)
    (grows : ∀ c : Counter, c.allTime = true → counter c ≤ counter' c) : Loaded n counter' loads := by
  have consumed := grows .allConsumed rfl
  have acks := grows .allAcks rfl
  match loads, loaded with
  | [], _ => trivial
  | [_], loaded => exact le_trans loaded consumed
  | [_, _], ⟨first, second⟩ => exact ⟨first.trans consumed, second⟩
  | [_, _, _], ⟨first, second⟩ => exact ⟨first.trans consumed, second.trans acks⟩
  | _ :: _ :: _ :: _ :: _, ⟨first, second, third⟩ => exact ⟨first.trans consumed, second.trans acks, third⟩

/-- What the loads made so far say, and what `drained` has said. -/
structure Draining (job : Job) (e : Engine F) : Prop where
  loads : ∀ looping loads, e.main = .drained looping loads → Loaded e.publishes e.recorder.stats.counter loads
  done : e.drained = true → e.PubsReturned job ∧ e.publishes ≤ e.recorder.stats.counter .allConsumed ∧
    e.publishes ≤ e.recorder.stats.counter .allAcks

/-- A step that records no publish, and that leaves what `Run` has loaded alone or drops it. -/
theorem Draining.grows (draining : Draining job e)
    (main : ∀ looping loads, e'.main = .drained looping loads → e.main = .drained looping loads ∨ loads = [])
    (drained : e'.drained = e.drained) (publisher : e'.publisher = e.publisher) (publishes : e'.publishes = e.publishes)
    (counters : ∀ c : Counter, c.allTime = true → e.recorder.stats.counter c ≤ e'.recorder.stats.counter c) :
    Draining job e' := by
  refine ⟨fun looping loads place => ?_, fun done => ?_⟩
  · rw [publishes]
    rcases main looping loads place with before | rfl
    · exact (draining.loads looping loads before).mono counters
    · trivial
  · obtain ⟨returned, consumed, acks⟩ := draining.done (drained ▸ done)
    rw [publishes]
    refine ⟨?_, consumed.trans (counters _ rfl), acks.trans (counters _ rfl)⟩
    rw [Engine.PubsReturned, publisher]
    exact returned

/-- A step of the recorder that records no publish. -/
theorem Draining.recorder (draining : Draining job e) {ok : Engine F → Engine.Label → Prop}
    (reached : (engine F job).Reachable ok e) {label : Recorder.Label F}
    (stepped : e.recorder.step? job.plan label = some e'.recorder)
    (silent : label.made.filterMap Record.publishSeq = [])
    (main : ∀ looping loads, e'.main = .drained looping loads → e.main = .drained looping loads ∨ loads = [])
    (drained : e'.drained = e.drained) (publisher : e'.publisher = e.publisher) : Draining job e' := by
  refine draining.grows main drained publisher ?_ fun c allTime =>
    Recorder.counter_mono allTime (phased_of_reachable (calls_of_reachable reached)) stepped
  rw [Engine.publishes, Recorder.records_step stepped, List.filterMap_append, silent, List.append_nil]
  rfl

/-- `Run` loads the next counter. -/
theorem Draining.load (draining : Draining job e) (acking : job.cfg.ack = true)
    (reached : (engine F job).Reachable Engine.AtMostOnce e)
    (unfailed : e.Unfailed job) {looping : Bool} {loads : List ℕ} {counter : Counter}
    (place : e.main = .drained looping loads) (next : drained job.cfg.ack loads = .inl counter) :
    Loaded e.publishes e.recorder.stats.counter (loads ++ [e.recorder.stats.counter counter]) := by
  have returned : e.PubsReturned job := (placed_of_reachable reached).published (by rw [place]; rfl)
  have loaded := draining.loads looping loads place
  rw [acking] at next
  match loads, loaded with
  | [], _ =>
    cases next
    exact le_rfl
  | [consumed], loaded =>
    cases next
    exact ⟨loaded, allPublished_eq reached returned⟩
  | [consumed, published], ⟨loaded, all⟩ =>
    simp only [drained] at next
    split_ifs at next with covered
    cases next
    exact ⟨(all ▸ covered).trans loaded, le_rfl⟩
  | [_, _, acks], ⟨consumed, acked⟩ =>
    cases next
    exact ⟨consumed, acked, (settled_of_reachable reached unfailed returned).allDelivered_eq reached consumed⟩
  | _ :: _ :: _ :: _ :: _, _ => cases next

/-- `drained` returns true when the acknowledgements cover all messages. -/
theorem Draining.result (draining : Draining job e) (acking : job.cfg.ack = true) {looping : Bool} {loads : List ℕ}
    (place : e.main = .drained looping loads) (result : drained job.cfg.ack loads = .inr true) :
    e.publishes ≤ e.recorder.stats.counter .allConsumed ∧ e.publishes ≤ e.recorder.stats.counter .allAcks := by
  have loaded := draining.loads looping loads place
  rw [acking] at result
  match loads, loaded with
  | [consumed, published], _ =>
    simp only [drained] at result
    split_ifs at result
    cases result
  | _ :: _ :: acks :: delivered :: _, ⟨consumed, acked, all⟩ =>
    simp only [drained, Sum.inr.injEq, decide_eq_true_eq] at result
    exact ⟨consumed, (all ▸ result).trans acked⟩

private theorem Draining.directs (draining : Draining job e) (acking : job.cfg.ack = true)
    (reached : (engine F job).Reachable Engine.AtMostOnce e)
    (unfailed : e.Unfailed job) (directs : Directs job e e') : Draining job e' := by
  have same (c : Counter) (_ : c.allTime = true) := le_refl (e.recorder.stats.counter c)
  cases directs with
  | abort | exceeded | measure | stop | published | interrupt | drain | skip | again | loadPublished | loadConsumed
  | noDrops | shutdown | close | join | fail | succeed =>
    exact draining.grows (by simp) rfl rfl rfl same
  | begin place begun => exact draining.recorder reached begun rfl (by simp) rfl rfl
  | @storeDrops pub con _ place =>
    have stored : e.recorder.step? job.plan (.storeDrops (pub - con)) = some _ := rfl
    exact draining.recorder reached stored rfl (by simp) rfl rfl
  | load place next =>
    refine ⟨fun looping' loads' at_ => ?_, draining.done⟩
    cases at_
    exact draining.load acking reached unfailed place next
  | @drained looping loads place result =>
    refine ⟨fun looping' loads' at_ => ?_, fun _ => ?_⟩
    · cases looping <;> cases at_
      trivial
    · exact ⟨(placed_of_reachable reached).published (by rw [place]; rfl), draining.result acking place result⟩
  | undrained place result goes =>
    refine draining.grows ?_ rfl rfl rfl same
    rcases goes with rfl | rfl | rfl <;> simp

theorem draining_of_reachable (acking : job.cfg.ack = true) (reached : (engine F job).Reachable Engine.AtMostOnce e)
    (unfailed : e.Unfailed job) : Draining job e := by
  revert unfailed
  refine reached.invariant (P := fun e => e.Unfailed job → Draining job e) ?_ ?_
  · refine fun _ => ⟨fun looping loads place => ?_, nofun⟩
    simp only [engine] at place
    split at place <;> cases place
  intro e e' label before known _ stepped unfailed
  cases acts_of_step stepped with
  | @publisher p slot label e' listed idle publishes =>
    have inside : p < job.publishers.length := (List.getElem?_eq_some_iff.1 listed).1
    have draining := known (publishes.unfailed unfailed)
    -- a publisher that acts has not returned, so that nothing has been loaded
    have acting : ¬e.PubsReturned job := fun returned => by
      obtain ⟨err, place⟩ := returned p inside
      cases publishes <;> simp_all
    have main : e'.main = e.main := by cases publishes <;> rfl
    have drained : e'.drained = e.drained := by cases publishes <;> rfl
    refine ⟨fun looping loads place => ?_, fun done => ?_⟩
    · refine absurd ((placed_of_reachable before).published ?_) acting
      rw [← main, place]
      rfl
    · exact absurd (draining.done (drained ▸ done)).1 acting
  | consumer _ _ consumes =>
    cases consumes with
    | deliver place recorded | ack place recorded =>
      exact (known unfailed).recorder before recorded rfl (fun _ _ => .inl) rfl rfl
    | _ => exact (known unfailed).grows (fun _ _ => .inl) rfl rfl rfl fun _ _ => le_rfl
  | main _ directs =>
    have same : e'.publisher = e.publisher := by cases directs <;> rfl
    rw [Engine.Unfailed, same] at unfailed
    exact (known unfailed).directs acking before unfailed directs
  | sampler _ samples =>
    cases samples with
    | sample _ _ begun => exact (known unfailed).recorder before begun rfl (fun _ _ => .inl) rfl rfl
    | _ => exact (known unfailed).grows (fun _ _ => .inl) rfl rfl rfl fun _ _ => le_rfl
  | run ran => exact (known unfailed).recorder before ran rfl (fun _ _ => .inl) rfl rfl
  | cancel => exact (known unfailed).grows (fun _ _ => .inl) rfl rfl rfl fun _ _ => le_rfl

/-- Once `drained` has returned true, every message has been recorded as delivered and acknowledged, and no consumer
is between receiving one and completing its acknowledgement. -/
theorem drained_sound (F : Type) [Field F] [LinearOrder F] (job : Job) (acking : job.cfg.ack = true) (e : Engine F)
    (reached : (engine F job).Reachable Engine.AtMostOnce e)
    (unfailed : e.Unfailed job) (done : e.drained = true) :
    (e.recorder.records.filterMap Record.publishSeq).Perm (e.recorder.records.filterMap Record.deliverSeq) ∧
      e.recorder.stats.counter .allDelivered = (e.recorder.records.filterMap Record.publishSeq).length ∧
      (e.received.map seqOf).Perm (e.recorder.records.filterMap Record.ackSeq) ∧
      ∀ c < job.consumers.length, (e.consumer c).inHand = none ∧ (e.consumer c).inAck = none := by
  obtain ⟨returned, consumed, acks⟩ := (draining_of_reachable acking reached unfailed).done done
  have settled := settled_of_reachable reached unfailed returned
  obtain ⟨all, noAck, noHand⟩ := settled.acked_eq reached acks
  have received := settled.received
  rw [noHand, add_zero] at received
  have delivered : e.recorder.seqs Record.publishSeq = e.recorder.seqs Record.deliverSeq :=
    le_antisymm (all ▸ (Multiset.le_add_right _ _).trans settled.acked) (received ▸ settled.sent)
  refine ⟨Multiset.coe_eq_coe.1 delivered, settled.allDelivered_eq reached consumed,
    Multiset.coe_eq_coe.1 (received.trans (delivered.symm.trans all.symm)), fun c inside => ?_⟩
  exact ⟨census_eq_zero.1 noHand c inside, census_eq_zero.1 noAck c inside⟩

/-- One message is published, delivered and acknowledged, and `Run` finds the run drained. -/
def drainedOnce : List Engine.Label :=
  publication ++ [.publisher 0 .select] ++ delivery 1 14 ++ [.consumer 0 (.ack 5)] ++ List.replicate 6 (.run 1) ++
    [.main .pubDone] ++ List.replicate 6 (.main .next)

theorem drained_sound_once :
    ((engine ℚ (onePair 1 true)).replay Engine.AtMostOnce drainedOnce).drained = true ∧
      ((engine ℚ (onePair 1 true)).replay Engine.AtMostOnce drainedOnce).recorder.stats.counter .allDelivered = 1 := by
  have done : ((engine ℚ (onePair 1 true)).replay Engine.AtMostOnce drainedOnce).drained = true := by decide +kernel
  have counted := (drained_sound ℚ (onePair 1 true) rfl _ (.of_replay drainedOnce) (by decide +kernel) done).2.1
  exact ⟨done, counted.trans (by decide +kernel)⟩

end GolangMQ.Bench
