import GolangMQ.Bench.Budget
import GolangMQ.Bench.Deliveries

/-! # Duplicates

Workers swap the entry of a sequence number in `seen` before they record its delivery, so that of all deliveries of one
number exactly one is recorded as the first.
-/

namespace GolangMQ.Bench

open Machine

variable {F : Type} [Field F] [LinearOrder F] {job : Job} {e e' : Engine F}

private theorem Job.total_lt (job : Job) : job.total < 2 ^ 63 := by
  have bound := (job.cfg.publishers * job.cfg.msgs).toInt_lt
  rw [Job.total, Int64.toNatClampNeg]
  omega

/-- The number of the message that a consumer has received is one of the budget, and so is its index. -/
def ConsumePlace.Numbered (total : ℕ) : ConsumePlace F → Prop
  | received body => 1 ≤ seqOf body ∧ seqOf body ≤ total
  | located seq idx _ => idx = seq.toInt64 - 1 ∧ 1 ≤ seq.toNat ∧ seq.toNat ≤ total
  | _ => True

/-- The entries of `seen` are those of the first deliveries, and there is one for every number delivered. -/
structure Deduped (job : Job) (e : Engine F) : Prop where
  length : e.seen.length = job.total
  held : ∀ c, (e.consumer c).Numbered job.total
  nodup : (e.recorder.records.filterMap Record.freshSeq).Nodup
  seen : ∀ k, e.seen.getD k false = true ↔ k + 1 ∈ e.recorder.records.filterMap Record.freshSeq
  marked : ∀ s ∈ e.recorder.records.filterMap Record.deliverSeq, s ∈ e.recorder.records.filterMap Record.freshSeq

/-- A step that records no delivery. -/
theorem Deduped.same (deduped : Deduped job e) (seen : e'.seen = e.seen)
    (held : ∀ c, (e'.consumer c).Numbered job.total)
    (fresh : e'.recorder.records.filterMap Record.freshSeq = e.recorder.records.filterMap Record.freshSeq)
    (deliver : e'.recorder.records.filterMap Record.deliverSeq = e.recorder.records.filterMap Record.deliverSeq) :
    Deduped job e' :=
  ⟨by rw [seen]; exact deduped.length, held, by rw [fresh]; exact deduped.nodup,
    by rw [seen, fresh]; exact deduped.seen, by rw [fresh, deliver]; exact deduped.marked⟩

/-- A consumer that moves on, and the others that stay. -/
theorem Deduped.held_update (deduped : Deduped job e) {c : ℕ} {place : ConsumePlace F}
    (numbered : place.Numbered job.total) : ∀ d, (Function.update e.consumer c place d).Numbered job.total :=
  (Function.forall_update_iff e.consumer fun _ other => other.Numbered job.total).2
    ⟨numbered, fun d _ => deduped.held d⟩

/-- The swap decides which delivery is the first one. -/
theorem Deduped.deliver (deduped : Deduped job e) {c : ℕ} {slot : ChannelSlot} {seq : UInt64} {idx : Int64}
    {delLatUs : F}
    {next : ConsumePlace F} {recorder : Recorder F} (place : e.consumer c = .located seq idx delLatUs)
    (after : next.Numbered job.total)
    (recorded : e.recorder.step? job.plan
      (.record (job.consumerId c) (.deliver slot seq.toNat delLatUs (swapSeen e.seen idx).2)) = some recorder) :
    Deduped job { e.consumerTo c next with recorder, seen := (swapSeen e.seen idx).1 } := by
  have numbered := deduped.held c
  rw [place] at numbered
  obtain ⟨rfl, positive, inside⟩ := numbered
  have bound := deduped.length
  have swapped := swapSeen_eq positive (bound ▸ inside) (bound ▸ job.total_lt)
  have index : seq.toNat - 1 + 1 = seq.toNat := Nat.sub_add_cancel positive
  have before := deduped.seen (seq.toNat - 1)
  rw [index] at before
  have records := Recorder.records_step recorded
  rw [swapped] at records ⊢
  have delivered : recorder.records.filterMap Record.deliverSeq =
      e.recorder.records.filterMap Record.deliverSeq ++ [seq.toNat] := by
    rw [records, List.filterMap_append]
    rfl
  have held := deduped.held_update (c := c) after
  have entry (k : ℕ) : (e.seen.set (seq.toNat - 1) true).getD k false = true ↔
      e.seen.getD k false = true ∨ k + 1 = seq.toNat := by
    by_cases same : seq.toNat - 1 = k
    · subst same
      have within : seq.toNat - 1 < e.seen.length := by omega
      simp [within, index]
    · have other : k + 1 ≠ seq.toNat := by omega
      simp [same, other]
  cases dup : e.seen.getD (seq.toNat - 1) false with
  | true =>
    have fresh : recorder.records.filterMap Record.freshSeq = e.recorder.records.filterMap Record.freshSeq := by
      rw [records, List.filterMap_append, dup]
      exact List.append_nil _
    have known := before.1 dup
    refine ⟨by simpa using bound, held, by rw [fresh]; exact deduped.nodup, fun k => ?_, fun s member => ?_⟩
    · rw [fresh, ← deduped.seen k]
      exact (entry k).trans (or_iff_left_of_imp fun same => (deduped.seen k).2 (same ▸ known))
    · rw [delivered] at member
      rw [fresh]
      rcases List.mem_append.1 member with old | new
      · exact deduped.marked s old
      · rwa [List.mem_singleton.1 new]
  | false =>
    have fresh : recorder.records.filterMap Record.freshSeq =
        e.recorder.records.filterMap Record.freshSeq ++ [seq.toNat] := by
      rw [records, List.filterMap_append, dup]
      rfl
    have unknown : seq.toNat ∉ e.recorder.records.filterMap Record.freshSeq := fun member => by
      rw [before.2 member] at dup
      contradiction
    refine ⟨by simpa using bound, held, ?_, fun k => ?_, fun s member => ?_⟩
    · rw [fresh]
      exact deduped.nodup.append (List.nodup_singleton _) (List.disjoint_singleton.2 unknown)
    · rw [fresh, List.mem_append, List.mem_singleton, ← deduped.seen k]
      exact entry k
    · rw [delivered] at member
      rw [fresh]
      rcases List.mem_append.1 member with old | new
      · exact List.mem_append.2 (.inl (deduped.marked s old))
      · exact List.mem_append.2 (.inr new)

private theorem Deduped.step (deduped : Deduped job e) (length : e.sentTimes.length = job.total) {label : Engine.Label}
    (numbered : ∀ c body, label = .consumer c (.receive body) → 1 ≤ seqOf body ∧ seqOf body ≤ job.total)
    (acts : Acts job e label e') : Deduped job e' := by
  have unrecorded {recorder : Recorder F} {l : Recorder.Label F}
    (recorded : e.recorder.step? job.plan l = some recorder)
      (read : Record F → Option ℕ) (silent : l.made.filterMap read = []) :
      recorder.records.filterMap read = e.recorder.records.filterMap read := by
    rw [Recorder.records_step recorded, List.filterMap_append, silent, List.append_nil]
  cases acts with
  | publisher _ _ publishes =>
    cases publishes with
    | publish _ recorded =>
      exact deduped.same rfl deduped.held (unrecorded recorded _ rfl) (unrecorded recorded _ rfl)
    | _ => exact deduped.same rfl deduped.held rfl rfl
  | @consumer c slot label e' listed _ consumes =>
    cases consumes with
    | @receive body place => exact deduped.same rfl (deduped.held_update (numbered c body rfl)) rfl rfl
    | finish place => exact deduped.same rfl (deduped.held_update trivial) rfl rfl
    | @locate body recvNanos idx delLatUs place found =>
      have inside := deduped.held c
      rw [place] at inside
      refine deduped.same rfl (deduped.held_update ⟨?_, inside⟩) rfl rfl
      exact locate_eq inside.1 (length ▸ inside.2) (length ▸ job.total_lt) found
    | deliver place recorded =>
      refine deduped.deliver place ?_ recorded
      split <;> trivial
    | ack place recorded =>
      exact deduped.same rfl (deduped.held_update trivial) (unrecorded recorded _ rfl) (unrecorded recorded _ rfl)
    | fail place => exact deduped.same rfl (deduped.held_update trivial) rfl rfl
  | main _ directs =>
    cases directs with
    | begin _ begun => exact deduped.same rfl deduped.held (unrecorded begun _ rfl) (unrecorded begun _ rfl)
    | _ => exact deduped.same rfl deduped.held rfl rfl
  | sampler _ samples =>
    cases samples with
    | sample _ _ begun => exact deduped.same rfl deduped.held (unrecorded begun _ rfl) (unrecorded begun _ rfl)
    | _ => exact deduped.same rfl deduped.held rfl rfl
  | run ran => exact deduped.same rfl deduped.held (unrecorded ran _ rfl) (unrecorded ran _ rfl)
  | cancel => exact deduped.same rfl deduped.held rfl rfl

theorem deduped_of_reachable {ok : Engine F → Engine.Label → Prop}
    (numbered : ∀ e c body, (engine F job).Reachable ok e → ok e (.consumer c (.receive body)) →
      1 ≤ seqOf body ∧ seqOf body ≤ job.total)
    (reached : (engine F job).Reachable ok e) : Deduped job e := by
  refine reached.invariant (P := Deduped job) ?_ @fun e e' label before deduped allowed stepped => ?_
  · refine ⟨by simp [engine], fun _ => trivial, List.nodup_nil, fun k => ?_,
      fun s member => absurd member List.not_mem_nil⟩
    have unseen : (List.replicate job.total false).getD k false = false := by
      by_cases inside : k < job.total <;> simp [inside]
    exact iff_of_false (fun seen => absurd (unseen.symm.trans seen) Bool.false_ne_true) List.not_mem_nil
  · exact deduped.step (budgeted_of_reachable before).length
      (fun c body same => numbered e c body before (same ▸ allowed)) (acts_of_step stepped)

/-- Deliveries carry bodies that `encodeHeader` made for the numbers of the budget. -/
def Engine.Encoded (job : Job) (_ : Engine F) : Engine.Label → Prop
  | .consumer _ (.receive delivered) => ∃ body seq sendNanos, headerLen ≤ body.length ∧ 1 ≤ seq.toNat ∧
      seq.toNat ≤ job.total ∧ encodeHeader body seq sendNanos = some delivered
  | _ => True

/-- Every delivery has been recorded: no consumer has one in hand or is inside a record call. -/
def Engine.AllRecorded (job : Job) (e : Engine F) : Prop :=
  ∀ c < job.consumers.length, (e.consumer c).inHand = none ∧ e.recorder.todo (job.consumerId c) = []

instance (job : Job) (e : Engine F) : Decidable (e.AllRecorded job) :=
  inferInstanceAs (Decidable (∀ c < job.consumers.length, (e.consumer c).inHand = none ∧ _ = []))

theorem countP_eq_length_filterMap {α β : Type} (read : α → Option β) (p : α → Bool)
    (agree : ∀ a, p a = (read a).isSome) (l : List α) : l.countP p = (l.filterMap read).length := by
  rw [List.length_filterMap_eq_countP]
  exact List.countP_congr fun a _ => by rw [agree a]

/-- `allConsumed` counts the distinct messages and `allDelivered` the deliveries, and the header loses nothing. -/
theorem consumed_counts_distinct (F : Type) [Field F] [LinearOrder F] (job : Job) (e : Engine F)
    (reached : (engine F job).Reachable (Engine.Encoded job) e) (recorded : e.AllRecorded job) :
    e.recorder.stats.counter .allDelivered = e.received.length ∧
      e.recorder.stats.counter .allConsumed = (e.received.map seqOf).toFinset.card ∧
      (∀ body ∈ e.received, e.recorder.records.countP (·.freshSeq = some (seqOf body)) = 1) ∧
      ∀ (body : List UInt8) (seq : UInt64) (sendNanos : Int64), headerLen ≤ body.length →
        ∃ encoded, encodeHeader body seq sendNanos = some encoded ∧ decodeHeader encoded = (seq, sendNanos) := by
  have deduped : Deduped job e := by
    refine deduped_of_reachable (fun e c delivered _ encoded => ?_) reached
    obtain ⟨body, seq, sendNanos, -, positive, inside, written⟩ := encoded
    rw [seqOf, decodeHeader_encodeHeader written]
    exact ⟨positive, inside⟩
  have flow := flow_of_reachable reached
  have calls := calls_of_reachable reached
  have idle (i : ℕ) (kind : job.kind i = .consumer) : e.recorder.todo i = [] := by
    obtain ⟨c, inside, rfl⟩ := Job.of_kind_consumer kind
    exact (recorded c inside).2
  have called := called_of_reachable (fun _ _ allowed => allowed) calls
  have counter (c : Counter) (allTime : c.allTime = true) (callers : (Update.add c : Update F).callers = [.consumer]) :
      e.recorder.stats.counter c = e.recorder.records.countP c.arrivals := by
    have arrived : Arrived job.plan c e.recorder := arrived_of_reachable allTime calls
    rwa [Arrived, called.load_eq_zero fun i mine => idle i (List.mem_singleton.1 (callers ▸ mine)), add_zero] at arrived
  have none : census ConsumePlace.inHand job.consumers.length e.consumer = 0 :=
    census_eq_zero.2 fun c inside => (recorded c inside).1
  have delivered : (e.received.map seqOf).Perm (e.recorder.records.filterMap Record.deliverSeq) := by
    have all := flow.received
    rw [none, add_zero] at all
    exact Multiset.coe_eq_coe.1 all
  have fresh (s : ℕ) : s ∈ e.recorder.records.filterMap Record.freshSeq ↔ s ∈ e.received.map seqOf := by
    rw [delivered.mem_iff]
    refine ⟨fun member => ?_, deduped.marked s⟩
    obtain ⟨record, listed, read⟩ := List.mem_filterMap.1 member
    exact List.mem_filterMap.2 ⟨record, listed, Record.deliverSeq_of_freshSeq read⟩
  refine ⟨?_, ?_, fun body member => ?_, fun body seq sendNanos long => ?_⟩
  · rw [counter .allDelivered rfl rfl, countP_eq_length_filterMap Record.deliverSeq _
      fun record => by cases record <;> rfl,
      ← delivered.length_eq, List.length_map]
  · rw [counter .allConsumed rfl rfl, countP_eq_length_filterMap Record.freshSeq _ fun record => by
        cases record with
        | deliver _ _ _ dup => cases dup <;> rfl
        | _ => rfl,
      ← List.toFinset_card_of_nodup deduped.nodup]
    exact congrArg Finset.card (Finset.ext fun s => by simpa using fresh s)
  · have once := List.count_eq_one_of_mem deduped.nodup ((fresh _).2 (List.mem_map_of_mem member))
    rw [List.count_filterMap] at once
    exact Eq.trans (List.countP_congr fun record _ => by simp) once
  · exact ⟨_, if_neg (Nat.not_lt.2 long), decodeHeader_encodeHeader (if_neg (Nat.not_lt.2 long))⟩

/-- One publisher and one consumer on one channel. -/
def onePair (msgs : Int64) (ack : Bool) : Job := ⟨{ msgs, size := 16, ack }, defaultTopology⟩

/-- The body of a message that was sent at time 1. -/
def bodyOf (seq : ℕ) : List UInt8 := bigEndian 8 seq ++ bigEndian 8 1

/-- The publisher sends its next message and records it. -/
def publication : List Engine.Label :=
  [.publisher 0 .select, .publisher 0 .allocate, .publisher 0 (.stamp 1), .publisher 0 .publish] ++
    List.replicate 8 (.run 0)

/-- The consumer receives a body and records it. -/
def delivery (seq runs : ℕ) : List Engine.Label :=
  [.consumer 0 (.receive (bodyOf seq)), .consumer 0 (.locate 9), .consumer 0 .deliver] ++ List.replicate runs (.run 1)

private theorem encoded_delivery {job : Job} {seq : UInt64} {runs : ℕ} {label : Engine.Label} (positive : 1 ≤ seq.toNat)
    (inside : seq.toNat ≤ job.total) (encodes : encodeHeader (List.replicate 16 0) seq 1 = some (bodyOf seq.toNat))
    (member : label ∈ delivery seq.toNat runs) (state : Engine F) : state.Encoded job label := by
  simp only [delivery, List.mem_append, List.mem_cons, List.mem_replicate, List.not_mem_nil, or_false] at member
  rcases member with (rfl | rfl | rfl) | ⟨-, rfl⟩
  · exact ⟨_, seq, 1, by decide, positive, inside, encodes⟩
  all_goals trivial

/-- The second message arrives before and after the first one. -/
def redelivered : List Engine.Label := delivery 2 14 ++ delivery 1 14 ++ delivery 2 13

theorem consumed_counts_distinct_redelivered :
    ∃ e : Engine ℚ, (engine ℚ (onePair 2 false)).Reachable (Engine.Encoded (onePair 2 false)) e ∧
      e.received.length = 3 ∧ e.recorder.stats.counter .allConsumed = (e.received.map seqOf).toFinset.card ∧
      e.recorder.stats.counter .allConsumed = 2 := by
  have facts : ((engine ℚ (onePair 2 false)).run? (engine ℚ (onePair 2 false)).init redelivered).map (fun e =>
      (decide (e.AllRecorded (onePair 2 false)), e.received.length, e.recorder.stats.counter .allConsumed)) =
      some (true, 3, 2) := by decide +kernel
  obtain ⟨e, ran, same⟩ := Option.map_eq_some_iff.1 facts
  simp only [Prod.mk.injEq, decide_eq_true_eq] at same
  obtain ⟨recorded, length, consumed⟩ := same
  have admitted : ∀ label ∈ redelivered, ∀ state : Engine ℚ, state.Encoded (onePair 2 false) label := by
    have first : encodeHeader (List.replicate 16 0) 1 1 = some (bodyOf 1) := by decide +kernel
    have second : encodeHeader (List.replicate 16 0) 2 1 = some (bodyOf 2) := by decide +kernel
    intro label member state
    rw [redelivered, List.mem_append, List.mem_append] at member
    rcases member with (member | member) | member
    · exact encoded_delivery (by decide) (by decide +kernel) second member state
    · exact encoded_delivery (by decide) (by decide +kernel) first member state
    · exact encoded_delivery (by decide) (by decide +kernel) second member state
  have reached : (engine ℚ (onePair 2 false)).Reachable (Engine.Encoded (onePair 2 false)) e := .of_run admitted ran
  exact ⟨e, reached, length, (consumed_counts_distinct ℚ _ e reached recorded).2.1, consumed⟩

end GolangMQ.Bench
