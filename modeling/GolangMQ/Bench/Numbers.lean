import GolangMQ.Bench.Duplicates

/-! # The sequence numbers of a faithful run

When every delivery is of a message that a publisher of the run has sent, the workers hold and record only numbers
that have been handed out, and first deliveries are at most as many as publishes.
-/

namespace GolangMQ.Bench

open Machine

variable {F : Type} [Field F] [LinearOrder F] {job : Job} {e e' : Engine F}

/-- A delivery is of a message that a publisher has handed to `Publish`. -/
def Engine.Faithful (e : Engine F) : Engine.Label → Prop
  | .consumer _ (.receive body) => body ∈ e.sent
  | _ => True

instance (e : Engine F) (label : Engine.Label) : Decidable (e.Faithful label) := by
  unfold Engine.Faithful
  split <;> infer_instance

/-- The number that a publisher holds, and the one that a consumer holds. -/
def PublishPlace.holds : PublishPlace → Option ℕ
  | stamping _ seq | publishing _ seq => some seq.toNat
  | _ => none

def ConsumePlace.holds : ConsumePlace F → Option ℕ
  | received body => some (seqOf body)
  | located seq _ _ | acking seq => some seq.toNat
  | _ => none

/-- The numbers in use have been handed out, and those sent are of the budget. -/
structure Allotted (job : Job) (e : Engine F) : Prop where
  publishers : ∀ p, ∀ s ∈ (e.publisher p).place.holds, 1 ≤ s ∧ s ≤ e.recorder.seqGen
  consumers : ∀ c, ∀ s ∈ (e.consumer c).holds, s ≤ e.recorder.seqGen
  sent : ∀ body ∈ e.sent, 1 ≤ seqOf body ∧ seqOf body ≤ job.total ∧ seqOf body ≤ e.recorder.seqGen
  received : ∀ body ∈ e.received, body ∈ e.sent

private theorem Allotted.publishes (allotted : Allotted job e) (length : e.sentTimes.length = job.total) {p : ℕ}
    {slot : ChannelSlot} {label : Engine.PublishLabel} (publishes : Publishes job e p slot label e') :
    Allotted job e' := by
  have others {publisher : ℕ → PublishWorker} {worker : PublishWorker} {seqGen : ℕ}
      (updated : publisher = Function.update e.publisher p worker) (grows : e.recorder.seqGen ≤ seqGen)
      (here : ∀ s ∈ worker.place.holds, 1 ≤ s ∧ s ≤ seqGen) :
      ∀ q, ∀ s ∈ (publisher q).place.holds, 1 ≤ s ∧ s ≤ seqGen := by
    rw [updated, Function.forall_update_iff e.publisher fun _ other => ∀ s ∈ other.place.holds, 1 ≤ s ∧ s ≤ seqGen]
    exact ⟨here, fun q _ s held => (allotted.publishers q s held).imp id fun bound => bound.trans grows⟩
  have more := Nat.le_succ e.recorder.seqGen
  have sent (body : List UInt8) (member : body ∈ e.sent) :=
    (allotted.sent body member).imp id fun bound => bound.imp id fun bound => bound.trans more
  have consumers (c s : ℕ) (held : s ∈ (e.consumer c).holds) := (allotted.consumers c s held).trans more
  cases publishes with
  | finish place | fail place =>
    exact ⟨others rfl le_rfl (by simp [PublishPlace.holds]), allotted.consumers, allotted.sent, allotted.received⟩
  | select place =>
    exact ⟨others rfl le_rfl (by simp [PublishPlace.holds]), allotted.consumers, allotted.sent, allotted.received⟩
  | refuse place exceeded => exact ⟨others rfl more (by simp [PublishPlace.holds]), consumers, sent, allotted.received⟩
  | allocate place within =>
    refine ⟨others rfl more ?_, consumers, sent, allotted.received⟩
    intro s held
    cases held
    refine ⟨Nat.one_le_iff_ne_zero.2 fun zero => ?_, (UInt64.toNat_ofNat' ▸ Nat.mod_le _ _)⟩
    have none : UInt64.ofNat (e.recorder.seqGen + 1) = 0 := UInt64.toNat_inj.1 zero
    simp [exceedsBudget, none] at within
  | @stamp i seq sendNanos body place inside encoded =>
    have held := allotted.publishers p seq.toNat (by simp [place, PublishPlace.holds])
    have value : seqOf body = seq.toNat := by rw [seqOf, decodeHeader_encodeHeader encoded]
    refine ⟨others rfl le_rfl fun s member => ?_, allotted.consumers, fun other member => ?_, fun other member =>
      List.mem_append.2 (.inl (allotted.received other member))⟩
    · cases member
      exact held
    · rcases List.mem_append.1 member with old | new
      · exact allotted.sent other old
      · have positive : (1 : UInt64) ≤ seq := UInt64.le_iff_toNat_le.2 held.1
        rw [UInt64.toNat_sub_of_le _ _ positive, length] at inside
        have one : (1 : UInt64).toNat = 1 := rfl
        rw [List.mem_singleton.1 new, value]
        exact ⟨held.1, by omega, held.2⟩
  | publish place recorded =>
    have same := Recorder.seqGen_step recorded (by simp)
    refine ⟨others rfl same.ge (by simp [PublishPlace.holds]), fun c s held => ?_, fun body member => ?_,
      allotted.received⟩
    · exact (allotted.consumers c s held).trans same.ge
    · exact (allotted.sent body member).imp id fun bound => bound.imp id fun bound => bound.trans same.ge

private theorem Allotted.consumes (allotted : Allotted job e) {c : ℕ} {slot : ChannelSlot} {label : Engine.ConsumeLabel}
    (faithful : ∀ body, label = .receive body → body ∈ e.sent) (consumes : Consumes job e c slot label e') :
    Allotted job e' := by
  have others {consumer : ℕ → ConsumePlace F} {place : ConsumePlace F} {seqGen : ℕ}
      (updated : consumer = Function.update e.consumer c place) (grows : e.recorder.seqGen ≤ seqGen)
      (here : ∀ s ∈ place.holds, s ≤ seqGen) : ∀ d, ∀ s ∈ (consumer d).holds, s ≤ seqGen := by
    rw [updated, Function.forall_update_iff e.consumer fun _ other => ∀ s ∈ other.holds, s ≤ seqGen]
    exact ⟨here, fun d _ s held => (allotted.consumers d s held).trans grows⟩
  have recorded {i : ℕ} {record : Record F} {place : ConsumePlace F} {recorder : Recorder F} {seen : List Bool}
      (recorded : e.recorder.step? job.plan (.record i record) = some recorder)
      (here : ∀ s ∈ place.holds, s ≤ e.recorder.seqGen) :
      Allotted job { e.consumerTo c place with recorder, seen } := by
    have same := Recorder.seqGen_step recorded (by simp)
    refine ⟨fun p s held => ?_, others rfl same.ge fun s held => (here s held).trans same.ge, fun body member => ?_,
      allotted.received⟩
    · exact (allotted.publishers p s held).imp id fun bound => bound.trans same.ge
    · exact (allotted.sent body member).imp id fun bound => bound.imp id fun bound => bound.trans same.ge
  cases consumes with
  | @receive body place =>
    have sent := faithful body rfl
    refine ⟨allotted.publishers, others rfl le_rfl fun s held => ?_, allotted.sent, fun other member => ?_⟩
    · cases held
      exact (allotted.sent body sent).2.2
    · rcases List.mem_append.1 member with old | new
      · exact allotted.received other old
      · rwa [List.mem_singleton.1 new]
  | finish place | fail place =>
    exact ⟨allotted.publishers, others rfl le_rfl (by simp [ConsumePlace.holds]), allotted.sent, allotted.received⟩
  | @locate body recvNanos idx delLatUs place found =>
    refine ⟨allotted.publishers, others rfl le_rfl fun s held => ?_, allotted.sent, allotted.received⟩
    cases held
    exact allotted.consumers c _ (by rw [place]; rfl)
  | @deliver seq idx delLatUs _ place stepped =>
    refine recorded stepped fun s held => ?_
    split at held <;> cases held
    exact allotted.consumers c _ (by rw [place]; rfl)
  | ack place stepped => exact recorded stepped (by simp [ConsumePlace.holds])

theorem allotted_of_reachable {ok : Engine F → Engine.Label → Prop}
    (faithful : ∀ e label, ok e label → e.Faithful label)
    (reached : (engine F job).Reachable ok e) : Allotted job e := by
  refine reached.invariant (P := Allotted job) ?_ @fun e e' label before allotted allowed stepped => ?_
  · refine ⟨fun p s held => ?_, fun c s held => ?_, fun body member => ?_, fun body member => ?_⟩
    · exact absurd held (Option.not_mem_none s)
    · exact absurd held (Option.not_mem_none s)
    · exact absurd member List.not_mem_nil
    · exact absurd member List.not_mem_nil
  have silent {recorder : Recorder F} (same : recorder.seqGen = e.recorder.seqGen) : Allotted job { e with recorder } :=
    ⟨by rw [same]; exact allotted.publishers, by rw [same]; exact allotted.consumers, by rw [same]; exact allotted.sent,
      allotted.received⟩
  cases acts_of_step stepped with
  | publisher _ _ publishes => exact allotted.publishes (budgeted_of_reachable before).length publishes
  | @consumer c slot label _ _ _ consumes =>
    refine allotted.consumes (fun body receives => ?_) consumes
    have sent := faithful e _ allowed
    rw [receives] at sent
    exact sent
  | main _ directs =>
    cases directs with
    | begin _ begun =>
      obtain ⟨publishers, consumers, sent, received⟩ := silent (Recorder.seqGen_step begun (by simp))
      exact ⟨publishers, consumers, sent, received⟩
    | _ => exact ⟨allotted.publishers, allotted.consumers, allotted.sent, allotted.received⟩
  | sampler _ samples =>
    cases samples with
    | sample _ _ begun =>
      obtain ⟨publishers, consumers, sent, received⟩ := silent (Recorder.seqGen_step begun (by simp))
      exact ⟨publishers, consumers, sent, received⟩
    | _ => exact ⟨allotted.publishers, allotted.consumers, allotted.sent, allotted.received⟩
  | run ran => exact silent (Recorder.seqGen_step ran (by simp))
  | cancel => exact ⟨allotted.publishers, allotted.consumers, allotted.sent, allotted.received⟩

/-- The workers of a faithful run record only numbers that have been handed out. -/
theorem allocated_of_reachable {ok : Engine F → Engine.Label → Prop}
    (faithful : ∀ e label, ok e label → e.Faithful label)
    (reached : (engine F job).Reachable ok e) : (recorder F job.plan).Reachable Recorder.Allocated e.recorder := by
  refine recorder_of_reachable (fun e l before drives => ?_) reached
  have allotted := allotted_of_reachable faithful before
  cases l with
  | record i record =>
    rcases drives.2 record (List.mem_singleton_self _) with ⟨p, i, seq, place, same⟩ |
      ⟨c, seq, idx, latUs, place, same⟩ |
      ⟨c, seq, place, same⟩
    · exact (allotted.publishers p _ (by rw [place, ← same]; rfl)).2
    · exact allotted.consumers c _ (by rw [place, ← same]; rfl)
    · exact allotted.consumers c _ (by rw [place, ← same]; rfl)
  | _ => trivial

/-- In a faithful run the first deliveries are of messages that have been published. -/
theorem fresh_le_published {ok : Engine F → Engine.Label → Prop} (faithful : ∀ e label, ok e label → e.Faithful label)
    (reached : (engine F job).Reachable ok e) (unfailed : e.Unfailed job) (returned : e.PubsReturned job) :
    e.recorder.seqs Record.freshSeq ≤ e.recorder.seqs Record.publishSeq := by
  have allotted := allotted_of_reachable faithful reached
  have deduped : Deduped job e := deduped_of_reachable (fun e c body before allowed => by
    have sent := (allotted_of_reachable faithful before).sent body (faithful _ _ allowed)
    exact ⟨sent.1, sent.2.1⟩) reached
  have flow := flow_of_reachable reached
  have sent := flow.sent unfailed
  rw [returned.census_inPublish, add_zero] at sent
  refine (Multiset.le_iff_subset (Multiset.coe_nodup.2 deduped.nodup)).2 fun s member => ?_
  obtain ⟨record, listed, read⟩ := List.mem_filterMap.1 (Multiset.mem_coe.1 member)
  have delivers : s ∈ e.recorder.seqs Record.deliverSeq :=
    Multiset.mem_coe.2 (List.mem_filterMap.2 ⟨record, listed, Record.deliverSeq_of_freshSeq read⟩)
  have received : s ∈ (e.received.map seqOf : Multiset ℕ) := flow.received ▸ Multiset.mem_add.2 (.inl delivers)
  obtain ⟨body, delivered, rfl⟩ := List.mem_map.1 (Multiset.mem_coe.1 received)
  rw [← sent]
  exact Multiset.mem_coe.2 (List.mem_map_of_mem (allotted.received body delivered))

end GolangMQ.Bench
