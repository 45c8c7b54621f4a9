import GolangMQ.Delivery.Refinement

/-! # No message is lost, and none is duplicated by an intact rollback

Both results are the ledger's, read back through the refinement. Losing nothing needs only that tags do
not repeat. Duplicating nothing needs one thing more: `dispatchLoop` writes outside the lock and undoes a
failed write without looking whether the delivery is still there to be undone. A connection that closes
while its deliver frame is being written is enough to break it.
-/

namespace GolangMQ.Model

open Custody Machine

variable {w : World} {q : QueueRef}

/-- The first 65536 stamps are different. -/
theorem stamp_injOn {i j : ℕ} (left : i < 65536) (right : j < 65536) (same : stamp i = stamp j) : i = j := by
  have values := congrArg UInt16.toNat same
  simp only [stamp, UInt16.toNat_ofNat'] at values
  omega

theorem distinct_of_bound (bounded : (w.queue q).log.tagged ≤ 65535) : Ledger.Distinct stamp (w.ledger q) := by
  refine List.Nodup.map_on ?_ List.nodup_range
  intro i left j right same
  have within : ∀ {n}, n ∈ List.range (w.ledger q).issued → n < 65536 := fun member =>
    (List.mem_range.mp member).trans_le (bounded.trans (by decide))
  exact stamp_injOn (within left) (within right) same

private theorem ledger_init (q : QueueRef) : (broker.init).ledger q = Ledger.initial := by
  have empty : (fun c => (broker.init.consumer c).held q) = fun _ => 0 := by
    funext c
    change Consumer.held q default = 0
    unfold Consumer.held
    split <;> rfl
  exact ledger_at rfl empty rfl rfl

/-- The invariant rule for ledgers: what every operation keeps holds of every queue in every run. -/
theorem ledger_invariant {ok : World → Label → Prop} {P : Ledger Message ConsumerRef → Prop}
    (initial : P Ledger.initial)
    (preserved : ∀ {w w' : World} {label : Label} {effect : Effect} {q : QueueRef} {op : Op Message ConsumerRef},
      broker.Reachable ok w → ok w label → Happens w label w' effect → Mirrors q effect op →
      Ledger.Step Message.deliveryTag stamp (w.ledger q) op (w'.ledger q) → P (w.ledger q) → P (w'.ledger q))
    (reached : broker.Reachable ok w) : ∀ q, P (w.ledger q) := by
  refine reached.invariant (P := fun w => ∀ q, P (w.ledger q)) (fun q => ledger_init q ▸ initial) ?_
  intro source target label before kept met stepped q
  obtain ⟨effect, store, happens⟩ := World.happens_of_step stepped
  rcases ledger_step (wellformed_of_reachable before) store happens q with same | ⟨op, step, mirrors⟩
  · exact same ▸ kept q
  · exact preserved before met happens mirrors step (kept q)

theorem sound_of_reachable {ok : World → Label → Prop} (reached : broker.Reachable ok w) (q : QueueRef) :
    Ledger.Sound Message.deliveryTag stamp (w.ledger q) :=
  ledger_invariant Ledger.sound_initial (fun _ _ _ _ step sound => sound.step step) reached q

/-- Tags taken are the messages enqueued and those a `Publish` is about to enqueue. -/
theorem tagged_eq {ok : World → Label → Prop} (reached : broker.Reachable ok w) (q : QueueRef) :
    (w.queue q).log.tagged = (w.queue q).log.enqueued.length + (w.transit q).card := by
  have counted := congrArg Multiset.card (sound_of_reachable reached q).stamps
  simpa [World.ledger, Queue.ledger] using counted.symm

theorem covered_of_reachable {ok : World → Label → Prop} (reached : broker.Reachable ok w) :
    ∀ q, Ledger.Distinct stamp (w.ledger q) → Ledger.Covered (w.ledger q) := by
  refine ledger_invariant (P := fun k => Ledger.Distinct stamp k → Ledger.Covered k) ?_ ?_ reached
  · intro _ m member
    exact absurd member List.not_mem_nil
  · intro w w' label effect q op before _ _ _ step covered distinct
    exact (covered (distinct.before step)).step (sound_of_reachable before q) step distinct

/-- No message is lost: as long as tags do not repeat, an enqueued message that is not settled is in the
buffer, with a consumer of the queue, or in the hands of a `HandleNack` that is about to put it back. -/
theorem no_message_lost (reached : broker.Reachable anyStep w) (bounded : (w.queue q).log.tagged ≤ 65535)
    {entry : Entry} (enqueued : entry ∈ (w.queue q).log.enqueued)
    (unsettled : entry.message ∉ (w.queue q).log.settled) :
    entry.message ∈ (w.queue q).messages ∨
      (∃ c ∈ (w.queue q).consumers,
        (w.consumer c).pendingMessages.lookup entry.message.deliveryTag = some entry.message) ∨
      ∃ k, .requeue q entry.message ∈ w.todo k := by
  have wellformed := wellformed_of_reachable reached
  have covered := covered_of_reachable reached q (distinct_of_bound bounded)
  rcases covered entry.message (List.mem_map_of_mem enqueued) with settled | queued | ⟨c, member, holds⟩ | limbo
  · exact absurd settled unsettled
  · exact .inl queued
  · have mine := (wellformed.members q c member).2
    exact .inr (.inl ⟨c, member, (mem_held (wellformed.books c) mine).mp holds⟩)
  · obtain ⟨k, -, pending, waiting, carries⟩ := mem_tally.mp limbo
    refine .inr (.inr ⟨k, ?_⟩)
    cases pending with
    | requeue j msg =>
      simp only [Section.limbo] at carries
      split_ifs at carries with mine
      obtain rfl := Option.some.inj carries
      exact mine ▸ waiting
    | _ => contradiction

/-- A message that has been recorded for a consumer and whose deliver frame is still being written. -/
theorem no_message_lost_while_writing :
    let w := broker.replay anyStep (topology ++ consuming ++ publishing [7] ++ dispatching 0 0)
    let msg : Message := ⟨1, [7], "ex", "key"⟩
    (⟨0, 0, msg⟩ : Entry) ∈ (w.queue 0).log.enqueued ∧ msg ∉ (w.queue 0).messages ∧
      (msg ∈ (w.queue 0).messages ∨
        (∃ c ∈ (w.queue 0).consumers, (w.consumer c).pendingMessages.lookup msg.deliveryTag = some msg) ∨
        ∃ k, .requeue 0 msg ∈ w.todo k) :=
  have enqueued := by decide
  ⟨enqueued, by decide, no_message_lost (.of_replay _) (by decide) enqueued (by decide)⟩

/-- The rollback of a failed write finds the delivery that it undoes. -/
def IntactRollback (w : World) : Label → Prop
  | .rollback q =>
    ∀ delivery ∈ (w.queue q).dispatcher.delivery,
      (w.consumer delivery.1).pendingMessages.lookup delivery.2.deliveryTag = some delivery.2
  | _ => True

instance (w : World) : ∀ label, Decidable (IntactRollback w label)
  | .rollback _ => inferInstanceAs (Decidable (∀ delivery ∈ _, _))
  | .accept | .request .. | .disconnect _ | .run .. | .lock _ | .probe .. | .exhausted _ | .record _ | .wait _
  | .resume _ | .written _ | .failed _ => .isTrue trivial

/-- The messages of the queue inside the broker: its buffer, and what its consumers hold. -/
def World.live (w : World) (q : QueueRef) : Multiset Message :=
  (w.queue q).messages + ∑ c ∈ (w.queue q).consumers, ((w.consumer c).pendingMessages.values : Multiset Message)

private theorem live_eq (wellformed : Wellformed w) (q : QueueRef) : w.live q = (w.ledger q).live := by
  unfold World.live Ledger.live World.ledger Queue.ledger
  congr 1
  apply Finset.sum_congr rfl
  intro c member
  exact (if_pos (wellformed.members q c member).2).symm

theorem intact_of_mirrors (wellformed : Wellformed w) {w' : World} {label : Label} {effect : Effect}
    {op : Op Message ConsumerRef} (intact : IntactRollback w label) (happens : Happens w label w' effect)
    (mirrors : Mirrors q effect op) : Ledger.Intact (w.ledger q) op := by
  cases op with
  | retract c m =>
    cases happens with
    | rollback failed rests =>
      obtain ⟨rfl, rfl, rfl⟩ := mirrors
      refine (mem_held (wellformed.books _) (wellformed.phase failed).2).mpr (intact (_, _) ?_)
      rw [failed]
      rfl
    | _ => contradiction
  | _ => trivial

theorem conserved_of_reachable (reached : broker.Reachable IntactRollback w) :
    ∀ q, Ledger.Distinct stamp (w.ledger q) → Ledger.Conserved (w.ledger q) := by
  refine ledger_invariant (P := fun k => Ledger.Distinct stamp k → Ledger.Conserved k) (fun _ => rfl) ?_ reached
  intro w w' label effect q op before intact happens mirrors step conserved distinct
  exact (conserved (distinct.before step)).step (sound_of_reachable before q) step
    (intact_of_mirrors (wellformed_of_reachable before) intact happens mirrors) distinct

/-- Nothing is duplicated or resurrected, in runs that roll back only deliveries still pending. -/
theorem no_duplicate_of_intact (reached : broker.Reachable IntactRollback w)
    (bounded : (w.queue q).log.tagged ≤ 65535) (msg : Message) :
    (w.live q).count msg ≤ 1 ∧ (msg ∈ (w.queue q).log.settled → msg ∉ w.live q) := by
  have distinct := distinct_of_bound bounded
  have once := (conserved_of_reachable reached q distinct).count_custody_le (sound_of_reachable reached q) distinct msg
  rw [Ledger.custody, Multiset.count_add, Multiset.count_add, ← live_eq (wellformed_of_reachable reached)] at once
  refine ⟨by omega, fun settled member => ?_⟩
  have settledOnce : 0 < (w.ledger q).settled.count msg := Multiset.count_pos.mpr settled
  have liveOnce : 0 < (w.live q).count msg := Multiset.count_pos.mpr member
  omega

/-- A failed write that is rolled back before anything else happens to the delivery. -/
theorem no_duplicate_after_rollback :
    let w := broker.replay IntactRollback
      (topology ++ consuming ++ publishing [7] ++ dispatching 0 0 ++ [.failed 0, .rollback 0])
    let msg : Message := ⟨1, [7], "ex", "key"⟩
    (w.queue 0).messages = [msg] ∧ (w.live 0).count msg ≤ 1 ∧
      (msg ∈ (w.queue 0).log.settled → msg ∉ w.live 0) :=
  ⟨by decide, no_duplicate_of_intact (.of_replay _) (by decide) _⟩

/-- A connection closes while its deliver frame is being written: `unregisterConsumer` puts the message
back, and so does the rollback of the write. -/
def closedWhileWriting : List Label :=
  topology ++ consuming ++ publishing [7] ++ dispatching 0 0 ++
    [.disconnect 0, .run 0 { refs := [0] }, .run 0 { refs := [0] },
      .run 0 { messages := [⟨1, [7], "ex", "key"⟩] }, .run 0 {}, .run 0 {}, .failed 0, .rollback 0]

/-- Without the condition a message comes to be in its queue twice. -/
theorem duplicate_of_closed_while_writing :
    ¬ ∀ w, broker.Reachable anyStep w → ∀ q, (w.queue q).log.tagged ≤ 65535 → ∀ msg : Message,
      (w.live q).count msg ≤ 1 ∧ (msg ∈ (w.queue q).log.settled → msg ∉ w.live q) := by
  intro unique
  have once := unique (broker.replay anyStep closedWhileWriting) (.of_replay _) 0 (by decide) ⟨1, [7], "ex", "key"⟩
  have twice : ((broker.replay anyStep closedWhileWriting).live 0).count ⟨1, [7], "ex", "key"⟩ = 2 := by decide
  omega

end GolangMQ.Model
