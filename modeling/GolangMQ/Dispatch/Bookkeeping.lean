import GolangMQ.Delivery.Safety

/-! # The counter and the two maps of a consumer

`inflight` counts the pending deliveries because a tag is never recorded where it is pending already and
never released where it is not. The first holds while no tag is in custody twice, the second while
rollbacks undo only what is still pending. The prefetch limit is checked by `selectConsumer` and relied on
by the bookkeeping after it; in between the dispatcher holds the lock, and only `HandleNack` can reach the
consumer, which makes room.

When a failed write is one step with its dispatch, rollbacks are intact, so `atomicDispatch` has
consistent books as long as tags do not repeat.
-/

namespace GolangMQ.Model

open Custody Machine

/-- `inflight` is the number of pending deliveries and does not exceed the limit. -/
structure Consumer.Balanced (c : Consumer) : Prop where
  counted : c.inflight = c.pendingMessages.keys.length
  limited : c.inflight ≤ c.prefetch

namespace Consumer.Balanced

variable {c : Consumer}

private theorem new (tag : String) (queue : QueueRef) (channel : ChannelRef) :
    Balanced { tag, queue, channel } :=
  ⟨rfl, show (0 : ℤ) ≤ 10 by decide⟩

protected theorem record (balanced : c.Balanced) {msg : Message} (absent : msg.deliveryTag ∉ c.pendingMessages)
    (free : c.inflight < c.prefetch) : (c.record msg).Balanced where
  counted := by
    simp only [Consumer.record, AList.length_keys_insert absent, balanced.counted]
    rfl
  limited := free

protected theorem release (balanced : c.Balanced) {tag : UInt16} (present : tag ∈ c.pendingMessages) :
    (c.release tag).Balanced where
  counted := by
    have shrunk := AList.length_keys_erase present
    have counted := balanced.counted
    simp only [Consumer.release]
    omega
  limited := by
    have limited := balanced.limited
    simp only [Consumer.release]
    omega

private theorem foldl_sub_one (order : List Message) (inflight : ℤ) :
    order.foldl (fun inflight _ => inflight - 1) inflight = inflight - order.length := by
  induction order generalizing inflight with
  | nil => simp
  | cons msg rest ih =>
    rw [List.foldl_cons, ih, List.length_cons]
    push_cast
    omega

protected theorem drain (balanced : c.Balanced) {order : List Message}
    (all : order.Perm c.pendingMessages.values) : (c.drain order).Balanced := by
  have none : (c.drain order).inflight = 0 := by
    simp only [Consumer.drain, foldl_sub_one, all.length_eq, AList.length_values, balanced.counted, sub_self]
  have limited := balanced.limited
  have counted := balanced.counted
  refine ⟨none, ?_⟩
  rw [none]
  simp only [Consumer.drain]
  omega

end Consumer.Balanced

variable {w w' : World} {label : Label} {effect : Effect}

/-- Every consumer is balanced, and a selected one has room. -/
structure Bookkept (w : World) : Prop where
  balanced : ∀ c, (w.consumer c).Balanced
  room : ∀ q c, (w.queue q).dispatcher = .selected c → (w.consumer c).inflight < (w.consumer c).prefetch

/-- The tag of the message at the head of a queue is pending with none of its consumers. -/
theorem absent_of_head (wellformed : Wellformed w) {q : QueueRef} {c : ConsumerRef} {msg : Message}
    {rest : List Message} (exclusive : Ledger.Exclusive Message.deliveryTag (w.ledger q))
    (member : c ∈ (w.queue q).consumers) (head : (w.queue q).messages = msg :: rest) :
    msg.deliveryTag ∉ (w.consumer c).pendingMessages := by
  intro present
  have mine := (wellformed.members q c member).2
  obtain ⟨held, found⟩ := Option.isSome_iff_exists.mp (AList.lookup_isSome.mpr present)
  have key := (wellformed.books c).keyed.key_eq found
  refine exclusive.absent_of_head (k := w.ledger q) member head held ?_ key
  exact (mem_held (wellformed.books c) mine).mpr (key.symm ▸ found)

private theorem balanced_step (wellformed : Wellformed w)
    (exclusive : ∀ q, Ledger.Exclusive Message.deliveryTag (w.ledger q)) (intact : IntactRollback w label)
    (bookkept : Bookkept w) (store : w'.toStore = w.toStore.apply effect) (happens : Happens w label w' effect)
    (c : ConsumerRef) : (w'.consumer c).Balanced := by
  have balanced := bookkept.balanced c
  have changed := w.toStore.onConsumer effect c
  rw [store]
  generalize (w.toStore.apply effect).consumer c = consumer at changed ⊢
  cases changed with
  | same => exact balanced
  | newConsumer => exact .new ..
  | unregisterConsumer =>
    cases happens with
    | unregisterConsumer free member all => exact balanced.drain all
  | ack =>
    cases happens with
    | ack free member found => exact balanced.release (((wellformed.books c).tags _).mp found)
  | nack =>
    cases happens with
    | nack found => exact balanced.release (AList.lookup_isSome.mp (found ▸ rfl))
  | record =>
    cases happens with
    | record phase head =>
      exact balanced.record (absent_of_head wellformed (exclusive _) (wellformed.phase phase).2 head)
        (bookkept.room _ c phase)
  | rollback =>
    cases happens with
    | rollback phase =>
      have found := intact (_, _) (by rw [phase]; rfl)
      exact balanced.release (AList.lookup_isSome.mp (found ▸ rfl))

/-- Only a dispatcher that records a delivery for a consumer takes room from it. -/
private theorem inflight_le (store : w'.toStore = w.toStore.apply effect)
    (happens : Happens w label w' effect) {c : ConsumerRef} (inside : c < w.consumer.size)
    (other : ∀ q msg, effect ≠ .record q c msg) : (w'.consumer c).inflight ≤ (w.consumer c).inflight := by
  have changed := w.toStore.onConsumer effect c
  rw [store]
  generalize (w.toStore.apply effect).consumer c = consumer at changed ⊢
  cases changed with
  | same => exact Int.le_refl _
  | newConsumer => exact absurd inside (Nat.lt_irrefl _)
  | unregisterConsumer =>
    simp only [Consumer.drain, Consumer.Balanced.foldl_sub_one]
    omega
  | ack | nack | rollback =>
    simp only [Consumer.release]
    omega
  | record => exact absurd rfl (other _ _)

/-- A dispatcher comes to have selected a consumer by finding it free. -/
private theorem free_of_selected (store : w'.toStore = w.toStore.apply effect) (happens : Happens w label w' effect)
    {q : QueueRef} {c : ConsumerRef} (before : (w.queue q).dispatcher ≠ .selected c)
    (selected : (w'.queue q).dispatcher = .selected c) : (w'.consumer c).free := by
  have changed := w.toStore.onQueue effect q
  rw [store] at selected ⊢
  generalize (w.toStore.apply effect).queue q = queue at changed selected
  cases changed with
  | signal =>
    simp only [Queue.signal] at selected
    split at selected
    · contradiction
    · exact absurd selected before
  | dispatcher =>
    cases happens with
    | lock | exhausted | wait | resume | failed =>
      dsimp only at selected
      first | contradiction | (split at selected <;> contradiction)
    | probe phase member rests =>
      dsimp only at selected
      split at selected
      · next free =>
        cases selected
        exact free
      · contradiction
  | newQueue | record | deliver | rollback => contradiction
  | _ => exact absurd selected before

theorem room_step (wellformed : Wellformed w)
    (room : ∀ q c, (w.queue q).dispatcher = .selected c → (w.consumer c).inflight < (w.consumer c).prefetch)
    (store : w'.toStore = w.toStore.apply effect) (happens : Happens w label w' effect) (q : QueueRef) (c : ConsumerRef)
    (selected : (w'.queue q).dispatcher = .selected c) : (w'.consumer c).inflight < (w'.consumer c).prefetch := by
  by_cases before : (w.queue q).dispatcher = .selected c
  · have known := wellformed.members q c (wellformed.phase before).2
    -- The consumer belongs to this queue only, and its dispatcher has not moved on.
    have other : ∀ j msg, effect ≠ .record j c msg := by
      rintro j msg rfl
      cases happens with
      | record phase head rests =>
        obtain rfl : j = q := (wellformed.members j c (wellformed.phase phase).2).2.symm.trans known.2
        have queue : w'.queue j = (w.queue j).pop c msg := by
          rw [store]
          exact w.queue.cell_modify_self (·.pop c msg) (World.inside_of_phase before (by simp))
        rw [queue] at selected
        contradiction
    have extension := w.toStore.extends_apply effect
    rw [← store] at extension
    rw [extension.prefetch known.1]
    exact (inflight_le store happens known.1 other).trans_lt (room q c before)
  · simpa [Consumer.free] using free_of_selected store happens before selected

private theorem Bookkept.init : Bookkept broker.init :=
  ⟨fun _ => .new .., fun _ _ selected => by contradiction⟩

private theorem Bookkept.step (bookkept : Bookkept w) (wellformed : Wellformed w)
    (exclusive : ∀ q, Ledger.Exclusive Message.deliveryTag (w.ledger q)) (intact : IntactRollback w label)
    (stepped : w.step? label = some w') : Bookkept w' := by
  obtain ⟨effect, store, happens⟩ := World.happens_of_step stepped
  exact ⟨balanced_step wellformed exclusive intact bookkept store happens,
    room_step wellformed bookkept.room store happens⟩

/-- A consumer that its queue does not list has nothing in flight. -/
theorem Bookkept.inflight_of_not_mem (bookkept : Bookkept w) {c : ConsumerRef}
    (sound : Ledger.Sound Message.deliveryTag stamp (w.ledger (w.consumer c).queue))
    (outside : c ∉ (w.queue (w.consumer c).queue).consumers) : (w.consumer c).inflight = 0 := by
  have nothing : (w.consumer c).held (w.consumer c).queue = 0 := sound.confined c outside
  rw [Consumer.held, if_pos rfl, Multiset.coe_eq_zero] at nothing
  rw [(bookkept.balanced c).counted, ← AList.length_values, nothing]
  rfl

section Atomic

/-- The steps of a failed write. -/
def Label.fails : Label → Bool
  | .failed _ | .rollback _ => true
  | _ => false

/-- A step of the broker, or a dispatch whose write fails and is rolled back at once. -/
inductive AtomicLabel where
  | step (label : Label)
  | failedDispatch (q : QueueRef)

/-- The broker in which a failed write and its rollback are one step with the dispatch. -/
def atomicDispatch : Machine World AtomicLabel where
  init := {}
  step? w
    | .step label => if label.fails then none else w.step? label
    | .failedDispatch q => broker.run? w [.record q, .failed q, .rollback q]

/-- After a delivery has been recorded and its write has failed, it is still pending. -/
private theorem pending_of_failed {q : QueueRef} {recorded failed : World} (wellformed : Wellformed w)
    (first : w.step? (.record q) = some recorded) (second : recorded.step? (.failed q) = some failed) :
    IntactRollback failed (.rollback q) := by
  obtain ⟨effect, store, happens⟩ := World.happens_of_step first
  obtain ⟨effect', store', happens'⟩ := World.happens_of_step second
  cases happens with
  | @record _ _ c msg rest phase head rests =>
    have known := wellformed.members q c (wellformed.phase phase).2
    have inside := World.inside_of_phase phase (by simp)
    have writing : (recorded.queue q).dispatcher = .writing c msg := by
      rw [store]
      exact congrArg Queue.dispatcher (w.queue.cell_modify_self (·.pop c msg) inside)
    have consumer : recorded.consumer c = (w.consumer c).record msg := by
      rw [store]
      exact w.consumer.cell_modify_self (·.record msg) known.1
    cases happens' with
    | failed phase' rests' =>
      obtain ⟨rfl, rfl⟩ : c = _ ∧ msg = _ := by simpa using writing.symm.trans phase'
      have stands : (failed.queue q).dispatcher = .failed c msg := by
        rw [store']
        exact congrArg Queue.dispatcher (recorded.queue.cell_modify_self ({ · with dispatcher := .failed c msg })
          (World.inside_of_phase writing (by simp)))
      have same : failed.consumer = recorded.consumer := by rw [store']; rfl
      intro delivery active
      rw [stands] at active
      obtain rfl := Option.some.inj active
      rw [same, consumer]
      exact AList.lookup_insert ..

/-- Every run with atomic failures is a run whose rollbacks are intact. -/
theorem intact_of_atomicDispatch (reached : atomicDispatch.Reachable anyStep w) :
    broker.Reachable IntactRollback w := by
  refine reached.invariant (P := broker.Reachable IntactRollback) ?_ ?_
  · exact .init
  intro source target label _ before _ stepped
  cases label with
  | step label =>
    simp only [atomicDispatch] at stepped
    split_ifs at stepped with fails
    refine before.step ?_ stepped
    cases label <;> trivial
  | failedDispatch q =>
    obtain ⟨recorded, first, stepped⟩ := Option.bind_eq_some_iff.mp stepped
    obtain ⟨failed, second, stepped⟩ := Option.bind_eq_some_iff.mp stepped
    obtain ⟨final, third, same⟩ := Option.bind_eq_some_iff.mp stepped
    cases same
    have intact := pending_of_failed (wellformed_of_reachable before) first second
    have met : IntactRollback source (.record q) ∧ IntactRollback recorded (.failed q) := ⟨trivial, trivial⟩
    exact ((before.step met.1 first).step met.2 second).step intact third

theorem bookkept_of_intact (reached : broker.Reachable IntactRollback w)
    (bounded : ∀ q, (w.queue q).log.tagged ≤ 65535) : Bookkept w := by
  refine reached.invariant (P := fun w => (∀ q, (w.queue q).log.tagged ≤ 65535) → Bookkept w)
    (fun _ => .init) ?_ bounded
  intro source target label before bookkept intact stepped bounded
  obtain ⟨effect, store, -⟩ := World.happens_of_step stepped
  have earlier : ∀ q, (source.queue q).log.tagged ≤ 65535 := fun q =>
    (source.toStore.tagged_le effect q).trans (store ▸ bounded q)
  refine (bookkept earlier).step (wellformed_of_reachable before) (fun q => ?_) intact stepped
  have distinct := distinct_of_bound (earlier q)
  exact (conserved_of_reachable before q distinct).exclusive (sound_of_reachable before q) distinct

/-- Only declared queues have taken tags. -/
theorem bounded_of_declared {bound : ℕ} (bounded : ∀ q < w.queue.size, (w.queue q).log.tagged ≤ bound) (q : QueueRef) :
    (w.queue q).log.tagged ≤ bound :=
  w.queue.forall_cell (P := (·.log.tagged ≤ bound)) (Nat.zero_le _) bounded q

/-- The books of every consumer are consistent and within the prefetch limit, and empty when the consumer
is not registered. -/
theorem consistent_books (reached : atomicDispatch.Reachable anyStep w)
    (bounded : ∀ q, (w.queue q).log.tagged ≤ 65535) (c : ConsumerRef) :
    let consumer := w.consumer c
    (∀ tag, tag ∈ consumer.inflightTags ↔ tag ∈ consumer.pendingMessages) ∧
      (∀ tag msg, consumer.pendingMessages.lookup tag = some msg → msg.deliveryTag = tag) ∧
      consumer.inflight = consumer.inflightTags.card ∧ consumer.inflight = consumer.pendingMessages.keys.length ∧
      0 ≤ consumer.inflight ∧ consumer.inflight ≤ consumer.prefetch ∧
      (c ∉ (w.queue consumer.queue).consumers → consumer.inflight = 0) := by
  have intact := intact_of_atomicDispatch reached
  have books := (wellformed_of_reachable intact).books c
  have bookkept := bookkept_of_intact intact bounded
  have counted := (bookkept.balanced c).counted
  have keys : (w.consumer c).inflightTags = (w.consumer c).pendingMessages.keys.toFinset := by
    ext tag
    rw [books.tags, AList.mem_keys, List.mem_toFinset]
  refine ⟨books.tags, fun _ _ => books.keyed.key_eq, ?_, counted, ?_, (bookkept.balanced c).limited,
    bookkept.inflight_of_not_mem (sound_of_reachable intact _)⟩
  · rw [counted, keys, List.toFinset_card_of_nodup (AList.keys_nodup _)]
  · omega

/-- One delivery has been written, and the write of the next one has failed. -/
def failedSecond : List AtomicLabel :=
  (topology ++ consuming ++ publishing [7] ++ publishing [8] ++ dispatching 0 0 ++
    [Label.written 0, .lock 0, .probe 0 0]).map .step ++ [.failedDispatch 0]

theorem consistent_books_after_failure :
    let w := atomicDispatch.replay anyStep failedSecond
    let consumer := w.consumer 0
    consumer.inflight = 1 ∧ (w.queue 0).messages = [⟨2, [8], "ex", "key"⟩] ∧
      consumer.inflight = consumer.inflightTags.card ∧ consumer.inflight ≤ consumer.prefetch :=
  have books := consistent_books (.of_replay failedSecond) (bounded_of_declared (by decide +kernel)) 0
  ⟨by decide +kernel, by decide +kernel, books.2.2.1, books.2.2.2.2.2.1⟩

end Atomic

end GolangMQ.Model
