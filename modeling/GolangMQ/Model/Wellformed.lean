import GolangMQ.Model.References

/-! # What holds in every state of every run

Three facts that need no assumption about tags or writes: the two maps of a consumer have the same
keys and store every message under its own tag; the local variables of a dispatcher fit the queue it
serves, as long as it holds the lock; and the tag counter is the number of tags taken, modulo its
width. `Wellformed` puts them together with the validity of references.
-/

namespace GolangMQ.Model

/-- `inflightTags` has the keys of `pendingMessages`, and each message is stored under its own tag. -/
structure Consumer.Books (c : Consumer) : Prop where
  keyed : c.pendingMessages.KeyedBy Message.deliveryTag
  tags : ∀ tag, tag ∈ c.inflightTags ↔ tag ∈ c.pendingMessages

private theorem mem_foldl_erase {order : List Message} {tags : Finset UInt16} {tag : UInt16} :
    tag ∈ order.foldl (fun tags msg => tags.erase msg.deliveryTag) tags ↔
      tag ∈ tags ∧ ∀ msg ∈ order, msg.deliveryTag ≠ tag := by
  induction order generalizing tags with
  | nil => simp
  | cons msg rest ih =>
    rw [List.foldl_cons, ih, Finset.mem_erase, List.forall_mem_cons]
    constructor
    · rintro ⟨⟨other, member⟩, others⟩
      exact ⟨member, other.symm, others⟩
    · rintro ⟨member, other, others⟩
      exact ⟨⟨other.symm, member⟩, others⟩

namespace Consumer.Books

variable {c : Consumer}

private theorem new (tag : String) (queue : QueueRef) (channel : ChannelRef) :
    Books { tag, queue, channel } :=
  ⟨AList.keyedBy_empty, fun _ => by simp⟩

protected theorem record (books : c.Books) (msg : Message) : (c.record msg).Books where
  keyed := books.keyed.insert msg
  tags tag := by simp only [Consumer.record, Finset.mem_insert, AList.mem_insert, books.tags]

protected theorem release (books : c.Books) (tag : UInt16) : (c.release tag).Books where
  keyed := books.keyed.erase tag
  tags other := by simp only [Consumer.release, Finset.mem_erase, AList.mem_erase, books.tags]

/-- Unregistering visits every pending message, so no tag is left. -/
theorem inflightTags_drain (books : c.Books) {order : List Message} (all : order.Perm c.pendingMessages.values) :
    (c.drain order).inflightTags = ∅ := by
  refine Finset.eq_empty_of_forall_notMem fun tag member => ?_
  obtain ⟨inflight, others⟩ := mem_foldl_erase.mp member
  obtain ⟨msg, found⟩ := Option.isSome_iff_exists.mp (AList.lookup_isSome.mpr ((books.tags tag).mp inflight))
  exact others msg (all.mem_iff.mpr (AList.mem_values_iff.mpr ⟨tag, found⟩)) (books.keyed.key_eq found)

protected theorem drain (books : c.Books) {order : List Message} (all : order.Perm c.pendingMessages.values) :
    (c.drain order).Books where
  keyed := AList.keyedBy_empty
  tags tag := by
    rw [books.inflightTags_drain all]
    simp [Consumer.drain]

/-- A tag in flight has a message, and the message carries it. -/
theorem lookup_of_mem (books : c.Books) {tag : UInt16} (inflight : tag ∈ c.inflightTags) :
    ∃ msg, c.pendingMessages.lookup tag = some msg ∧ msg.deliveryTag = tag := by
  obtain ⟨msg, found⟩ := Option.isSome_iff_exists.mp (AList.lookup_isSome.mpr ((books.tags tag).mp inflight))
  exact ⟨msg, found, books.keyed.key_eq found⟩

end Consumer.Books

variable {w w' : World} {label : Label} {effect : Effect}

/-- The bookkeeping of every consumer stays consistent. -/
private theorem books_step (books : ∀ c, (w.consumer c).Books) (store : w'.toStore = w.toStore.apply effect)
    (happens : Happens w label w' effect) (c : ConsumerRef) : (w'.consumer c).Books := by
  rw [store]
  have changed := w.toStore.onConsumer effect c
  generalize (w.toStore.apply effect).consumer c = consumer at changed ⊢
  cases changed with
  | same => exact books c
  | newConsumer => exact .new ..
  | unregisterConsumer =>
    cases happens with
    | unregisterConsumer free member all advances => exact (books c).drain all
  | ack | nack | rollback => exact (books c).release _
  | record => exact (books c).record _

/-- What the local variables of a dispatcher in a given phase say about its queue. -/
def World.Phase (w : World) (q : QueueRef) : Dispatcher → Prop
  | .scanning passed => (w.queue q).messages ≠ [] ∧ ∀ c ∈ passed, c ∈ (w.queue q).consumers
  | .selected c => (w.queue q).messages ≠ [] ∧ c ∈ (w.queue q).consumers
  | .waiting .noMessage => (w.queue q).messages = []
  | .writing c _ | .failed c _ => c < w.consumer.size ∧ (w.consumer c).queue = q
  | _ => True

namespace World

variable {q : QueueRef} {phase : Dispatcher}

/-- The dispatcher of a queue that has not been declared has not moved. -/
theorem inside_of_phase (stands : (w.queue q).dispatcher = phase) (moved : phase ≠ .top) : q < w.queue.size := by
  by_contra outside
  rw [w.queue.beyond q (Nat.le_of_not_lt outside)] at stands
  exact moved stands.symm

/-- Outside the lock only the identity of a consumer matters. -/
theorem Phase.of_unlocked (before : w.Phase q phase) (unlocked : phase.holdsLock = false)
    (extension : w.toStore.Extends w'.toStore) : w'.Phase q phase := by
  cases phase with
  | writing c msg | failed c msg =>
    exact ⟨before.1.trans_le extension.consumers, (extension.queue before.1).trans before.2⟩
  | top | parked => trivial
  | scanning | selected | waiting => contradiction

private theorem Phase.of_same (before : w.Phase q phase) (extension : w.toStore.Extends w'.toStore)
    (messages : (w'.queue q).messages = (w.queue q).messages)
    (consumers : (w'.queue q).consumers = (w.queue q).consumers) : w'.Phase q phase := by
  cases locked : phase.holdsLock with
  | false => exact before.of_unlocked locked extension
  | true =>
    cases phase with
    | scanning | selected => simpa only [Phase, messages, consumers] using before
    | waiting site =>
      cases site with
      | noMessage => exact messages.trans before
      | noConsumer => trivial
    | top | parked | writing | failed => contradiction

end World

/-- A dispatcher's local variables fit its queue: what it relies on changes under the lock only. -/
private theorem phase_step (refs : Refs w) (phases : ∀ q, w.Phase q (w.queue q).dispatcher)
    (store : w'.toStore = w.toStore.apply effect) (happens : Happens w label w' effect) (q : QueueRef) :
    w'.Phase q (w'.queue q).dispatcher := by
  have extension := w.toStore.extends_apply effect
  have changed := w.toStore.onQueue effect q
  rw [← store] at extension changed
  generalize new : w'.queue q = queue at changed ⊢
  cases changed with
  | same => exact (phases q).of_same extension (by rw [new]) (by rw [new])
  | newQueue | deliver | rollback => trivial
  | takeTag | ack | nack => exact (phases _).of_same extension (by rw [new]; rfl) (by rw [new]; rfl)
  | enqueue | registerConsumer | unregisterConsumer | requeue =>
    cases happens
    exact (phases _).of_unlocked ‹_› extension
  | signal =>
    have kept := (phases q).of_same extension (by rw [new]; rfl) (by rw [new]; rfl)
    simp only [Queue.signal]
    split
    · trivial
    · exact kept
  | dispatcher =>
    have messages : (w'.queue q).messages = (w.queue q).messages := by rw [new]
    have consumers : (w'.queue q).consumers = (w.queue q).consumers := by rw [new]
    cases happens with
    | lock phase rests =>
      dsimp only
      split
      · next empty => exact messages.trans empty
      · next some_ => exact ⟨messages ▸ some_, by simp⟩
    | probe phase member rests =>
      have before := phases q
      rw [phase] at before
      dsimp only
      split
      · exact ⟨messages ▸ before.1, consumers ▸ member⟩
      · refine ⟨messages ▸ before.1, fun c passed => consumers ▸ ?_⟩
        rcases List.mem_cons.mp passed with rfl | passed
        · exact member
        · exact before.2 c passed
    | exhausted | wait | resume => trivial
    | failed phase rests =>
      have before := phases q
      rw [phase] at before
      exact ⟨before.1.trans_le extension.consumers, (extension.queue before.1).trans before.2⟩
  | record =>
    cases happens with
    | record phase head rests =>
      have before := phases q
      rw [phase] at before
      have known := refs.members q _ before.2
      exact ⟨known.1.trans_le extension.consumers, (extension.queue known.1).trans known.2⟩

/-- The counter of `Publish` has gone round as often as tags were taken. -/
private theorem nextTag_step (counters : ∀ q, (w.queue q).nextTag = UInt16.ofNat ((w.queue q).log.tagged + 1))
    (store : w'.toStore = w.toStore.apply effect) (q : QueueRef) :
    (w'.queue q).nextTag = UInt16.ofNat ((w'.queue q).log.tagged + 1) := by
  rw [store]
  have changed := w.toStore.onQueue effect q
  generalize (w.toStore.apply effect).queue q = queue at changed ⊢
  cases changed with
  | newQueue => rfl
  | takeTag =>
    simp only [Queue.takeTag, counters q]
    exact (UInt16.ofNat_add _ 1).symm
  | _ => exact counters _

/-- The state of a run: valid references, consistent books, fitting dispatchers, counted tags. -/
structure Wellformed (w : World) : Prop extends Refs w where
  books : ∀ c, (w.consumer c).Books
  phases : ∀ q, w.Phase q (w.queue q).dispatcher
  nextTag : ∀ q, (w.queue q).nextTag = UInt16.ofNat ((w.queue q).log.tagged + 1)

theorem Wellformed.phase (wellformed : Wellformed w) {q : QueueRef} {phase : Dispatcher}
    (stands : (w.queue q).dispatcher = phase) : w.Phase q phase :=
  stands ▸ wellformed.phases q

private theorem Wellformed.init : Wellformed broker.init :=
  ⟨Refs.init, fun _ => .new .., fun _ => trivial, fun _ => rfl⟩

theorem Wellformed.step (wellformed : Wellformed w) (stepped : w.step? label = some w') : Wellformed w' := by
  obtain ⟨effect, store, happens⟩ := World.happens_of_step stepped
  exact ⟨wellformed.toRefs.step stepped, books_step wellformed.books store happens,
    phase_step wellformed.toRefs wellformed.phases store happens, nextTag_step wellformed.nextTag store⟩

/-- An effect touches the consumers of no other queue than the one it is about. -/
theorem Wellformed.consumer_of_other (wellformed : Wellformed w) (store : w'.toStore = w.toStore.apply effect)
    (happens : Happens w label w' effect) {q : QueueRef} (other : w.toStore.target effect ≠ some q)
    {c : ConsumerRef} (member : c ∈ (w.queue q).consumers) : w'.consumer c = w.consumer c := by
  obtain ⟨inside, mine⟩ := wellformed.members q c member
  have changed := w.toStore.onConsumer effect c
  rw [store]
  generalize (w.toStore.apply effect).consumer c = consumer at changed ⊢
  cases changed with
  | same => rfl
  | newConsumer => exact absurd inside (Nat.lt_irrefl _)
  | unregisterConsumer | nack => exact absurd (congrArg some mine) other
  | ack =>
    cases happens with
    | ack free found =>
      have theirs := (wellformed.members _ c found).2
      exact absurd (congrArg some (theirs.symm.trans mine)) other
  | record =>
    cases happens with
    | record phase =>
      have theirs := (wellformed.members _ c (wellformed.phase phase).2).2
      exact absurd (congrArg some (theirs.symm.trans mine)) other
  | rollback =>
    cases happens with
    | rollback phase =>
      exact absurd (congrArg some ((wellformed.phase phase).2.symm.trans mine)) other

/-- Every state of every run is well formed. -/
theorem wellformed_of_reachable {ok : World → Label → Prop} (reached : broker.Reachable ok w) : Wellformed w :=
  reached.invariant Wellformed.init fun _ wellformed _ stepped => wellformed.step stepped

end GolangMQ.Model
