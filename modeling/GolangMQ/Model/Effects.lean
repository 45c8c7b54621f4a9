import GolangMQ.Model.Operations

/-! # What an effect does to one object

Objects are only ever added, and what identifies one never changes: a queue keeps its name, a consumer
its tag, queue, channel and prefetch limit (`Store.Extends`). `OnQueue` and `OnConsumer` say what a
single queue or consumer can look like after an effect; an invariant that speaks of one object is
proved by cases on them.
-/

namespace GolangMQ.Model

/-- The fields of a consumer that are set once, by `NewConsumer`. -/
def Consumer.identity (c : Consumer) : String × QueueRef × ChannelRef × ℤ :=
  (c.tag, c.queue, c.channel, c.prefetch)

namespace Store

/-- Objects have been added at most, and the ones that were there are the same. -/
structure Extends (s s' : Store) : Prop where
  queues : s.queue.size ≤ s'.queue.size
  consumers : s.consumer.size ≤ s'.consumer.size
  name : ∀ q < s.queue.size, (s'.queue q).name = (s.queue q).name
  identity : ∀ c < s.consumer.size, (s'.consumer c).identity = (s.consumer c).identity

namespace Extends

variable {s s' s'' : Store}

theorem refl (s : Store) : s.Extends s := ⟨Nat.le_refl _, Nat.le_refl _, fun _ _ => rfl, fun _ _ => rfl⟩

private theorem trans (first : s.Extends s') (second : s'.Extends s'') : s.Extends s'' where
  queues := first.queues.trans second.queues
  consumers := first.consumers.trans second.consumers
  name q inside := (second.name q (inside.trans_le first.queues)).trans (first.name q inside)
  identity c inside := (second.identity c (inside.trans_le first.consumers)).trans (first.identity c inside)

theorem queue (extends_ : s.Extends s') {c : ConsumerRef} (inside : c < s.consumer.size) :
    (s'.consumer c).queue = (s.consumer c).queue :=
  congrArg (·.2.1) (extends_.identity c inside)

theorem channel (extends_ : s.Extends s') {c : ConsumerRef} (inside : c < s.consumer.size) :
    (s'.consumer c).channel = (s.consumer c).channel :=
  congrArg (·.2.2.1) (extends_.identity c inside)

theorem tag (extends_ : s.Extends s') {c : ConsumerRef} (inside : c < s.consumer.size) :
    (s'.consumer c).tag = (s.consumer c).tag :=
  congrArg (·.1) (extends_.identity c inside)

theorem prefetch (extends_ : s.Extends s') {c : ConsumerRef} (inside : c < s.consumer.size) :
    (s'.consumer c).prefetch = (s.consumer c).prefetch :=
  congrArg (·.2.2.2) (extends_.identity c inside)

end Extends

private theorem extends_modifyQueue (s : Store) (q : QueueRef) (f : Queue → Queue)
    (kept : ∀ queue, (f queue).name = queue.name) : s.Extends (s.modifyQueue q f) :=
  ⟨Nat.le_refl _, Nat.le_refl _, fun j _ => s.queue.observe_modify Queue.name q f (kept _) j, fun _ _ => rfl⟩

private theorem extends_modifyConsumer (s : Store) (c : ConsumerRef) (f : Consumer → Consumer)
    (kept : ∀ consumer, (f consumer).identity = consumer.identity) : s.Extends (s.modifyConsumer c f) :=
  ⟨Nat.le_refl _, Nat.le_refl _, fun _ _ => rfl,
    fun j _ => s.consumer.observe_modify Consumer.identity c f (kept _) j⟩

/-- Every effect keeps the objects there are. -/
theorem extends_apply (s : Store) (effect : Effect) : s.Extends (s.apply effect) := by
  cases effect with
  | silent => exact .refl s
  | newQueue name dlx dlxRoutingKey =>
    refine ⟨Nat.le_succ _, Nat.le_refl _, fun q inside => ?_, fun _ _ => rfl⟩
    exact congrArg Queue.name (s.queue.cell_alloc_of_ne _ (Nat.ne_of_lt inside))
  | newConsumer tag queue channel =>
    refine ⟨Nat.le_refl _, Nat.le_succ _, fun _ _ => rfl, fun c inside => ?_⟩
    exact congrArg Consumer.identity (s.consumer.cell_alloc_of_ne _ (Nat.ne_of_lt inside))
  | takeTag | enqueue | signal | registerConsumer | requeue | dispatcher | deliver =>
    exact s.extends_modifyQueue _ _ fun _ => rfl
  | unregisterConsumer | ack | nack | record | rollback =>
    refine .trans (s.extends_modifyQueue _ _ ?_) (extends_modifyConsumer _ _ _ ?_) <;> exact fun _ => rfl

/-- The queue behind one reference after an effect. -/
inductive OnQueue (s : Store) : Effect → QueueRef → Queue → Prop
  | same {effect : Effect} {q : QueueRef} : OnQueue s effect q (s.queue q)
  | newQueue {name dlx dlxRoutingKey : String} :
      OnQueue s (.newQueue name dlx dlxRoutingKey) s.queue.size { name, dlx, dlxRoutingKey }
  | takeTag {q : QueueRef} : OnQueue s (.takeTag q) q (s.queue q).takeTag
  | enqueue {q : QueueRef} {entry : Entry} : OnQueue s (.enqueue q entry) q ((s.queue q).enqueue entry)
  | signal {q : QueueRef} : OnQueue s (.signal q) q (s.queue q).signal
  | registerConsumer {c : ConsumerRef} :
      OnQueue s (.registerConsumer c) (s.consumer c).queue ((s.queue (s.consumer c).queue).registerConsumer c)
  | unregisterConsumer {c : ConsumerRef} {order : List Message} :
      OnQueue s (.unregisterConsumer c order) (s.consumer c).queue
        ((s.queue (s.consumer c).queue).unregisterConsumer c order)
  | ack {q : QueueRef} {c : ConsumerRef} {tag : UInt16} :
      OnQueue s (.ack q c tag) q ((s.queue q).settle ((s.consumer c).pendingMessages.lookup tag).toList)
  | nack {c : ConsumerRef} {msg : Message} {tag : UInt16} {requeue : Bool} :
      OnQueue s (.nack c msg tag requeue) (s.consumer c).queue
        ((s.queue (s.consumer c).queue).settle (if requeue then [] else [msg]))
  | requeue {q : QueueRef} {msg : Message} : OnQueue s (.requeue q msg) q ((s.queue q).pushFront msg)
  | dispatcher {q : QueueRef} {phase : Dispatcher} :
      OnQueue s (.dispatcher q phase) q { s.queue q with dispatcher := phase }
  | record {q : QueueRef} {c : ConsumerRef} {msg : Message} : OnQueue s (.record q c msg) q ((s.queue q).pop c msg)
  | deliver {q : QueueRef} {c : ConsumerRef} {msg : Message} :
      OnQueue s (.deliver q c msg) q ((s.queue q).deliver c (msg.deliver (s.consumer c).tag))
  | rollback {q : QueueRef} {c : ConsumerRef} {msg : Message} :
      OnQueue s (.rollback q c msg) q ((s.queue q).rollback msg)

/-- The consumer behind one reference after an effect. -/
inductive OnConsumer (s : Store) : Effect → ConsumerRef → Consumer → Prop
  | same {effect : Effect} {c : ConsumerRef} : OnConsumer s effect c (s.consumer c)
  | newConsumer {tag : String} {queue : QueueRef} {channel : ChannelRef} :
      OnConsumer s (.newConsumer tag queue channel) s.consumer.size { tag, queue, channel }
  | unregisterConsumer {c : ConsumerRef} {order : List Message} :
      OnConsumer s (.unregisterConsumer c order) c ((s.consumer c).drain order)
  | ack {q : QueueRef} {c : ConsumerRef} {tag : UInt16} :
      OnConsumer s (.ack q c tag) c ((s.consumer c).release tag)
  | nack {c : ConsumerRef} {msg : Message} {tag : UInt16} {requeue : Bool} :
      OnConsumer s (.nack c msg tag requeue) c ((s.consumer c).release tag)
  | record {q : QueueRef} {c : ConsumerRef} {msg : Message} :
      OnConsumer s (.record q c msg) c ((s.consumer c).record msg)
  | rollback {q : QueueRef} {c : ConsumerRef} {msg : Message} :
      OnConsumer s (.rollback q c msg) c ((s.consumer c).release msg.deliveryTag)

theorem onQueue (s : Store) (effect : Effect) (q : QueueRef) : s.OnQueue effect q ((s.apply effect).queue q) := by
  -- A write goes to one cell: either `q` is that cell, or nothing has changed.
  have modified (j : QueueRef) (f : Queue → Queue) (new : s.OnQueue effect j (f (s.queue j))) :
      s.OnQueue effect q ((s.queue.modify j f) q) := by
    rcases s.queue.cell_modify_eq_or j f q with kept | ⟨rfl, written⟩
    · rw [kept]
      exact .same
    · rw [written]
      exact new
  cases effect with
  | silent | newConsumer => exact .same
  | newQueue name dlx dlxRoutingKey =>
    by_cases fresh : q = s.queue.size
    · subst fresh
      rw [apply, Heap.cell_alloc_self]
      exact .newQueue
    · rw [apply, Heap.cell_alloc_of_ne _ _ fresh]
      exact .same
  | takeTag =>
    simp only [apply, modifyQueue]
    refine modified _ _ ?_
    exact .takeTag
  | enqueue =>
    simp only [apply, modifyQueue]
    refine modified _ _ ?_
    exact .enqueue
  | signal =>
    simp only [apply, modifyQueue]
    refine modified _ _ ?_
    exact .signal
  | registerConsumer =>
    simp only [apply, modifyQueue]
    refine modified _ _ ?_
    exact .registerConsumer
  | unregisterConsumer =>
    simp only [apply, modifyQueue, modifyConsumer]
    refine modified _ _ ?_
    exact .unregisterConsumer
  | ack =>
    simp only [apply, modifyQueue, modifyConsumer]
    refine modified _ _ ?_
    exact .ack
  | nack =>
    simp only [apply, modifyQueue, modifyConsumer]
    refine modified _ _ ?_
    exact .nack
  | requeue =>
    simp only [apply, modifyQueue]
    refine modified _ _ ?_
    exact .requeue
  | dispatcher =>
    simp only [apply, modifyQueue]
    refine modified _ _ ?_
    exact .dispatcher
  | record =>
    simp only [apply, modifyQueue, modifyConsumer]
    refine modified _ _ ?_
    exact .record
  | deliver =>
    simp only [apply, modifyQueue]
    refine modified _ _ ?_
    exact .deliver
  | rollback =>
    simp only [apply, modifyQueue, modifyConsumer]
    refine modified _ _ ?_
    exact .rollback

theorem onConsumer (s : Store) (effect : Effect) (c : ConsumerRef) :
    s.OnConsumer effect c ((s.apply effect).consumer c) := by
  have modified (j : ConsumerRef) (f : Consumer → Consumer) (new : s.OnConsumer effect j (f (s.consumer j))) :
      s.OnConsumer effect c ((s.consumer.modify j f) c) := by
    rcases s.consumer.cell_modify_eq_or j f c with kept | ⟨rfl, written⟩
    · rw [kept]
      exact .same
    · rw [written]
      exact new
  cases effect with
  | newConsumer tag queue channel =>
    by_cases fresh : c = s.consumer.size
    · subst fresh
      rw [apply, Heap.cell_alloc_self]
      exact .newConsumer
    · rw [apply, Heap.cell_alloc_of_ne _ _ fresh]
      exact .same
  | unregisterConsumer =>
    simp only [apply, modifyQueue, modifyConsumer]
    refine modified _ _ ?_
    exact .unregisterConsumer
  | ack =>
    simp only [apply, modifyQueue, modifyConsumer]
    refine modified _ _ ?_
    exact .ack
  | nack =>
    simp only [apply, modifyQueue, modifyConsumer]
    refine modified _ _ ?_
    exact .nack
  | record =>
    simp only [apply, modifyQueue, modifyConsumer]
    refine modified _ _ ?_
    exact .record
  | rollback =>
    simp only [apply, modifyQueue, modifyConsumer]
    refine modified _ _ ?_
    exact .rollback
  | _ => exact .same

/-- The queue an effect is about. -/
def target (s : Store) : Effect → Option QueueRef
  | .silent | .newConsumer .. => none
  | .newQueue .. => some s.queue.size
  | .takeTag q | .enqueue q _ | .signal q | .ack q _ _ | .requeue q _ | .dispatcher q _ | .record q _ _
  | .deliver q _ _ | .rollback q _ _ => some q
  | .registerConsumer c | .unregisterConsumer c _ | .nack c _ _ _ => some (s.consumer c).queue

theorem queue_of_other {s : Store} {effect : Effect} {q : QueueRef} (other : s.target effect ≠ some q) :
    (s.apply effect).queue q = s.queue q := by
  have changed := s.onQueue effect q
  generalize (s.apply effect).queue q = queue at changed ⊢
  cases changed with
  | same => rfl
  | _ => exact absurd rfl other

/-- Tags taken are never given back. -/
theorem tagged_le (s : Store) (effect : Effect) (q : QueueRef) :
    (s.queue q).log.tagged ≤ ((s.apply effect).queue q).log.tagged := by
  have changed := s.onQueue effect q
  generalize (s.apply effect).queue q = queue at changed ⊢
  cases changed with
  | newQueue =>
    rw [s.queue.beyond _ (Nat.le_refl _)]
    exact Nat.le_refl _
  | takeTag => exact Nat.le_succ _
  | _ => exact Nat.le_refl _

/-- Only `registerConsumer` adds a consumer to a queue, and to the consumer's own queue. -/
theorem mem_consumers_apply {s : Store} {effect : Effect} {q : QueueRef} {c : ConsumerRef}
    (member : c ∈ ((s.apply effect).queue q).consumers) :
    c ∈ (s.queue q).consumers ∨ effect = .registerConsumer c ∧ q = (s.consumer c).queue := by
  have changed := s.onQueue effect q
  generalize (s.apply effect).queue q = queue at changed member
  cases changed with
  | newQueue => exact absurd member (Finset.notMem_empty c)
  | @registerConsumer c' =>
    rcases Finset.mem_insert.mp member with rfl | old
    · exact .inr ⟨rfl, rfl⟩
    · exact .inl old
  | unregisterConsumer => exact .inl (Finset.mem_of_mem_erase member)
  | _ => exact .inl member

end Store

end GolangMQ.Model
