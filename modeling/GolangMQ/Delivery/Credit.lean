import GolangMQ.Delivery.Draining
import GolangMQ.Dispatch.Bookkeeping
import GolangMQ.Requests.Budgets
import GolangMQ.Requests.Enrolment
import Mathlib.Algebra.BigOperators.Group.Finset.Piecewise

/-! # Prefetch as credit

A consumer comes with room for ten deliveries, and an ack or a nack makes room for one more. That is a budget: a
consume request grants ten, a request that settles a delivery grants one, and a delivery costs one. The books behind
it are `inflight` counters that go wrong in several ways (a tag that is taken twice, a failed write that is rolled
back after its delivery has been nacked), but never in favour of the consumers: in every run a queue delivers no more
than that.
-/

namespace GolangMQ.Model

open Machine

variable {w w' : World} {label : Label} {effect : Effect} {k : ConnectionRef} {c : ConsumerRef} {q : QueueRef}

/-- `NewConsumer` sets the limit, and nothing changes it. -/
theorem prefetch_of_reachable {ok : World → Label → Prop} (reached : broker.Reachable ok w) (c : ConsumerRef) :
    (w.consumer c).prefetch = 10 := by
  refine reached.invariant (P := fun w => ∀ c, (w.consumer c).prefetch = 10) (fun _ => rfl) ?_ c
  intro source target label _ limit _ stepped c
  obtain ⟨effect, store, -⟩ := World.happens_of_step stepped
  have changed := source.toStore.onConsumer effect c
  rw [store]
  generalize (source.toStore.apply effect).consumer c = consumer at changed ⊢
  cases changed with
  | newConsumer => rfl
  | _ => exact limit c

/-- A consumer that a dispatcher has selected has room until its delivery is recorded. -/
private theorem room_of_selected {ok : World → Label → Prop} (reached : broker.Reachable ok w)
    (selected : (w.queue q).dispatcher = .selected c) : (w.consumer c).inflight < (w.consumer c).prefetch := by
  refine reached.invariant (P := fun w => ∀ q c, (w.queue q).dispatcher = .selected c →
    (w.consumer c).inflight < (w.consumer c).prefetch) (fun _ _ selected => by contradiction) ?_ q c selected
  intro source target label before room _ stepped q c
  obtain ⟨effect, store, happens⟩ := World.happens_of_step stepped
  exact room_step (wellformed_of_reachable before) room store happens q c

section Blank

/-- Nobody has used the consumer yet. -/
structure Blank (w : World) (c : ConsumerRef) : Prop where
  inflight : (w.consumer c).inflight = 0
  pending : (w.consumer c).pendingMessages = ∅
  unused : ∀ q msg, (w.queue q).dispatcher.delivery ≠ some (c, msg)

private theorem not_registered_of_pending {ok : World → Label → Prop} (reached : broker.Reachable ok w)
    (pending : .register c ∈ w.todo k) : ¬ w.registered c := by
  have errand : .register c ∈ w.errands k := List.mem_filter.2 ⟨pending, rfl⟩
  have enrolling := (enrolled_of_reachable reached k).enrolling
  generalize w.errands k = errands at errand enrolling
  cases enrolling with
  | none quiet => exact absurd (quiet _ errand) (by simp [Section.joins])
  | register new =>
    obtain rfl : c = _ := by simpa using errand
    exact new
  | consume | attach => simp at errand

/-- A dispatcher that comes to hold a delivery has just recorded it. -/
private theorem recorded_of_delivery (store : w'.toStore = w.toStore.apply effect) (happens : Happens w label w' effect)
    {msg : Message} (holds : (w'.queue q).dispatcher.delivery = some (c, msg)) :
    (w.queue q).dispatcher.delivery = some (c, msg) ∨ effect = .record q c msg := by
  have changed := w.toStore.onQueue effect q
  rw [store] at holds
  generalize (w.toStore.apply effect).queue q = queue at changed holds
  cases changed with
  | newQueue | deliver | rollback => contradiction
  | signal =>
    left
    simp only [Queue.signal] at holds
    split at holds
    · contradiction
    · exact holds
  | dispatcher =>
    left
    cases happens with
    | failed phase => rw [phase]; exact holds
    | lock | probe => dsimp only at holds; split at holds <;> contradiction
    | exhausted | wait | resume => contradiction
  | record =>
    right
    obtain ⟨rfl, rfl⟩ : _ = c ∧ _ = msg := by simpa [Queue.pop, Dispatcher.delivery] using holds
    rfl
  | _ => exact .inl holds

private theorem Wellformed.known_of_delivery (wellformed : Wellformed w) {msg : Message}
    (holds : (w.queue q).dispatcher.delivery = some (c, msg)) : c < w.consumer.size := by
  have fits := wellformed.phases q
  cases stands : (w.queue q).dispatcher with
  | writing | failed =>
    rw [stands] at holds fits
    cases holds
    exact fits.1
  | _ =>
    rw [stands] at holds
    contradiction

/-- Until a consumer has been registered, nothing happens to it. -/
theorem Blank.step (blank : Blank w c) (wellformed : Wellformed w) (known : c < w.consumer.size)
    (new : ¬ w.registered c) (stepped : w.step? label = some w') : Blank w' c := by
  obtain ⟨effect, store, happens⟩ := World.happens_of_step stepped
  have same : w'.consumer c = w.consumer c := by
    have changed := w.toStore.onConsumer effect c
    rw [store]
    generalize (w.toStore.apply effect).consumer c = consumer at changed ⊢
    cases changed with
    | same => rfl
    | newConsumer => exact absurd known (Nat.lt_irrefl _)
    | unregisterConsumer =>
      cases happens with
      | unregisterConsumer _ member => exact absurd ⟨_, member⟩ new
    | ack =>
      cases happens with
      | ack _ member => exact absurd ⟨_, member⟩ new
    | nack =>
      cases happens with
      | nack found =>
        rw [blank.pending, AList.lookup_empty] at found
        contradiction
    | record =>
      cases happens with
      | record phase => exact absurd ⟨_, (wellformed.phase phase).2⟩ new
    | rollback =>
      cases happens with
      | rollback phase => exact absurd (by rw [phase]; rfl) (blank.unused _ _)
  refine ⟨same ▸ blank.inflight, same ▸ blank.pending, fun q msg holds => ?_⟩
  rcases recorded_of_delivery store happens holds with before | rfl
  · exact blank.unused q msg before
  · cases happens with
    | record phase => exact new ⟨_, (wellformed.phase phase).2⟩

/-- A consumer that is to be registered has been made by the same goroutine just before. -/
theorem register_of_step (stepped : w.step? label = some w') (pending : .register c ∈ w'.todo k) :
    .register c ∈ w.todo k ∨ c = w.consumer.size ∧ (w'.consumer c).inflight = 0 ∧
      (w'.consumer c).pendingMessages = ∅ := by
  by_cases own : ∃ choice, label = .run k choice
  · obtain ⟨choice, rfl⟩ := own
    obtain ⟨first, rest, middle, next, head, ran, rfl, inside⟩ := World.run_inv stepped
    rw [(World.rests_of_runSection ran).todo_setTodo inside, Function.update_self] at pending
    rcases List.mem_append.1 pending with new | later
    · have runs := runs_of_runSection ran
      cases leads_of_runs runs new with
      | consumeRegister ch header queue tag =>
        cases runs with
        | consumeRefused => simp at new
        | @consume _ _ _ _ q declared fresh =>
          obtain rfl : c = w.consumer.size := by simpa using new
          have made : (w.apply (.newConsumer (w.consumerTag ch tag) q ch)).consumer w.consumer.size =
              { tag := w.consumerTag ch tag, queue := q, channel := ch } := w.consumer.cell_alloc_self _
          exact .inr ⟨rfl, congrArg Consumer.inflight made, congrArg Consumer.pendingMessages made⟩
    · exact .inl (head ▸ List.mem_cons_of_mem _ later)
  · obtain ⟨effect, -, happens⟩ := World.happens_of_step stepped
    rcases World.todo_of_other happens (fun choice same => own ⟨choice, same⟩) with
      kept | ⟨env, rfl, started⟩ | ⟨-, ended⟩
    · exact .inl (kept ▸ pending)
    · rw [started] at pending
      cases World.handled_of_mem pending with
      | routed _ routed => cases routed
    · rw [ended] at pending
      simp at pending

private theorem blank_of_pending {ok : World → Label → Prop} (reached : broker.Reachable ok w)
    (pending : .register c ∈ w.todo k) : Blank w c := by
  refine reached.invariant (P := fun w => ∀ k c, .register c ∈ w.todo k → Blank w c) ?_ ?_ k c pending
  · exact fun _ _ pending => absurd pending List.not_mem_nil
  · intro source target label before blank _ stepped k c pending
    have wellformed := wellformed_of_reachable before
    rcases register_of_step stepped pending with old | ⟨rfl, inflight, nothing⟩
    · have known := (wellformed.pending k _ old).consumers c (by simp)
      exact (blank k c old).step wellformed known (not_registered_of_pending before old) stepped
    · refine ⟨inflight, nothing, fun q msg holds => ?_⟩
      obtain ⟨effect, store, happens⟩ := World.happens_of_step stepped
      -- A dispatcher knows the consumers of its queue only.
      rcases recorded_of_delivery store happens holds with before | rfl
      · exact Nat.lt_irrefl _ (wellformed.known_of_delivery before)
      · cases happens with
        | record phase =>
          exact Nat.lt_irrefl _ (wellformed.members q _ (wellformed.phase phase).2).1

end Blank

section Outlay

/-- What a queue has given out: deliveries that have been written, one that is being written, and room. -/
def Store.outlay (s : Store) (q : QueueRef) : ℕ :=
  (s.queue q).log.delivered.length + (s.queue q).dispatcher.delivery.toList.length + s.room q

/-- What an effect adds to the room of a queue. -/
def Store.credit (s : Store) (q : QueueRef) : Effect → ℕ
  | .registerConsumer c => if (s.consumer c).queue = q then (s.consumer c).room else 0
  | .ack .. | .nack .. => 1
  | _ => 0

/-- One summand grows by at most `more`. -/
private theorem sum_le_sum_add {members : Finset ConsumerRef} {rooms rooms' : ConsumerRef → ℕ} {more : ℕ}
    (others : ∀ c' ∈ members, c' ≠ c → rooms' c' = rooms c') (grows : rooms' c ≤ rooms c + more) :
    ∑ c' ∈ members, rooms' c' ≤ ∑ c' ∈ members, rooms c' + more := by
  have each : ∀ c' ∈ members, rooms' c' ≤ rooms c' + if c' = c then more else 0 := by
    intro c' member
    by_cases same : c' = c
    · subst same
      rwa [if_pos rfl]
    · rw [others c' member same]
      exact Nat.le_add_right _ _
  calc ∑ c' ∈ members, rooms' c' ≤ ∑ c' ∈ members, (rooms c' + if c' = c then more else 0) := Finset.sum_le_sum each
    _ = ∑ c' ∈ members, rooms c' + if c ∈ members then more else 0 := by
      rw [Finset.sum_add_distrib, Finset.sum_ite_eq']
    _ ≤ _ := by split <;> omega

/-- Outside the dispatcher the writes of a queue do not change. -/
private theorem Store.written_apply (s : Store) (calm : effect.dispatches = false) (q : QueueRef) :
    ((s.apply effect).queue q).log.delivered.length + ((s.apply effect).queue q).dispatcher.delivery.toList.length ≤
      (s.queue q).log.delivered.length + (s.queue q).dispatcher.delivery.toList.length := by
  have changed := s.onQueue effect q
  generalize (s.apply effect).queue q = queue at changed ⊢
  cases changed with
  | newQueue => exact Nat.zero_le _
  | signal =>
    refine Nat.add_le_add_left ?_ _
    unfold Queue.signal
    dsimp only
    split
    · exact Nat.zero_le _
    · exact Nat.le_refl _
  | dispatcher | record | deliver | rollback => contradiction
  | _ => exact Nat.le_refl _

/-- Settling a delivery makes room for one. -/
private theorem Consumer.room_release (consumer : Consumer) (tag : UInt16) :
    (consumer.release tag).room ≤ consumer.room + 1 := by
  unfold room release
  dsimp only
  omega

private theorem Store.room_modify_release (s : Store) (c : ConsumerRef) (tag : UInt16) (members : Finset ConsumerRef) :
    ∑ c' ∈ members, ((s.consumer.modify c (·.release tag)) c').room ≤ ∑ c' ∈ members, (s.consumer c').room + 1 := by
  refine sum_le_sum_add (c := c) (fun c' _ other => ?_) ?_
  · rw [Heap.cell_modify_of_ne _ _ other]
  · rcases s.consumer.cell_modify_eq_or c (·.release tag) c with kept | ⟨-, released⟩
    · rw [kept]
      exact Nat.le_succ _
    · rw [released]
      exact Consumer.room_release _ tag

/-- Nothing but a registration adds a consumer to a queue. -/
private theorem Store.room_le_of_rooms (s : Store) (other : ∀ c, effect ≠ .registerConsumer c) {more : ℕ}
    (rooms : ∑ c ∈ ((s.apply effect).queue q).consumers, ((s.apply effect).consumer c).room ≤
      ∑ c ∈ ((s.apply effect).queue q).consumers, (s.consumer c).room + more) :
    (s.apply effect).room q ≤ s.room q + more := by
  have subset : ((s.apply effect).queue q).consumers ⊆ (s.queue q).consumers := fun c member =>
    (Store.mem_consumers_apply member).resolve_right fun registered => other c registered.1
  exact rooms.trans (Nat.add_le_add_right (Finset.sum_le_sum_of_subset subset) _)

/-- Outside the dispatcher, room comes from registrations and settled deliveries. -/
private theorem Store.room_apply (s : Store)
    (members : ∀ c ∈ (s.queue q).consumers, c < s.consumer.size ∧ (s.consumer c).queue = q)
    (calm : effect.dispatches = false) : (s.apply effect).room q ≤ s.room q + s.credit q effect := by
  cases effect with
  | dispatcher | record | deliver | rollback => contradiction
  | ack p c tag => exact s.room_le_of_rooms (by simp) (s.room_modify_release c tag _)
  | nack c msg tag requeue => exact s.room_le_of_rooms (by simp) (s.room_modify_release c tag _)
  | silent | newQueue | takeTag | enqueue | signal | requeue => exact s.room_le_of_rooms (by simp) (Nat.le_refl _)
  | newConsumer tag p channel =>
    refine s.room_le_of_rooms (by simp) (Nat.le_of_eq (Finset.sum_congr rfl fun c member => ?_))
    exact congrArg Consumer.room (s.consumer.cell_alloc_of_ne _ (members c member).1.ne)
  | unregisterConsumer c order =>
    refine s.room_le_of_rooms (by simp) (Nat.le_of_eq (Finset.sum_congr rfl fun c' member => ?_))
    have other : c' ≠ c := by
      rintro rfl
      have before := (Store.mem_consumers_apply member).resolve_right (by simp)
      have mine := (members c' before).2
      have inside : q < s.queue.size := by
        by_contra outside
        rw [s.queue.beyond q (Nat.le_of_not_lt outside)] at before
        exact Finset.notMem_empty c' before
      have erased : (s.apply (.unregisterConsumer c' order)).queue q = (s.queue q).unregisterConsumer c' order := by
        rw [← mine] at inside ⊢
        exact s.queue.cell_modify_self (·.unregisterConsumer c' order) inside
      rw [erased] at member
      exact Finset.notMem_erase c' _ member
    exact congrArg Consumer.room (s.consumer.cell_modify_of_ne (·.drain order) other)
  | registerConsumer c =>
    have changed := s.onQueue (.registerConsumer c) q
    unfold Store.room
    generalize (s.apply (.registerConsumer c)).queue q = queue at changed ⊢
    cases changed with
    | same => exact Nat.le_add_right _ _
    | registerConsumer =>
      simp only [Queue.registerConsumer, Store.credit, if_true]
      by_cases already : c ∈ (s.queue (s.consumer c).queue).consumers
      · rw [Finset.insert_eq_of_mem already]
        exact Nat.le_add_right _ _
      · rw [Finset.sum_insert already, Nat.add_comm]
        exact Nat.le_refl _

/-- Outside the dispatcher, a queue gives out no more than what is added to its room. -/
private theorem Store.outlay_apply (s : Store)
    (members : ∀ c ∈ (s.queue q).consumers, c < s.consumer.size ∧ (s.consumer c).queue = q)
    (calm : effect.dispatches = false) : (s.apply effect).outlay q ≤ s.outlay q + s.credit q effect := by
  have written := s.written_apply calm q
  have room := s.room_apply members calm
  unfold Store.outlay
  omega

/-- The consumer for which a delivery is recorded gives up the room for it. -/
private theorem Store.room_record (s : Store) {members : Finset ConsumerRef} (msg : Message)
    (inside : c < s.consumer.size)
    (member : c ∈ members) (free : (s.consumer c).inflight < (s.consumer c).prefetch) :
    ∑ c' ∈ members, ((s.consumer.modify c (·.record msg)) c').room + 1 = ∑ c' ∈ members, (s.consumer c').room := by
  have others : ∑ c' ∈ members.erase c, ((s.consumer.modify c (·.record msg)) c').room =
      ∑ c' ∈ members.erase c, (s.consumer c').room := by
    refine Finset.sum_congr rfl fun c' other => ?_
    rw [Heap.cell_modify_of_ne _ _ (Finset.ne_of_mem_erase other)]
  have taken : ((s.consumer.modify c (·.record msg)) c).room + 1 = (s.consumer c).room := by
    rw [Heap.cell_modify_self _ _ inside]
    unfold Consumer.room Consumer.record
    dsimp only
    omega
  rw [← Finset.sum_erase_add _ _ member, ← Finset.sum_erase_add members _ member, others]
  omega

/-- A step whose effect is on another queue. -/
theorem Wellformed.outlay_of_other (wellformed : Wellformed w) (store : w'.toStore = w.toStore.apply effect)
    (happens : Happens w label w' effect) (other : w.toStore.target effect ≠ some q) : w'.outlay q = w.outlay q := by
  have queue : w'.queue q = w.queue q := by
    rw [store]
    exact Store.queue_of_other other
  have rooms : w'.room q = w.room q := by
    unfold Store.room
    rw [queue]
    refine Finset.sum_congr rfl fun c member => ?_
    rw [wellformed.consumer_of_other store happens other member]
  unfold Store.outlay
  rw [queue, rooms]

/-- A dispatcher that moves on without a delivery, or with the one it had. -/
private theorem Store.outlay_dispatcher (s : Store) {phase : Dispatcher}
    (holds : phase.delivery.toList.length ≤ (s.queue q).dispatcher.delivery.toList.length) :
    (s.apply (.dispatcher q phase)).outlay q ≤ s.outlay q := by
  have heap : (s.apply (.dispatcher q phase)).queue = s.queue.modify q ({ · with dispatcher := phase }) := rfl
  have consumer : (s.apply (.dispatcher q phase)).consumer = s.consumer := rfl
  unfold Store.outlay Store.room
  rw [consumer, heap]
  rcases s.queue.cell_modify_eq_or q ({ · with dispatcher := phase }) q with kept | ⟨-, written⟩
  · rw [kept]
  · rw [written]
    dsimp only
    omega

/-- A dispatcher gives out nothing but the room of its consumers. -/
private theorem outlay_of_dispatch (reached : broker.Reachable anyStep w) (dispatches : label.ofDispatcher = true)
    (stepped : w.step? label = some w') (q : QueueRef) : w'.outlay q ≤ w.outlay q := by
  have wellformed := wellformed_of_reachable reached
  obtain ⟨effect, store, happens⟩ := World.happens_of_step stepped
  by_cases other : w.toStore.target effect ≠ some q
  · exact (wellformed.outlay_of_other store happens other).le
  rw [not_not] at other
  cases happens with
  | @lock _ j stands =>
    obtain rfl := Option.some.inj other
    rw [store]
    refine w.toStore.outlay_dispatcher ?_
    split <;> exact Nat.zero_le _
  | @probe _ j =>
    obtain rfl := Option.some.inj other
    rw [store]
    refine w.toStore.outlay_dispatcher ?_
    split <;> exact Nat.zero_le _
  | exhausted | wait | resume =>
    obtain rfl := Option.some.inj other
    rw [store]
    exact w.toStore.outlay_dispatcher (Nat.zero_le _)
  | @failed _ j c msg stands =>
    obtain rfl := Option.some.inj other
    rw [store]
    refine w.toStore.outlay_dispatcher ?_
    rw [stands]
    exact Nat.le_refl _
  | @record _ j c msg rest stands head =>
    obtain rfl := Option.some.inj other
    have member := (wellformed.phase stands).2
    have queue : w'.queue j = (w.queue j).pop c msg := by
      rw [store]
      exact w.queue.cell_modify_self (·.pop c msg) (World.inside_of_phase stands (by simp))
    have consumer : w'.consumer = w.consumer.modify c (·.record msg) := by rw [store]; rfl
    have room := w.toStore.room_record msg (wellformed.members j c member).1 member (room_of_selected reached stands)
    unfold Store.outlay Store.room
    rw [queue, consumer, stands]
    simp only [Queue.pop, Dispatcher.delivery, Option.toList_some, Option.toList_none, List.length_singleton,
      List.length_nil]
    omega
  | @written _ j c msg stands =>
    obtain rfl := Option.some.inj other
    have queue : w'.queue j = (w.queue j).deliver c (msg.deliver (w.consumer c).tag) := by
      rw [store]
      exact w.queue.cell_modify_self (·.deliver c (msg.deliver (w.consumer c).tag))
        (World.inside_of_phase stands (by simp))
    have consumer : w'.consumer = w.consumer := by rw [store]; rfl
    unfold Store.outlay Store.room
    rw [queue, consumer, stands]
    simp only [Queue.deliver, Dispatcher.delivery, Option.toList_some, Option.toList_none, List.length_append,
      List.length_singleton, List.length_nil]
    omega
  | @rollback _ j c msg stands =>
    obtain rfl := Option.some.inj other
    have queue : w'.queue j = (w.queue j).rollback msg := by
      rw [store]
      exact w.queue.cell_modify_self (·.rollback msg) (World.inside_of_phase stands (by simp))
    have consumer : w'.consumer = w.consumer.modify c (·.release msg.deliveryTag) := by rw [store]; rfl
    have room := w.toStore.room_modify_release c msg.deliveryTag (w.queue j).consumers
    unfold Store.outlay Store.room
    rw [queue, consumer, stands]
    simp only [Queue.rollback, Queue.pushFront, Dispatcher.delivery, Option.toList_some, Option.toList_none,
      List.length_singleton, List.length_nil]
    omega
  | _ => contradiction

end Outlay

section Credit

/-- A request to consume the queue. -/
def Envelope.consumes (name : String) (env : Envelope) : Bool :=
  match env.request with
  | .consume queue _ => !env.malformed && queue == name
  | _ => false

/-- A request that can settle a delivery. -/
def Envelope.settles (env : Envelope) : Bool :=
  match env.request with
  | .ack _ | .nack .. => !env.malformed
  | _ => false

def Envelope.grants (name : String) (env : Envelope) : ℕ :=
  (if env.consumes name then 10 else 0) + if env.settles then 1 else 0

/-- What a section can come to add to the room of queue `q`, which has this name. -/
def Section.charges (q : QueueRef) (name : String) (s : Store) : Section → ℕ
  | .consume _ _ queue _ => if queue = name then 10 else 0
  | .register c => if (s.consumer c).queue = q then 10 else 0
  | .ackRange .. | .ackScan .. | .ack .. | .ackQueue .. | .nackRange .. | .nackScan .. => 1
  | _ => 0

private theorem charges_handle (w : World) (k : ConnectionRef) (env : Envelope) (q : QueueRef) (name : String) :
    ((w.handle k env).2.map (Section.charges q name w.toStore)).sum ≤ env.grants name := by
  refine w.handle_cases k env
    (P := fun _ sections => (sections.map (Section.charges q name w.toStore)).sum ≤ env.grants name) ?_ ?_ ?_ ?_
  · exact fun _ _ => Nat.zero_le _
  · intro _
    cases (w.connection k).channels.lookup env.channelID <;> exact Nat.zero_le _
  · exact fun _ => Nat.zero_le _
  · intro ch _
    cases malformed : env.malformed with
    | true => cases request : env.request <;> simp [route, request, malformed, Section.charges]
    | false =>
      cases request : env.request <;>
        simp [route, request, malformed, Section.charges, Envelope.grants, Envelope.consumes, Envelope.settles]

/-- Requests pay for the deliveries of a queue. -/
private theorem creditBudget (q : QueueRef) (name : String) :
    Budget (fun w _ => q < w.queue.size → (w.queue q).name = name) (fun s => s.outlay q) (Section.charges q name)
      (Envelope.grants name) where
  earlier {w w' label asked} stepped named inside := by
    have grows := (World.grows_of_step stepped).store
    rw [← grows.name q inside]
    exact named (inside.trans_le grows.queues)
  start := rfl
  handled w k env := charges_handle w k env q name
  teardown _ := rfl
  kept {w w' label} reached stepped k s pending := by
    have known := (wellformed_of_reachable reached).pending k s pending
    cases s with
    | register c =>
      have same := (World.grows_of_step stepped).store.queue (known.consumers c (by simp))
      simp only [Section.charges, same]
      exact Nat.le_refl _
    | _ => exact Nat.le_refl _
  dispatched reached dispatches stepped := outlay_of_dispatch reached dispatches stepped q
  ran {w w' asked k choice first next} recorded named pending runs := by
    have reached : broker.Reachable anyStep w := recorded.of_recording
    have leads : ∀ s ∈ next, Leads first s := fun _ => leads_of_runs runs
    have wellformed := wellformed_of_reachable reached
    have members := wellformed.members q
    have calm (effect : Effect) (still : effect.dispatches = false) :
        (w.toStore.apply effect).outlay q ≤ w.toStore.outlay q + w.toStore.credit q effect :=
      w.toStore.outlay_apply members still
    cases runs with
    | @publishUnknown _ report => cases report <;> exact Nat.le_add_right _ _
    | route | cleanup | teardown =>
      refine Nat.add_le_add_left (Nat.le_of_eq (Worklists.sum_cost_eq_zero _ fun s member => ?_)) _
      cases leads s member <;> rfl
    | takeTag | enqueue | signal | requeue | declareQueue | unregister | ackQueue => exact calm _ rfl
    | @consume ch header queue tag p declared fresh =>
      have made : (w.apply (.newConsumer (w.consumerTag ch tag) p ch)).consumer w.consumer.size =
          { tag := w.consumerTag ch tag, queue := p, channel := ch } := w.consumer.cell_alloc_self _
      have mine : p = q → queue = name := by
        rintro rfl
        obtain ⟨history, recorded⟩ := exists_history reached
        rw [← (routed_of_reachable recorded).queueNames queue p declared]
        exact named (wellformed.queues queue p declared)
      refine Nat.add_le_add (calm _ rfl) ?_
      simp only [List.map_cons, List.map_nil, List.sum_cons, List.sum_nil, Section.charges, made, Nat.add_zero]
      split
      · next same => rw [if_pos (mine same)]
      · exact Nat.zero_le _
    | @register c free =>
      have blank := blank_of_pending reached pending
      have room : (w.consumer c).room = 10 := by
        rw [Consumer.room, blank.inflight, prefetch_of_reachable reached]
        rfl
      have granted := calm (.registerConsumer c) rfl
      simp only [Store.credit, room] at granted
      exact granted
    | @nack c rest tag back msg found =>
      have free : ((w.afterNack c msg back).map (Section.charges q name (w.settleNack c msg tag back).toStore)).sum =
          0 := by
        refine Worklists.sum_cost_eq_zero _ fun s member => ?_
        rcases mem_afterNack member with rfl | rfl | rfl <;> rfl
      rw [free]
      exact calm (.nack c msg tag back) rfl
    | publish | unroutable | consumeRefused | attach | ackUnknown | ackUnnamed | ackGone | nackUnknown
    | redeclareQueue | redeclareExchange | declareExchange | bindRefused | bindQueue | bind | unregistered | reply
    | unsent | depart => exact Nat.le_add_right _ _
    | ackRange | ackFound | ackNext | ackNamed | nackRange | nackNext => exact Nat.le_refl _

private theorem sum_granted (name : String) (asked : List (ConnectionRef × Envelope)) :
    (asked.map fun ask => ask.2.grants name).sum =
      10 * asked.countP (fun ask => ask.2.consumes name) + asked.countP fun ask => ask.2.settles := by
  induction asked with
  | nil => rfl
  | cons ask rest ih =>
    rw [List.map_cons, List.sum_cons, ih, List.countP_cons, List.countP_cons, Envelope.grants]
    split_ifs <;> omega

/-- In every run, what a queue has delivered, is delivering and has room for is covered by the requests: ten for each
request to consume it, and one for each ack or nack. -/
theorem deliveries_within_credit {asked : List (ConnectionRef × Envelope)}
    (recorded : askingBroker.Reachable anyStep (w, asked)) (q : QueueRef) :
    (w.queue q).log.delivered.length + (w.queue q).dispatcher.delivery.toList.length + w.room q ≤
      10 * asked.countP (fun ask => ask.2.consumes (w.queue q).name) + asked.countP fun ask => ask.2.settles := by
  have within := (creditBudget q (w.queue q).name).within recorded fun _ => rfl
  rw [sum_granted] at within
  exact (Nat.le_add_right _ _).trans within

/-- Ten of eleven messages have been delivered to a consumer that acknowledges none. -/
def unsettledTen : World × List (ConnectionRef × Envelope) := askingBroker.replay anyStep saturated

theorem deliveries_within_credit_unsettled :
    (unsettledTen.1.queue 0).log.delivered.length = 10 ∧ (unsettledTen.1.queue 0).messages.length = 1 ∧
      (unsettledTen.1.queue 0).log.delivered.length + unsettledTen.1.room 0 ≤ 10 := by
  have recorded : askingBroker.Reachable anyStep unsettledTen := .of_replay _
  have consumed : unsettledTen.2.countP (fun ask => ask.2.consumes (unsettledTen.1.queue 0).name) = 1 := by
    decide +kernel
  have settled : unsettledTen.2.countP (fun ask => ask.2.settles) = 0 := by decide +kernel
  have delivered : (unsettledTen.1.queue 0).log.delivered.length = 10 := by decide +kernel
  have waiting : (unsettledTen.1.queue 0).messages.length = 1 := by decide +kernel
  revert recorded consumed settled delivered waiting
  -- sums of closed terms would be evaluated whenever they are compared
  generalize unsettledTen = state
  intro recorded consumed settled delivered waiting
  have within := deliveries_within_credit recorded 0
  rw [consumed, settled] at within
  exact ⟨delivered, waiting, by omega⟩

end Credit

end GolangMQ.Model
