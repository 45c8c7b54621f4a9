import GolangMQ.Custody.Conservation
import GolangMQ.Machine.Pool
import GolangMQ.Model.Wellformed

/-! # The broker refines a custody ledger for each queue

The ledger of a queue reads its buffer, its consumers, what they hold unsettled, and the messages in
the local variables of goroutines: `transit` for a `Publish` between taking a tag and appending, `limbo`
for a `HandleNack` between the removal and the requeue. `ledger_step` is the refinement: seen from any
one queue, a step of the broker is one operation of the ledger or nothing at all.
-/

namespace GolangMQ.Model

open Custody

/-- The tag of the `n`-th publication to a queue. -/
def stamp (n : ℕ) : UInt16 := UInt16.ofNat (n + 1)

/-- The message a `Publish` has a tag for and is about to append to `q`. -/
def Section.transit (q : QueueRef) : Section → Option Message
  | .enqueue queue msg => if queue = q then some msg else none
  | _ => none

/-- The message a `HandleNack` has taken from a consumer of `q` and is about to put back. -/
def Section.limbo (q : QueueRef) : Section → Option Message
  | .requeue queue msg => if queue = q then some msg else none
  | _ => none

/-- What a consumer holds of the messages of `q`. -/
def Consumer.held (q : QueueRef) (c : Consumer) : Multiset Message :=
  if c.queue = q then c.pendingMessages.values else 0

/-- What a ledger sees of a queue. -/
def Queue.ledger (queue : Queue) (held : ConsumerRef → Multiset Message) (limbo transit : Multiset Message) :
    Ledger Message ConsumerRef where
  queued := queue.messages
  members := queue.consumers
  held := held
  limbo := limbo
  transit := transit
  writing := queue.dispatcher.delivery
  issued := queue.log.tagged
  enqueued := queue.log.enqueued.map Entry.message
  settled := queue.log.settled
  delivered := queue.log.delivered.map fun (c, event) => (c, event.message)

namespace World

/-- The messages that `Publish` calls carry to `q`. -/
def transit (w : World) (q : QueueRef) : Multiset Message := tally (Section.transit q) w.connection.size w.todo

/-- The messages that `HandleNack` calls carry back to `q`. -/
def limbo (w : World) (q : QueueRef) : Multiset Message := tally (Section.limbo q) w.connection.size w.todo

/-- The custody of the messages of `q`. -/
def ledger (w : World) (q : QueueRef) : Ledger Message ConsumerRef :=
  (w.queue q).ledger (fun c => (w.consumer c).held q) (w.limbo q) (w.transit q)

end World

/-- The operation of the ledger of `q` that an effect stands for. -/
def Mirrors (q : QueueRef) : Effect → Op Message ConsumerRef → Prop
  | .takeTag queue, .stamp _ => queue = q
  | .enqueue queue entry, .enqueue m => queue = q ∧ entry.message = m
  | .registerConsumer c, .join c' => c = c'
  | .record queue c msg, .deliver c' m => queue = q ∧ c = c' ∧ msg = m
  | .deliver queue c msg, .confirm c' m => queue = q ∧ c = c' ∧ msg = m
  | .rollback queue c msg, .retract c' m => queue = q ∧ c = c' ∧ msg = m
  | .ack queue c tag, .settle c' m => queue = q ∧ c = c' ∧ tag = m.deliveryTag
  | .nack c msg _ requeue, .settle c' m => requeue = false ∧ c = c' ∧ msg = m
  | .nack c msg _ requeue, .withdraw c' m => requeue = true ∧ c = c' ∧ msg = m
  | .requeue queue msg, .requeue m => queue = q ∧ msg = m
  | .unregisterConsumer c order, .leave c' order' => c = c' ∧ order = order'
  | _, _ => False

section Held

variable {c : Consumer} {q : QueueRef}

private theorem held_of_other (other : c.queue ≠ q) : c.held q = 0 := if_neg other

private theorem Consumer.Books.held_release (books : c.Books) (tag : UInt16) :
    (c.release tag).held q = Ledger.without Message.deliveryTag (c.held q) tag := by
  unfold Consumer.held Consumer.release
  split
  · exact books.keyed.coe_values_erase tag
  · rfl

private theorem Consumer.Books.held_record (books : c.Books) (mine : c.queue = q) (msg : Message) :
    (c.record msg).held q = msg ::ₘ Ledger.without Message.deliveryTag (c.held q) msg.deliveryTag := by
  unfold Consumer.held Consumer.record
  simp only [if_pos mine]
  exact books.keyed.coe_values_insert msg

private theorem held_drain (order : List Message) : (c.drain order).held q = 0 := by
  unfold Consumer.held Consumer.drain
  split <;> rfl

theorem mem_held (books : c.Books) (mine : c.queue = q) {msg : Message} :
    msg ∈ c.held q ↔ c.pendingMessages.lookup msg.deliveryTag = some msg := by
  rw [Consumer.held, if_pos mine, Multiset.mem_coe, books.keyed.mem_values]

end Held

section Tally

variable {w w' : World} {k : ConnectionRef} {first : Section} {next : List Section} {β : Type*}
  (classify : Section → Option β)

theorem World.Rests.tally_eq (rests : w.Rests w') :
    tally classify w'.connection.size w'.todo = tally classify w.connection.size w.todo := by
  rw [rests.size, rests.todo]

private theorem World.Advances.tally_none (advances : w.Advances w' k first next) (silent : classify first = none)
    (quiet : next.filterMap classify = []) :
    tally classify w'.connection.size w'.todo = tally classify w.connection.size w.todo := by
  obtain ⟨rest, pending, todo⟩ := advances.todo
  rw [advances.size, todo]
  exact tally_advance_none classify advances.inside pending silent quiet

private theorem World.Advances.tally_add (advances : w.Advances w' k first next) {payload : β}
    (silent : classify first = none) (added : next.filterMap classify = [payload]) :
    tally classify w'.connection.size w'.todo = payload ::ₘ tally classify w.connection.size w.todo := by
  obtain ⟨rest, pending, todo⟩ := advances.todo
  rw [advances.size, todo]
  exact tally_advance_add classify advances.inside pending silent added

private theorem World.Advances.tally_erase [DecidableEq β] (advances : w.Advances w' k first next) {payload : β}
    (carried : classify first = some payload) (quiet : next.filterMap classify = []) :
    payload ∈ tally classify w.connection.size w.todo ∧
      tally classify w'.connection.size w'.todo = (tally classify w.connection.size w.todo).erase payload := by
  obtain ⟨rest, pending, todo⟩ := advances.todo
  rw [advances.size, todo]
  exact tally_advance_erase classify advances.inside pending carried quiet

private theorem Section.transit_of_quiet {q : QueueRef} {pending : Section} (quiet : pending.carries = false) :
    pending.transit q = none := by
  cases pending <;> first | rfl | contradiction

private theorem Section.limbo_of_quiet {q : QueueRef} {pending : Section} (quiet : pending.carries = false) :
    pending.limbo q = none := by
  cases pending <;> first | rfl | contradiction

private theorem transit_of_quiets {q : QueueRef} {sections : List Section} (quiet : ∀ s ∈ sections, s.carries = false) :
    sections.filterMap (Section.transit q) = [] :=
  List.filterMap_eq_nil_iff.mpr fun s member => Section.transit_of_quiet (quiet s member)

private theorem limbo_of_quiets {q : QueueRef} {sections : List Section} (quiet : ∀ s ∈ sections, s.carries = false) :
    sections.filterMap (Section.limbo q) = [] :=
  List.filterMap_eq_nil_iff.mpr fun s member => Section.limbo_of_quiet (quiet s member)

private theorem transit_afterNack (w : World) (c : ConsumerRef) (msg : Message) (requeue : Bool) (q : QueueRef) :
    (w.afterNack c msg requeue).filterMap (Section.transit q) = [] := by
  unfold World.afterNack
  split_ifs <;> rfl

private theorem limbo_afterNack (w : World) (c : ConsumerRef) (msg : Message) (requeue : Bool) (q : QueueRef) :
    (w.afterNack c msg requeue).filterMap (Section.limbo q) =
      if requeue ∧ (w.consumer c).queue = q then [msg] else [] := by
  cases requeue with
  | true => by_cases mine : (w.consumer c).queue = q <;> simp [World.afterNack, Section.limbo, mine]
  | false =>
    by_cases dropped : (w.queue (w.consumer c).queue).dlx = "" <;>
      simp [World.afterNack, Section.limbo, dropped]

end Tally

namespace Queue

variable (queue : Queue) (held : ConsumerRef → Multiset Message) (limbo transit : Multiset Message)

private theorem ledger_enqueue (entry : Entry) :
    (queue.enqueue entry).ledger held limbo transit =
      { queue.ledger held limbo transit with
        queued := queue.messages ++ [entry.message]
        enqueued := queue.log.enqueued.map Entry.message ++ [entry.message] } := by
  simp only [ledger, enqueue, List.map_append, List.map_cons, List.map_nil]

/-- A signal changes where the dispatcher stands, not what it is delivering. -/
private theorem ledger_signal : queue.signal.ledger held limbo transit = queue.ledger held limbo transit := by
  unfold ledger signal
  dsimp only
  split
  · next parked => rw [parked]; rfl
  · rfl

private theorem ledger_settle (messages : List Message) :
    (queue.settle messages).ledger held limbo transit =
      { queue.ledger held limbo transit with settled := (messages : Multiset Message) + queue.log.settled } := by
  simp only [ledger, settle, ← Multiset.coe_add, add_comm]

private theorem ledger_unregisterConsumer (c : ConsumerRef) (order : List Message) :
    (queue.unregisterConsumer c order).ledger held limbo transit =
      { queue.ledger held limbo transit with
        members := queue.consumers.erase c, queued := order.reverse ++ queue.messages } := by
  have pushed : order.foldl (fun messages msg => msg :: messages) queue.messages =
      order.reverse ++ queue.messages := by simp
  simp only [ledger, unregisterConsumer, pushed]

private theorem ledger_deliver (c : ConsumerRef) (event : Deliver) :
    (queue.deliver c event).ledger held limbo transit =
      { queue.ledger held limbo transit with
        writing := none
        delivered := (queue.log.delivered.map fun (c, event) => (c, event.message)) ++ [(c, event.message)] } := by
  simp only [ledger, deliver, List.map_append, List.map_cons, List.map_nil, Dispatcher.delivery]

end Queue

section Cells

variable {w w' : World}

private theorem queue_self {q : QueueRef} {f : Queue → Queue} (queue : w'.queue = w.queue.modify q f)
    (inside : q < w.queue.size) : w'.queue q = f (w.queue q) := by
  rw [queue, Heap.cell_modify_self _ _ inside]

private theorem queue_other {j q : QueueRef} {f : Queue → Queue} (queue : w'.queue = w.queue.modify j f)
    (other : j ≠ q) : w'.queue q = w.queue q := by
  rw [queue, Heap.cell_modify_of_ne _ _ (Ne.symm other)]

private theorem held_same (consumer : w'.consumer = w.consumer) (q : QueueRef) :
    (fun c => (w'.consumer c).held q) = fun c => (w.consumer c).held q := by
  rw [consumer]

private theorem held_self {c : ConsumerRef} {f : Consumer → Consumer} (consumer : w'.consumer = w.consumer.modify c f)
    (inside : c < w.consumer.size) (q : QueueRef) :
    (fun c => (w'.consumer c).held q) =
      Function.update (fun c => (w.consumer c).held q) c ((f (w.consumer c)).held q) := by
  funext c'
  by_cases same : c' = c
  · subst same
    rw [Function.update_self, consumer, Heap.cell_modify_self _ _ inside]
  · rw [Function.update_of_ne same, consumer, Heap.cell_modify_of_ne _ _ same]

/-- A consumer of another queue holds nothing of this one, whatever is done to it. -/
private theorem held_other {c : ConsumerRef} {f : Consumer → Consumer} (consumer : w'.consumer = w.consumer.modify c f)
    (identity : (f (w.consumer c)).queue = (w.consumer c).queue) {q : QueueRef}
    (other : (w.consumer c).queue ≠ q) :
    (fun c => (w'.consumer c).held q) = fun c => (w.consumer c).held q := by
  rw [consumer]
  funext c'
  apply w.consumer.observe_modify (Consumer.held q)
  rw [held_of_other other, held_of_other (identity ▸ other)]

end Cells

section Refinement

variable {w w' : World} {label : Label} {effect : Effect} {q : QueueRef}

/-- A step that leaves what the ledger reads alone leaves the ledger alone. -/
private theorem ledger_frame (store : ∀ held limbo transit,
      (w'.queue q).ledger held limbo transit = (w.queue q).ledger held limbo transit)
    (held : ∀ c, (w'.consumer c).held q = (w.consumer c).held q)
    (limbo : w'.limbo q = w.limbo q) (transit : w'.transit q = w.transit q) : w'.ledger q = w.ledger q := by
  rw [World.ledger, store, limbo, transit, funext held]
  rfl

/-- A goroutine that starts on sections without messages leaves every ledger alone. -/
private theorem tallies_of_start {k : ConnectionRef} {sections : List Section}
    (size : w'.connection.size = w.connection.size) (inside : k < w.connection.size) (idle : w.todo k = [])
    (todo : w'.todo = Function.update w.todo k sections) (quiet : ∀ s ∈ sections, s.carries = false) :
    w'.limbo q = w.limbo q ∧ w'.transit q = w.transit q := by
  unfold World.limbo World.transit
  rw [size, todo]
  exact ⟨tally_start _ inside idle (limbo_of_quiets quiet), tally_start _ inside idle (transit_of_quiets quiet)⟩

/-- Steps that change neither a queue nor a consumer leave every ledger alone. -/
private theorem ledger_of_silent (store : w'.toStore = w.toStore.apply .silent) (happens : Happens w label w' .silent) :
    w'.ledger q = w.ledger q := by
  have same : w'.toStore = w.toStore := store
  have tallies : w'.limbo q = w.limbo q ∧ w'.transit q = w.transit q := by
    cases happens with
    | accepted size todo =>
      have idle : w.todo w.connection.size = [] := congrArg Connection.todo (w.connection.beyond _ (Nat.le_refl _))
      unfold World.limbo World.transit
      rw [size, todo]
      exact ⟨tally_succ _ idle, tally_succ _ idle⟩
    | requested size inside idle todo =>
      exact tallies_of_start size inside idle todo (w.handle_spec _ _).2.2
    | disconnected size inside idle todo =>
      exact tallies_of_start size inside idle todo (by simp [Section.carries])
    | quiet advances silent quiet =>
      exact ⟨advances.tally_none _ (Section.limbo_of_quiet silent) (limbo_of_quiets quiet),
        advances.tally_none _ (Section.transit_of_quiet silent) (transit_of_quiets quiet)⟩
  exact ledger_frame (fun _ _ _ => by rw [same]) (fun _ => by rw [same]) tallies.1 tallies.2

theorem ledger_at {queue : Queue} {held : ConsumerRef → Multiset Message} {limbo transit : Multiset Message}
    (store : w'.queue q = queue) (holds : (fun c => (w'.consumer c).held q) = held)
    (returning : w'.limbo q = limbo) (coming : w'.transit q = transit) :
    w'.ledger q = queue.ledger held limbo transit := by
  rw [World.ledger, store, holds, returning, coming]

/-- Seen from `q`, the effect is an operation of the ledger or nothing. -/
def Refines (w w' : World) (effect : Effect) (q : QueueRef) : Prop :=
  w'.ledger q = w.ledger q ∨
    ∃ op, Ledger.Step Message.deliveryTag stamp (w.ledger q) op (w'.ledger q) ∧ Mirrors q effect op

private theorem refines_newQueue {name dlx dlxRoutingKey : String}
    (store : w'.toStore = w.toStore.apply (.newQueue name dlx dlxRoutingKey))
    (happens : Happens w label w' (.newQueue name dlx dlxRoutingKey)) :
    Refines w w' (.newQueue name dlx dlxRoutingKey) q := by
  cases happens with
  | newQueue advances =>
    refine .inl (ledger_frame (fun held limbo transit => ?_) (fun c => by rw [store]; rfl)
      (advances.tally_none _ rfl rfl) (advances.tally_none _ rfl rfl))
    rw [store]
    exact w.queue.observe_alloc (Queue.ledger · held limbo transit) { name, dlx, dlxRoutingKey } rfl q

private theorem refines_newConsumer {tag : String} {queue : QueueRef} {channel : ChannelRef}
    (store : w'.toStore = w.toStore.apply (.newConsumer tag queue channel))
    (happens : Happens w label w' (.newConsumer tag queue channel)) :
    Refines w w' (.newConsumer tag queue channel) q := by
  cases happens with
  | newConsumer declared advances =>
    refine .inl (ledger_frame (fun held limbo transit => by rw [store]; rfl) (fun c => ?_)
      (advances.tally_none _ rfl rfl) (advances.tally_none _ rfl rfl))
    rw [store]
    exact w.consumer.observe_alloc (Consumer.held q) { tag, queue, channel } (by simp [Consumer.held, default]) c

/-- Taking a tag issues the next stamp and puts the message on its way. -/
private theorem refines_takeTag (wellformed : Wellformed w) {j : QueueRef}
    (store : w'.toStore = w.toStore.apply (.takeTag j)) (happens : Happens w label w' (.takeTag j)) :
    Refines w w' (.takeTag j) q := by
  have queue : w'.queue = w.queue.modify j Queue.takeTag := congrArg Store.queue store
  have consumer : w'.consumer = w.consumer := by rw [store]; rfl
  cases happens with
  | @takeTag _ k choice _ event free advances =>
    have limbo : w'.limbo q = w.limbo q := advances.tally_none _ rfl rfl
    by_cases mine : j = q
    · subst mine
      have inside : j < w.queue.size := advances.knownQueue wellformed.toRefs (by simp)
      have transit : w'.transit j = w.stamped j event ::ₘ w.transit j :=
        advances.tally_add _ rfl (by simp [Section.transit])
      refine .inr ⟨.stamp (w.stamped j event), ?_, rfl⟩
      rw [ledger_at (queue_self queue inside) (held_same consumer j) limbo transit]
      exact .stamp (wellformed.nextTag j)
    · have transit : w'.transit q = w.transit q := advances.tally_none _ rfl (by simp [Section.transit, mine])
      exact .inl (ledger_at (queue_other queue mine) (held_same consumer q) limbo transit)

private theorem refines_enqueue (wellformed : Wellformed w) {j : QueueRef} {entry : Entry}
    (store : w'.toStore = w.toStore.apply (.enqueue j entry)) (happens : Happens w label w' (.enqueue j entry)) :
    Refines w w' (.enqueue j entry) q := by
  have queue : w'.queue = w.queue.modify j (·.enqueue entry) := congrArg Store.queue store
  have consumer : w'.consumer = w.consumer := by rw [store]; rfl
  cases happens with
  | @enqueue _ k choice _ msg free advances =>
    have limbo : w'.limbo q = w.limbo q := advances.tally_none _ rfl rfl
    by_cases mine : j = q
    · subst mine
      have inside : j < w.queue.size := advances.knownQueue wellformed.toRefs (by simp)
      obtain ⟨stamped, transit⟩ : msg ∈ w.transit j ∧ w'.transit j = (w.transit j).erase msg :=
        advances.tally_erase _ (by simp [Section.transit]) rfl
      refine .inr ⟨.enqueue msg, ?_, rfl, rfl⟩
      rw [ledger_at (queue_self queue inside) (held_same consumer j) limbo transit, Queue.ledger_enqueue]
      exact .enqueue stamped
    · have transit : w'.transit q = w.transit q := advances.tally_none _ (by simp [Section.transit, mine]) rfl
      exact .inl (ledger_at (queue_other queue mine) (held_same consumer q) limbo transit)

private theorem refines_signal {j : QueueRef} (store : w'.toStore = w.toStore.apply (.signal j))
    (happens : Happens w label w' (.signal j)) : Refines w w' (.signal j) q := by
  cases happens with
  | signal advances =>
    refine .inl (ledger_frame (fun held limbo transit => ?_) (fun c => by rw [store]; rfl)
      (advances.tally_none _ rfl rfl) (advances.tally_none _ rfl rfl))
    rw [store]
    exact w.queue.observe_modify (Queue.ledger · held limbo transit) j Queue.signal (Queue.ledger_signal ..) q

private theorem refines_registerConsumer (wellformed : Wellformed w) {c : ConsumerRef}
    (store : w'.toStore = w.toStore.apply (.registerConsumer c))
    (happens : Happens w label w' (.registerConsumer c)) : Refines w w' (.registerConsumer c) q := by
  have queue : w'.queue = w.queue.modify (w.consumer c).queue (·.registerConsumer c) := congrArg Store.queue store
  have consumer : w'.consumer = w.consumer := by rw [store]; rfl
  cases happens with
  | registerConsumer free advances =>
    have limbo : w'.limbo q = w.limbo q := advances.tally_none _ rfl rfl
    have transit : w'.transit q = w.transit q := advances.tally_none _ rfl rfl
    by_cases mine : (w.consumer c).queue = q
    · have inside := wellformed.queueOf c (advances.knownConsumer wellformed.toRefs (by simp))
      subst mine
      refine .inr ⟨.join c, ?_, rfl⟩
      rw [ledger_at (queue_self queue inside) (held_same consumer _) limbo transit]
      exact .join
    · exact .inl (ledger_at (queue_other queue mine) (held_same consumer q) limbo transit)

/-- Unregistering puts everything the consumer holds back, in the order the map is iterated. -/
private theorem refines_unregisterConsumer (wellformed : Wellformed w) {c : ConsumerRef} {order : List Message}
    (store : w'.toStore = w.toStore.apply (.unregisterConsumer c order))
    (happens : Happens w label w' (.unregisterConsumer c order)) :
    Refines w w' (.unregisterConsumer c order) q := by
  have queue : w'.queue = w.queue.modify (w.consumer c).queue (·.unregisterConsumer c order) :=
    congrArg Store.queue store
  have consumer : w'.consumer = w.consumer.modify c (·.drain order) := congrArg Store.consumer store
  cases happens with
  | @unregisterConsumer _ k choice _ free member all advances =>
    have limbo : w'.limbo q = w.limbo q := advances.tally_none _ rfl rfl
    have transit : w'.transit q = w.transit q := advances.tally_none _ rfl rfl
    by_cases mine : (w.consumer c).queue = q
    · have inside : c < w.consumer.size := advances.knownConsumer wellformed.toRefs (by simp)
      have declared := wellformed.queueOf c inside
      have everything : (choice.messages : Multiset Message) = (w.consumer c).held q := by
        rw [Consumer.held, if_pos mine]
        exact Multiset.coe_eq_coe.mpr all
      subst mine
      refine .inr ⟨.leave c choice.messages, ?_, rfl, rfl⟩
      rw [ledger_at (queue_self queue declared) (held_self consumer inside _) limbo transit, held_drain,
        Queue.ledger_unregisterConsumer]
      exact .leave member everything
    · exact .inl (ledger_at (queue_other queue mine) (held_other consumer rfl mine) limbo transit)

/-- An ack settles the message that the consumer holds under the tag. -/
private theorem refines_ack (wellformed : Wellformed w) {j : QueueRef} {c : ConsumerRef} {tag : UInt16}
    (store : w'.toStore = w.toStore.apply (.ack j c tag)) (happens : Happens w label w' (.ack j c tag)) :
    Refines w w' (.ack j c tag) q := by
  have consumer : w'.consumer = w.consumer.modify c (·.release tag) := congrArg Store.consumer store
  cases happens with
  | ack free member found advances =>
    have limbo : w'.limbo q = w.limbo q := advances.tally_none _ rfl rfl
    have transit : w'.transit q = w.transit q := advances.tally_none _ rfl rfl
    obtain ⟨msg, stored, rfl⟩ := (wellformed.books c).lookup_of_mem found
    have queue : w'.queue = w.queue.modify j (·.settle [msg]) := by
      rw [store, Store.apply, stored]
      rfl
    obtain ⟨inside, rfl⟩ := wellformed.members j c member
    by_cases mine : (w.consumer c).queue = q
    · have declared := wellformed.queueOf c inside
      have holds : msg ∈ (w.consumer c).held q := (mem_held (wellformed.books c) mine).mpr stored
      subst mine
      refine .inr ⟨.settle c msg, ?_, rfl, rfl, rfl⟩
      rw [ledger_at (queue_self queue declared) (held_self consumer inside _) limbo transit,
        (wellformed.books c).held_release, Queue.ledger_settle]
      exact .settle holds
    · exact .inl (ledger_at (queue_other queue mine) (held_other consumer rfl mine) limbo transit)

/-- A nack takes the message from its consumer, for good or on its way back to the queue. -/
private theorem refines_nack (wellformed : Wellformed w) {c : ConsumerRef} {msg : Message} {tag : UInt16}
    {requeue : Bool}
    (store : w'.toStore = w.toStore.apply (.nack c msg tag requeue))
    (happens : Happens w label w' (.nack c msg tag requeue)) : Refines w w' (.nack c msg tag requeue) q := by
  have queue : w'.queue = w.queue.modify (w.consumer c).queue (·.settle (if requeue then [] else [msg])) :=
    congrArg Store.queue store
  have consumer : w'.consumer = w.consumer.modify c (·.release tag) := congrArg Store.consumer store
  cases happens with
  | nack stored advances =>
    have inside : c < w.consumer.size := advances.knownConsumer wellformed.toRefs (by simp)
    obtain rfl : msg.deliveryTag = tag := (wellformed.books c).keyed.key_eq stored
    have transit : w'.transit q = w.transit q := advances.tally_none _ rfl (transit_afterNack ..)
    by_cases mine : (w.consumer c).queue = q
    · have declared := wellformed.queueOf c inside
      have holds : msg ∈ (w.consumer c).held q := (mem_held (wellformed.books c) mine).mpr stored
      subst mine
      cases requeue with
      | true =>
        have limbo : w'.limbo (w.consumer c).queue = msg ::ₘ w.limbo (w.consumer c).queue :=
          advances.tally_add _ rfl (by simp [limbo_afterNack])
        refine .inr ⟨.withdraw c msg, ?_, rfl, rfl, rfl⟩
        rw [ledger_at (queue_self queue declared) (held_self consumer inside _) limbo transit,
          (wellformed.books c).held_release, Queue.ledger_settle]
        exact .withdraw holds
      | false =>
        have limbo : w'.limbo (w.consumer c).queue = w.limbo (w.consumer c).queue :=
          advances.tally_none _ rfl (by simp [limbo_afterNack])
        refine .inr ⟨.settle c msg, ?_, rfl, rfl, rfl⟩
        rw [ledger_at (queue_self queue declared) (held_self consumer inside _) limbo transit,
          (wellformed.books c).held_release, Queue.ledger_settle]
        exact .settle holds
    · have limbo : w'.limbo q = w.limbo q := advances.tally_none _ rfl (by simp [limbo_afterNack, mine])
      exact .inl (ledger_at (queue_other queue mine) (held_other consumer rfl mine) limbo transit)

private theorem refines_requeue (wellformed : Wellformed w) {j : QueueRef} {msg : Message}
    (store : w'.toStore = w.toStore.apply (.requeue j msg)) (happens : Happens w label w' (.requeue j msg)) :
    Refines w w' (.requeue j msg) q := by
  have queue : w'.queue = w.queue.modify j (·.pushFront msg) := congrArg Store.queue store
  have consumer : w'.consumer = w.consumer := by rw [store]; rfl
  cases happens with
  | requeue free advances =>
    have transit : w'.transit q = w.transit q := advances.tally_none _ rfl rfl
    by_cases mine : j = q
    · subst mine
      have inside : j < w.queue.size := advances.knownQueue wellformed.toRefs (by simp)
      obtain ⟨withdrawn, limbo⟩ : msg ∈ w.limbo j ∧ w'.limbo j = (w.limbo j).erase msg :=
        advances.tally_erase _ (by simp [Section.limbo]) rfl
      refine .inr ⟨.requeue msg, ?_, rfl, rfl⟩
      rw [ledger_at (queue_self queue inside) (held_same consumer j) limbo transit]
      exact .requeue withdrawn
    · have limbo : w'.limbo q = w.limbo q := advances.tally_none _ (by simp [Section.limbo, mine]) rfl
      exact .inl (ledger_at (queue_other queue mine) (held_same consumer q) limbo transit)

/-- The moves of a dispatcher that neither begin nor end a delivery. -/
private theorem refines_dispatcher {j : QueueRef} {phase : Dispatcher}
    (store : w'.toStore = w.toStore.apply (.dispatcher j phase))
    (happens : Happens w label w' (.dispatcher j phase)) : Refines w w' (.dispatcher j phase) q := by
  have rests : w.Rests w' := by cases happens <;> assumption
  have delivery : phase.delivery = (w.queue j).dispatcher.delivery := by
    cases happens with
    | lock before => rcases before with before | before <;> rw [before] <;> split <;> rfl
    | probe before => rw [before]; split <;> rfl
    | exhausted before | wait before | resume before | failed before => rw [before]; rfl
  refine .inl (ledger_frame (fun held limbo transit => ?_) (fun c => by rw [store]; rfl)
    (rests.tally_eq _) (rests.tally_eq _))
  rw [store]
  exact w.queue.observe_modify (Queue.ledger · held limbo transit) j ({ · with dispatcher := phase })
    (by simp only [Queue.ledger, delivery]) q

/-- Recording a delivery moves the head of the buffer to the selected consumer. -/
private theorem refines_record (wellformed : Wellformed w) {j : QueueRef} {c : ConsumerRef} {msg : Message}
    (store : w'.toStore = w.toStore.apply (.record j c msg)) (happens : Happens w label w' (.record j c msg)) :
    Refines w w' (.record j c msg) q := by
  have queue : w'.queue = w.queue.modify j (·.pop c msg) := congrArg Store.queue store
  have consumer : w'.consumer = w.consumer.modify c (·.record msg) := congrArg Store.consumer store
  cases happens with
  | @record _ _ _ _ rest selected head rests =>
    have limbo : w'.limbo q = w.limbo q := rests.tally_eq _
    have transit : w'.transit q = w.transit q := rests.tally_eq _
    have member : c ∈ (w.queue j).consumers := (wellformed.phase selected).2
    obtain ⟨inside, rfl⟩ := wellformed.members j c member
    by_cases mine : (w.consumer c).queue = q
    · have declared := wellformed.queueOf c inside
      have idle : (w.queue (w.consumer c).queue).dispatcher.delivery = none := by rw [selected]; rfl
      subst mine
      refine .inr ⟨.deliver c msg, ?_, rfl, rfl, rfl⟩
      rw [ledger_at (queue_self queue declared) (held_self consumer inside _) limbo transit,
        (wellformed.books c).held_record rfl, Queue.pop, head]
      exact .deliver member head idle
    · exact .inl (ledger_at (queue_other queue mine) (held_other consumer rfl mine) limbo transit)

private theorem refines_deliver (wellformed : Wellformed w) {j : QueueRef} {c : ConsumerRef} {msg : Message}
    (store : w'.toStore = w.toStore.apply (.deliver j c msg)) (happens : Happens w label w' (.deliver j c msg)) :
    Refines w w' (.deliver j c msg) q := by
  have queue : w'.queue = w.queue.modify j (·.deliver c (msg.deliver (w.consumer c).tag)) := congrArg Store.queue store
  have consumer : w'.consumer = w.consumer := by rw [store]; rfl
  cases happens with
  | written writing rests =>
    have limbo : w'.limbo q = w.limbo q := rests.tally_eq _
    have transit : w'.transit q = w.transit q := rests.tally_eq _
    have phase := wellformed.phase writing
    by_cases mine : j = q
    · subst mine
      have inside : j < w.queue.size := phase.2 ▸ wellformed.queueOf c phase.1
      have active : (w.queue j).dispatcher.delivery = some (c, msg) := by rw [writing]; rfl
      refine .inr ⟨.confirm c msg, ?_, rfl, rfl, rfl⟩
      rw [ledger_at (queue_self queue inside) (held_same consumer j) limbo transit, Queue.ledger_deliver]
      exact .confirm active
    · exact .inl (ledger_at (queue_other queue mine) (held_same consumer q) limbo transit)

/-- The rollback of a failed write is a retraction, whatever has become of the delivery. -/
private theorem refines_rollback (wellformed : Wellformed w) {j : QueueRef} {c : ConsumerRef} {msg : Message}
    (store : w'.toStore = w.toStore.apply (.rollback j c msg)) (happens : Happens w label w' (.rollback j c msg)) :
    Refines w w' (.rollback j c msg) q := by
  have queue : w'.queue = w.queue.modify j (·.rollback msg) := congrArg Store.queue store
  have consumer : w'.consumer = w.consumer.modify c (·.release msg.deliveryTag) := congrArg Store.consumer store
  cases happens with
  | rollback failed rests =>
    have limbo : w'.limbo q = w.limbo q := rests.tally_eq _
    have transit : w'.transit q = w.transit q := rests.tally_eq _
    obtain ⟨inside, rfl⟩ := wellformed.phase failed
    by_cases mine : (w.consumer c).queue = q
    · have declared := wellformed.queueOf c inside
      have active : (w.queue (w.consumer c).queue).dispatcher.delivery = some (c, msg) := by rw [failed]; rfl
      subst mine
      refine .inr ⟨.retract c msg, ?_, rfl, rfl, rfl⟩
      rw [ledger_at (queue_self queue declared) (held_self consumer inside _) limbo transit,
        (wellformed.books c).held_release]
      exact .retract active
    · exact .inl (ledger_at (queue_other queue mine) (held_other consumer rfl mine) limbo transit)

/-- The broker refines the ledger of each queue. -/
theorem ledger_step (wellformed : Wellformed w) (store : w'.toStore = w.toStore.apply effect)
    (happens : Happens w label w' effect) (q : QueueRef) : Refines w w' effect q := by
  cases effect with
  | silent => exact .inl (ledger_of_silent store happens)
  | newQueue => exact refines_newQueue store happens
  | newConsumer => exact refines_newConsumer store happens
  | takeTag => exact refines_takeTag wellformed store happens
  | enqueue => exact refines_enqueue wellformed store happens
  | signal => exact refines_signal store happens
  | registerConsumer => exact refines_registerConsumer wellformed store happens
  | unregisterConsumer => exact refines_unregisterConsumer wellformed store happens
  | ack => exact refines_ack wellformed store happens
  | nack => exact refines_nack wellformed store happens
  | requeue => exact refines_requeue wellformed store happens
  | dispatcher => exact refines_dispatcher store happens
  | record => exact refines_record wellformed store happens
  | deliver => exact refines_deliver wellformed store happens
  | rollback => exact refines_rollback wellformed store happens

end Refinement

end GolangMQ.Model
