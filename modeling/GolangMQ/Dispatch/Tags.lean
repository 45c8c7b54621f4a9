import GolangMQ.Dispatch.Bookkeeping
import Mathlib.Algebra.Order.Sub.Basic
import Mathlib.Data.Multiset.OrderedMonoid

/-! # Tags that come round again

A tag is taken from a counter of sixteen bits when a message is published, and identifies the message
until it is settled. Nothing stops the counter from reaching a tag that is still in use. As long as it
does not (`FreshTags`), no two messages in custody of a queue carry the same tag, and a consumer's map
holds exactly the deliveries that were recorded and not settled. A consumer that leaves one message
unacknowledged while 65535 others pass loses it: its entry is overwritten.
-/

namespace GolangMQ.Model

open Custody Machine

/-- The queue whose counter a section reads. -/
def Section.takesTag : Section → Option QueueRef
  | .takeTag q _ => some q
  | _ => none

/-- A tag is taken only when no message in custody of its queue carries it, and rollbacks are intact. -/
def FreshTags (w : World) (label : Label) : Prop :=
  IntactRollback w label ∧
    match label with
    | .run k _ => ∀ q ∈ (w.todo k).head?.bind Section.takesTag,
        ∀ msg ∈ (w.ledger q).custody, msg.deliveryTag ≠ (w.queue q).nextTag
    | _ => True

instance (w : World) : ∀ label, Decidable (FreshTags w label)
  | .run _ _ => inferInstanceAs (Decidable (_ ∧ ∀ q ∈ _, ∀ msg ∈ (w.ledger q).custody, _))
  | .accept | .request .. | .disconnect _ | .lock _ | .probe .. | .exhausted _ | .record _ | .wait _
  | .resume _ | .written _ | .failed _ | .rollback _ => inferInstanceAs (Decidable (IntactRollback w _ ∧ True))

variable {w w' : World} {label : Label} {effect : Effect} {q : QueueRef}

private theorem fresh_of_mirrors (wellformed : Wellformed w) {op : Op Message ConsumerRef} (fresh : FreshTags w label)
    (happens : Happens w label w' effect) (mirrors : Mirrors q effect op)
    (step : Ledger.Step Message.deliveryTag stamp (w.ledger q) op (w'.ledger q)) :
    Ledger.Fresh Message.deliveryTag (w.ledger q) op := by
  cases op with
  | stamp msg =>
    -- The new message carries the counter's value, which the guard says nobody else carries.
    have next : msg.deliveryTag = (w.queue q).nextTag := step.tag_eq.trans (wellformed.nextTag q).symm
    cases happens with
    | takeTag free advances =>
      obtain ⟨rest, pending, -⟩ := advances.todo
      obtain rfl : _ = q := mirrors
      intro other member
      rw [next]
      exact fresh.2 _ (by rw [pending]; rfl) other member
    | _ => contradiction
  | _ => trivial

theorem exclusive_of_reachable (reached : broker.Reachable FreshTags w) :
    ∀ q, Ledger.Exclusive Message.deliveryTag (w.ledger q) := by
  refine ledger_invariant Ledger.exclusive_initial ?_ reached
  intro w w' label effect q op before fresh happens mirrors step exclusive
  have wellformed := wellformed_of_reachable before
  exact exclusive.step (sound_of_reachable before q) step (intact_of_mirrors wellformed fresh.1 happens mirrors)
    (fresh_of_mirrors wellformed fresh happens mirrors step)

/-- The pending map stores exactly the deliveries that have been recorded and not settled. -/
def Consumer.Kept (c : Consumer) : Prop := (c.unsettled : Multiset Message) = c.pendingMessages.values

namespace Consumer.Kept

variable {c : Consumer}

protected theorem record (kept : c.Kept) {msg : Message} (absent : msg.deliveryTag ∉ c.pendingMessages) :
    (c.record msg).Kept := by
  simp only [Kept, Consumer.record, AList.values, AList.entries_insert_of_notMem absent, List.map_cons]
  rw [← Multiset.cons_coe, ← Multiset.cons_coe]
  exact congrArg (msg ::ₘ ·) kept

protected theorem release (kept : c.Kept) (books : c.Books) {tag : UInt16} {msg : Message}
    (found : c.pendingMessages.lookup tag = some msg) : (c.release tag).Kept := by
  have key := books.keyed.key_eq found
  have holds : msg ∈ (c.pendingMessages.values : Multiset Message) := AList.mem_values_iff.mpr ⟨tag, found⟩
  have unique : ((c.pendingMessages.values : Multiset Message).map Message.deliveryTag).Nodup := by
    rw [Multiset.map_coe, books.keyed.map_values]
    exact Multiset.coe_nodup.mpr (AList.keys_nodup _)
  have split := Ledger.cons_without unique holds
  unfold Kept at kept ⊢
  simp only [Consumer.release, found, Option.map_some, Option.getD_some, ← Multiset.coe_erase, kept]
  rw [books.keyed.coe_values_erase, ← split, Multiset.erase_cons_head, split, ← key]
  rfl

protected theorem drain (kept : c.Kept) {order : List Message} (all : order.Perm c.pendingMessages.values) :
    (c.drain order).Kept := by
  unfold Kept at kept ⊢
  simp only [Consumer.drain, AList.values_empty, ← Multiset.coe_sub, kept, Multiset.coe_eq_coe.mpr all]
  exact tsub_self _

end Consumer.Kept

private theorem kept_step (wellformed : Wellformed w)
    (exclusive : ∀ q, Ledger.Exclusive Message.deliveryTag (w.ledger q))
    (intact : IntactRollback w label) (kept : ∀ c, (w.consumer c).Kept)
    (store : w'.toStore = w.toStore.apply effect) (happens : Happens w label w' effect) (c : ConsumerRef) :
    (w'.consumer c).Kept := by
  have books := wellformed.books c
  have changed := w.toStore.onConsumer effect c
  rw [store]
  generalize (w.toStore.apply effect).consumer c = consumer at changed ⊢
  cases changed with
  | same => exact kept c
  | newConsumer => exact rfl
  | unregisterConsumer =>
    cases happens with
    | unregisterConsumer free member all => exact (kept c).drain all
  | ack =>
    cases happens with
    | ack free member found =>
      obtain ⟨msg, found, -⟩ := books.lookup_of_mem found
      exact (kept c).release books found
  | nack =>
    cases happens with
    | nack found => exact (kept c).release books found
  | record =>
    cases happens with
    | record phase head =>
      exact (kept c).record (absent_of_head wellformed (exclusive _) (wellformed.phase phase).2 head)
  | rollback =>
    cases happens with
    | rollback phase => exact (kept c).release books (intact (_, _) (by rw [phase]; rfl))

theorem kept_of_reachable (reached : broker.Reachable FreshTags w) : ∀ c, (w.consumer c).Kept := by
  refine reached.invariant (P := fun w => ∀ c, (w.consumer c).Kept) (fun _ => rfl) ?_
  intro source target label before kept fresh stepped
  obtain ⟨effect, store, happens⟩ := World.happens_of_step stepped
  exact kept_step (wellformed_of_reachable before) (exclusive_of_reachable before) fresh.1 kept store happens

/-- In runs that take only fresh tags, an unsettled delivery stays stored under its tag, and the dispatcher
finds no entry under the tag of the message it is about to record. -/
theorem unsettled_stored_of_fresh (reached : broker.Reachable FreshTags w) (c : ConsumerRef) :
    (∀ msg ∈ (w.consumer c).unsettled, (w.consumer c).pendingMessages.lookup msg.deliveryTag = some msg) ∧
      ∀ q msg rest, (w.queue q).dispatcher = .selected c → (w.queue q).messages = msg :: rest →
        (w.consumer c).pendingMessages.lookup msg.deliveryTag = none := by
  have wellformed := wellformed_of_reachable reached
  refine ⟨fun msg member => ?_, fun q msg rest phase head => ?_⟩
  · rw [← (wellformed.books c).keyed.mem_values, ← Multiset.mem_coe, ← kept_of_reachable reached c]
    exact member
  · have absent := absent_of_head wellformed (exclusive_of_reachable reached q) (wellformed.phase phase).2 head
    exact AList.lookup_eq_none.mpr absent

/-- A delivered message that waits for its acknowledgement while another one has been settled. -/
theorem unsettled_stored_after_ack :
    let w := broker.replay FreshTags
      (topology ++ consuming ++ publishing [7] ++ dispatching 0 0 ++ [.written 0] ++ publishing [8] ++
        dispatching 0 0 ++ [.written 0] ++ served 0 ⟨1, 0, false, .ack 2⟩
          [{ refs := [0] }, {}, {}, { refs := [0] }, {}])
    let msg : Message := ⟨1, [7], "ex", "key"⟩
    (w.consumer 0).unsettled = [msg] ∧ (w.consumer 0).pendingMessages.lookup msg.deliveryTag = some msg :=
  have unsettled := by decide +kernel
  ⟨unsettled, (unsettled_stored_of_fresh (.of_replay _) 0).1 _ (unsettled ▸ List.mem_singleton_self _)⟩

section Wrapped

/-- The steps by which a dispatch is carried out. -/
def Label.dispatches : Label → Bool
  | .record _ | .written _ | .failed _ | .rollback _ => true
  | _ => false

/-- A step of the broker, or a dispatch together with its write. -/
inductive PromptLabel where
  | step (label : Label)
  | dispatch (q : QueueRef)

/-- The broker in which every dispatch is one step with its write, and every write succeeds. -/
def promptDispatch : Machine World PromptLabel where
  init := {}
  step? w
    | .step label => if label.dispatches then none else w.step? label
    | .dispatch q => broker.run? w [.record q, .written q]

/-- Queue 0 as the schedule below keeps it, up to what the schedule does not depend on. -/
def Queue.shaped (base : Queue) (phase : Dispatcher) (tag : UInt16) (messages : List Message) : Queue :=
  { base with name := "q", messages, consumers := {0}, nextTag := tag, dispatcher := phase }

/-- Queue 0 is bound to exchange 0, consumer 0 of channel 0 is its only consumer, connection 0 has `todo`. -/
structure Standing (w : World) (todo : List Section) (phase : Dispatcher) (tag : UInt16)
    (messages : List Message) (consumer : Consumer) : Prop where
  live : (w.connection 0).live = true
  todo : (w.connection 0).todo = todo
  channel : (w.connection 0).channels.lookup 1 = some 0
  exchange : w.exchanges.lookup "ex" = some 0
  bound : (w.exchange 0).getQueues "key" = [0]
  declared : w.queues.lookup "q" = some 0
  queues : 0 < w.queue.size
  queue : ∃ base : Queue, w.queue 0 = base.shaped phase tag messages
  attached : (w.channel 0).consumers.values = [0]
  consumers : 0 < w.consumer.size
  consumer : w.consumer 0 = consumer

/-- The broker can come to stand like this. -/
def Stands (todo : List Section) (phase : Dispatcher) (tag : UInt16) (messages : List Message)
    (consumer : Consumer) : Prop :=
  ∃ w, promptDispatch.Reachable anyStep w ∧ Standing w todo phase tag messages consumer

variable {todo rest next : List Section} {first : Section} {phase phase' : Dispatcher} {tag tag' : UInt16}
  {messages messages' : List Message} {consumer consumer' : Consumer}

namespace Standing

/-- Writes to a socket and to the log of calls do not matter. -/
theorem modifyConnection (standing : Standing w todo phase tag messages consumer) (k : ConnectionRef)
    (f : Connection → Connection)
    (kept : ∀ conn, ((f conn).live, (f conn).todo, (f conn).channels) = (conn.live, conn.todo, conn.channels)) :
    Standing (w.modifyConnection k f) todo phase tag messages consumer := by
  have same := w.connection.observe_modify (fun conn => (conn.live, conn.todo, conn.channels)) k f (kept _) 0
  exact { standing with
    live := (congrArg (·.1) same).trans standing.live
    todo := (congrArg (·.2.1) same).trans standing.todo
    channel := (congrArg (·.2.2.lookup 1) same).trans standing.channel }

private theorem setTodo (standing : Standing w todo phase tag messages consumer) (next : List Section) :
    Standing (w.setTodo 0 next) next phase tag messages consumer := by
  have cell : (w.setTodo 0 next).connection 0 = { w.connection 0 with todo := next } :=
    w.connection.cell_modify_self ({ · with todo := next }) (World.inside_of_live standing.live)
  exact { standing with
    live := by rw [cell, standing.live]
    todo := by rw [cell]
    channel := by rw [cell, standing.channel] }

/-- A critical section has changed queue 0, and perhaps consumer 0. -/
theorem modifyStore (standing : Standing w todo phase tag messages consumer) (effect : Effect) (f : Queue → Queue)
    (queues : (w.toStore.apply effect).queue = w.queue.modify 0 f)
    (size : (w.toStore.apply effect).consumer.size = w.consumer.size)
    (cell : (w.toStore.apply effect).consumer 0 = consumer')
    (after : ∀ base : Queue, ∃ base' : Queue,
      f (base.shaped phase tag messages) = base'.shaped phase' tag' messages') :
    Standing (w.apply effect) todo phase' tag' messages' consumer' := by
  obtain ⟨base, before⟩ := standing.queue
  obtain ⟨base', shaped⟩ := after base
  refine { standing with
    queues := ?_, queue := ⟨base', ?_⟩, consumers := Nat.lt_of_lt_of_eq standing.consumers size.symm, consumer := cell }
  · rw [World.apply, queues]
    exact standing.queues
  · rw [World.apply, queues, Heap.cell_modify_self _ _ standing.queues, before, shaped]

/-- A critical section has changed queue 0 only. -/
theorem modifyQueue (standing : Standing w todo phase tag messages consumer) (effect : Effect) (f : Queue → Queue)
    (applied : w.toStore.apply effect = w.toStore.modifyQueue 0 f)
    (after : ∀ base : Queue, ∃ base' : Queue,
      f (base.shaped phase tag messages) = base'.shaped phase' tag' messages') :
    Standing (w.apply effect) todo phase' tag' messages' consumer :=
  standing.modifyStore effect f (congrArg Store.queue applied) (by rw [applied]; rfl)
    (by rw [applied]; exact standing.consumer) after

private theorem count (standing : Standing w todo phase tag messages consumer) (f : Metrics → Metrics) :
    Standing (w.count f) todo phase tag messages consumer := { standing with }

/-- The fields of queue 0 that the schedule reads. -/
theorem read (standing : Standing w todo phase tag messages consumer) :
    (w.queue 0).name = "q" ∧ (w.queue 0).messages = messages ∧ (w.queue 0).consumers = {0} ∧
      (w.queue 0).nextTag = tag ∧ (w.queue 0).dispatcher = phase := by
  obtain ⟨base, shaped⟩ := standing.queue
  rw [shaped]
  exact ⟨rfl, rfl, rfl, rfl, rfl⟩

private theorem lockFree (standing : Standing w todo .top tag messages consumer) : w.lockFree 0 :=
  congrArg Dispatcher.holdsLock standing.read.2.2.2.2

end Standing

namespace Stands

private theorem step (label : PromptLabel) (stands : Stands todo phase tag messages consumer)
    (stepped : ∀ w, Standing w todo phase tag messages consumer →
      ∃ w', promptDispatch.step? w label = some w' ∧ Standing w' todo phase' tag' messages' consumer') :
    Stands todo phase' tag' messages' consumer' := by
  obtain ⟨w, reached, standing⟩ := stands
  obtain ⟨w', stepped, after⟩ := stepped w standing
  exact ⟨w', reached.next label stepped, after⟩

/-- Connection 0 runs the one section it has to run. -/
theorem run (choice : Choice) (stands : Stands [first] phase tag messages consumer)
    (ran : ∀ w, Standing w [first] phase tag messages consumer →
      ∃ w', w.runSection 0 choice first = some (w', next) ∧
        Standing w' [first] phase' tag' messages' consumer') :
    Stands next phase' tag' messages' consumer' := by
  obtain ⟨w, reached, standing⟩ := stands
  obtain ⟨w', ran, after⟩ := ran w standing
  refine ⟨w'.setTodo 0 next, ?_, after.setTodo next⟩
  refine reached.next (.step (.run 0 choice)) ?_
  simp [promptDispatch, Label.dispatches, World.step?, standing.todo, ran]

/-- Connection 0 receives an envelope for channel 1. -/
theorem request (env : Envelope) (stands : Stands [] phase tag messages consumer)
    (routed : ∀ w : World, (w.connection 0).channels.lookup 1 = some 0 → w.handle 0 env = (w, next)) :
    Stands next phase tag messages consumer := by
  obtain ⟨w, reached, standing⟩ := stands
  refine ⟨w.setTodo 0 next, ?_, standing.setTodo next⟩
  refine reached.next (.step (.request 0 env)) ?_
  simp [promptDispatch, Label.dispatches, World.step?, standing.live, standing.todo,
    routed w standing.channel]

/-- A message is published to the queue. -/
theorem publish (body : List UInt8) (stands : Stands [] .top tag messages consumer) :
    Stands [] .top (tag + 1) (messages ++ [⟨tag, body, "ex", "key"⟩]) consumer := by
  let event : Publish := ⟨"ex", "key", body⟩
  have asked : Stands [.publish event (some ⟨1, 0⟩)] .top tag messages consumer := by
    refine stands.request ⟨1, 0, false, .publish event⟩ fun w channel => ?_
    simp only [World.handle, channel]
    rfl
  have found : Stands [.route 0 event] .top tag messages consumer := by
    refine asked.run {} fun w standing =>
      ⟨(w.modifyConnection 0 fun conn => { conn with published := conn.published ++ [event] }).count
        fun m => { m with published := bump m.published "ex" }, ?_, ?_⟩
    · simp [World.runSection, World.modifyConnection, standing.exchange, event]
    · refine (standing.modifyConnection 0 _ ?_).count _
      exact fun _ => rfl
  have taking : Stands [.takeTag 0 event] .top tag messages consumer := by
    refine found.run { refs := [0] } fun w standing => ⟨w, ?_, standing⟩
    simp [World.runSection, standing.bound, event]
  have appending : Stands [.enqueue 0 ⟨tag, body, "ex", "key"⟩] .top (tag + 1) messages consumer := by
    refine taking.run {} fun w standing => ⟨w.apply (.takeTag 0), ?_, ?_⟩
    · simp [World.runSection, standing.lockFree, World.stamped, standing.read, event]
    · exact standing.modifyQueue _ Queue.takeTag rfl fun base => ⟨base.takeTag, rfl⟩
  have signalling : Stands [.signal 0] .top (tag + 1) (messages ++ [⟨tag, body, "ex", "key"⟩]) consumer := by
    refine appending.run {} fun w standing =>
      ⟨(w.count fun m => { m with enqueued := bump m.enqueued "q" }).apply
        (.enqueue 0 ⟨0, w.currentCall 0, ⟨tag, body, "ex", "key"⟩⟩), ?_, ?_⟩
    · simp [World.runSection, standing.lockFree, standing.read]
    · exact (standing.count _).modifyQueue _ (·.enqueue _) rfl fun base => ⟨base.enqueue _, rfl⟩
  refine signalling.run {} fun w standing => ⟨w.apply (.signal 0), rfl, ?_⟩
  exact standing.modifyQueue _ Queue.signal rfl fun base => ⟨base, rfl⟩

/-- The message is handed to the consumer and written. -/
theorem dispatch {msg : Message} (stands : Stands [] .top tag (msg :: messages) consumer)
    (free : consumer.free) : Stands [] .top tag messages (consumer.record msg) := by
  have scanning : Stands [] (.scanning []) tag (msg :: messages) consumer := by
    refine stands.step (.step (.lock 0)) fun w standing => ⟨w.apply (.dispatcher 0 (.scanning [])), ?_, ?_⟩
    · simp [promptDispatch, Label.dispatches, World.step?, standing.read]
    · exact standing.modifyQueue _ _ rfl fun base => ⟨base, rfl⟩
  have selected : Stands [] (.selected 0) tag (msg :: messages) consumer := by
    refine scanning.step (.step (.probe 0 0)) fun w standing => ⟨w.apply (.dispatcher 0 (.selected 0)), ?_, ?_⟩
    · simp [promptDispatch, Label.dispatches, World.step?, standing.read, standing.consumer, free]
    · exact standing.modifyQueue _ _ rfl fun base => ⟨base, rfl⟩
  refine selected.step (.dispatch 0) fun w standing => ?_
  have recorded : Standing (w.apply (.record 0 0 msg)) [] (.writing 0 msg) tag messages (consumer.record msg) := by
    refine standing.modifyStore (.record 0 0 msg) (·.pop 0 msg) rfl rfl ?_ fun base => ⟨base, rfl⟩
    rw [← standing.consumer]
    exact w.consumer.cell_modify_self (·.record msg) standing.consumers
  refine ⟨(w.apply (.record 0 0 msg)).delivered 0 0 msg, ?_, ?_⟩
  · simp [promptDispatch, Machine.run?, broker, World.step?, standing.read, recorded.read]
  · refine ((recorded.count _).modifyConnection _ _ ?_).modifyQueue (.deliver 0 0 msg) (·.deliver 0 _) rfl ?_
    · exact fun _ => rfl
    · exact fun base => ⟨base.deliver 0 _, rfl⟩

/-- The consumer's client acknowledges a delivery. -/
theorem ack (delivery : UInt16) (stands : Stands [] .top tag messages consumer)
    (mine : consumer.queue = 0) (inflight : delivery ∈ consumer.inflightTags) :
    Stands [] .top tag messages (consumer.release delivery) := by
  have asked : Stands [.ackRange 0 delivery] .top tag messages consumer := by
    refine stands.request ⟨1, 0, false, .ack delivery⟩ fun w channel => ?_
    simp only [World.handle, channel]
    rfl
  have scanning : Stands [.ackScan [0] delivery] .top tag messages consumer := by
    refine asked.run { refs := [0] } fun w standing => ⟨w, ?_, standing⟩
    simp [World.runSection, standing.attached]
  have found : Stands [.ack "q" delivery] .top tag messages consumer := by
    refine scanning.run {} fun w standing => ⟨w, ?_, standing⟩
    simp [World.runSection, standing.consumer, inflight, World.queueName, mine, standing.read]
  have resolved : Stands [.ackQueue 0 delivery] .top tag messages consumer := by
    refine found.run {} fun w standing => ⟨w, ?_, standing⟩
    simp [World.runSection, standing.declared]
  have settled : Stands [.signal 0] .top tag messages (consumer.release delivery) := by
    refine resolved.run { refs := [0] } fun w standing =>
      ⟨(w.count fun m => { m with acked := bump m.acked "q" }).apply (.ack 0 0 delivery), ?_, ?_⟩
    · simp [World.runSection, standing.lockFree, standing.read, standing.consumer, inflight, Ranges]
    · refine (standing.count _).modifyStore (.ack 0 0 delivery) (·.settle _) rfl rfl ?_ fun base => ⟨base.settle _, rfl⟩
      rw [← standing.consumer]
      exact w.consumer.cell_modify_self (·.release delivery) standing.consumers
  refine settled.run {} fun w standing => ⟨w.apply (.signal 0), rfl, ?_⟩
  exact standing.modifyQueue _ Queue.signal rfl fun base => ⟨base, rfl⟩

end Stands

/-- The consumer has one delivery in flight, and has not settled `oldest`. -/
structure Holding (consumer : Consumer) (oldest : Message) : Prop where
  queue : consumer.queue = 0
  prefetch : consumer.prefetch = 10
  inflight : consumer.inflight = 1
  unsettled : oldest ∈ consumer.unsettled

private theorem Holding.free {oldest : Message} (holding : Holding consumer oldest) : consumer.free := by
  simp [Consumer.free, holding.prefetch, holding.inflight]

/-- A message that is delivered and acknowledged leaves the rest of the books alone. -/
theorem Holding.round {oldest : Message} (holding : Holding consumer oldest) (msg : Message) :
    Holding ((consumer.record msg).release msg.deliveryTag) oldest where
  queue := holding.queue
  prefetch := holding.prefetch
  inflight := by simp [Consumer.record, Consumer.release, holding.inflight]
  unsettled := by simp [Consumer.record, Consumer.release, holding.unsettled]

/-- Each round of a publication, its delivery and its acknowledgement moves the counter on by one. -/
theorem Stands.rounds {oldest : Message} (stands : Stands [] .top tag [] consumer)
    (holding : Holding consumer oldest) (n : ℕ) :
    ∃ consumer', Stands [] .top (tag + UInt16.ofNat n) [] consumer' ∧ Holding consumer' oldest := by
  induction n with
  | zero => exact ⟨consumer, by simpa using stands, holding⟩
  | succ n ih =>
    obtain ⟨before, stands, holding⟩ := ih
    have delivered := (stands.publish [8]).dispatch holding.free
    have settled := delivered.ack (tag + UInt16.ofNat n) holding.queue (Finset.mem_insert_self ..)
    have counter : tag + UInt16.ofNat n + 1 = tag + UInt16.ofNat (n + 1) := by
      rw [UInt16.add_assoc]
      exact congrArg (tag + ·) (UInt16.ofNat_add n 1).symm
    exact ⟨_, counter ▸ settled, holding.round ⟨tag + UInt16.ofNat n, [8], "ex", "key"⟩⟩

/-- A consumer has received one message and not acknowledged it. -/
def unacknowledged : List PromptLabel :=
  (topology ++ consuming ++ publishing [7] ++ [Label.lock 0, .probe 0 0]).map .step ++ [.dispatch 0]

private theorem stands_unacknowledged :
    ∃ consumer, Stands [] .top 2 [] consumer ∧ Holding consumer ⟨1, [7], "ex", "key"⟩ := by
  let w := promptDispatch.replay anyStep unacknowledged
  have queue : w.queue 0 = (w.queue 0).shaped .top 2 [] := by
    have name : (w.queue 0).name = "q" := by decide +kernel
    have messages : (w.queue 0).messages = [] := by decide +kernel
    have consumers : (w.queue 0).consumers = {0} := by decide +kernel
    have nextTag : (w.queue 0).nextTag = 2 := by decide +kernel
    have dispatcher : (w.queue 0).dispatcher = .top := by decide +kernel
    rw [Queue.shaped, ← name, ← messages, ← consumers, ← nextTag, ← dispatcher]
  refine ⟨w.consumer 0, ⟨w, .of_replay _, ?_⟩, ?_⟩
  · constructor
    case queue => exact ⟨_, queue⟩
    case consumer => rfl
    all_goals decide +kernel
  · constructor <;> decide +kernel

/-- A message that is never acknowledged is overwritten when its tag comes round again. -/
theorem overwritten_of_wrapped_tag :
    ¬ ∀ w, promptDispatch.Reachable anyStep w → ∀ q, ∀ c ∈ (w.queue q).consumers,
      ∀ msg ∈ (w.consumer c).unsettled, (w.consumer c).pendingMessages.lookup msg.deliveryTag = some msg := by
  intro stored
  obtain ⟨first, stands, holding⟩ := stands_unacknowledged
  obtain ⟨before, stands, holding⟩ := stands.rounds holding 65535
  have wrapped : (2 : UInt16) + UInt16.ofNat 65535 = 1 := by decide
  rw [wrapped] at stands
  obtain ⟨w, reached, standing⟩ := (stands.publish [9]).dispatch holding.free
  have found := stored w reached 0 0 (by rw [standing.read.2.2.1]; decide) ⟨1, [7], "ex", "key"⟩ (by
    rw [standing.consumer]
    exact List.mem_cons_of_mem _ holding.unsettled)
  rw [standing.consumer, Consumer.record, AList.lookup_insert] at found
  exact absurd found (by decide)

end Wrapped

end GolangMQ.Model
