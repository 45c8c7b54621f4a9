import GolangMQ.Model.Data
import Mathlib.Data.List.Perm.Basic

/-! # The bodies of the critical sections

A critical section that moves messages, changes the consumers of a queue or moves a dispatcher is an
`Effect`, and `Store.apply` is its body; the pieces that act on one object stand before it, under the
source's names. A loop over a Go map takes the order of its iteration as an argument. The naming and
routing operations follow on `World`.
-/

namespace GolangMQ.Model

namespace Consumer

/-- The bookkeeping of `dispatchLoop` for a delivery. -/
def record (c : Consumer) (msg : Message) : Consumer :=
  { c with
    inflight := c.inflight + 1
    inflightTags := insert msg.deliveryTag c.inflightTags
    pendingMessages := c.pendingMessages.insert msg.deliveryTag msg
    unsettled := msg :: c.unsettled }

/-- The deletion that `Broker.Ack`, `HandleNack` and the rollback of a failed write share. -/
def release (c : Consumer) (tag : UInt16) : Consumer :=
  { c with
    inflight := c.inflight - 1
    inflightTags := c.inflightTags.erase tag
    pendingMessages := c.pendingMessages.erase tag
    unsettled := ((c.pendingMessages.lookup tag).map c.unsettled.erase).getD c.unsettled }

/-- The loop of `unregisterConsumer` over `pendingMessages`, which then starts a new map. -/
def drain (c : Consumer) (order : List Message) : Consumer :=
  { c with
    inflight := order.foldl (fun inflight _ => inflight - 1) c.inflight
    inflightTags := order.foldl (fun tags msg => tags.erase msg.deliveryTag) c.inflightTags
    pendingMessages := ∅
    unsettled := c.unsettled.diff order }

/-- The check of `selectConsumer`. -/
def free (c : Consumer) : Bool := c.inflight < c.prefetch

end Consumer

namespace Queue

/-- `tag := q.nextTag; q.nextTag++` in `Publish`. -/
def takeTag (q : Queue) : Queue :=
  { q with nextTag := q.nextTag + 1, log := { q.log with tagged := q.log.tagged + 1 } }

def enqueue (q : Queue) (entry : Entry) : Queue :=
  { q with
    messages := q.messages ++ [entry.message]
    log := { q.log with enqueued := q.log.enqueued ++ [entry] } }

/-- `cond.Signal`: a registered waiter is woken, otherwise the signal is lost. -/
def signal (q : Queue) : Queue :=
  { q with
    dispatcher :=
      match q.dispatcher with
      | .parked site false => .parked site true
      | dispatcher => dispatcher }

def registerConsumer (q : Queue) (c : ConsumerRef) : Queue := { q with consumers := insert c q.consumers }

/-- The queue's part of `unregisterConsumer`, for a registered consumer. -/
def unregisterConsumer (q : Queue) (c : ConsumerRef) (order : List Message) : Queue :=
  { q with
    consumers := q.consumers.erase c
    messages := order.foldl (fun messages msg => msg :: messages) q.messages }

/-- `append([]Message{msg}, q.messages...)`. -/
def pushFront (q : Queue) (msg : Message) : Queue := { q with messages := msg :: q.messages }

/-- Messages leave the queue's custody for good. -/
def settle (q : Queue) (messages : List Message) : Queue :=
  { q with log := { q.log with settled := q.log.settled ++ messages } }

/-- Pop the head for a consumer. -/
def pop (q : Queue) (c : ConsumerRef) (msg : Message) : Queue :=
  { q with messages := q.messages.tail, dispatcher := .writing c msg }

/-- A deliver frame has been written. -/
def deliver (q : Queue) (c : ConsumerRef) (event : Deliver) : Queue :=
  { q with dispatcher := .top, log := { q.log with delivered := q.log.delivered ++ [(c, event)] } }

/-- The queue's part of the rollback of a failed write. -/
def rollback (q : Queue) (msg : Message) : Queue := { q.pushFront msg with dispatcher := .top }

end Queue

namespace Exchange

def bind (e : Exchange) (queue : QueueRef) (name routingKey : String) : Exchange :=
  { e with
    bindings := e.bindings.insert routingKey
      (((e.bindings.lookup routingKey).getD ∅).insert name queue) }

def getQueues (e : Exchange) (routingKey : String) : List QueueRef :=
  e.bindings.entries.flatMap fun entry => if entry.1 = routingKey then entry.2.values else []

end Exchange

/-- What a step does to the queues and consumers. -/
inductive Effect where
  | silent
  | newQueue (name dlx dlxRoutingKey : String)
  | newConsumer (tag : String) (queue : QueueRef) (channel : ChannelRef)
  | takeTag (q : QueueRef)
  | enqueue (q : QueueRef) (entry : Entry)
  | signal (q : QueueRef)
  | registerConsumer (c : ConsumerRef)
  | unregisterConsumer (c : ConsumerRef) (order : List Message)
  | ack (q : QueueRef) (c : ConsumerRef) (tag : UInt16)
  | nack (c : ConsumerRef) (msg : Message) (tag : UInt16) (requeue : Bool)
  | requeue (q : QueueRef) (msg : Message)
  | dispatcher (q : QueueRef) (phase : Dispatcher)
  | record (q : QueueRef) (c : ConsumerRef) (msg : Message)
  | deliver (q : QueueRef) (c : ConsumerRef) (msg : Message)
  | rollback (q : QueueRef) (c : ConsumerRef) (msg : Message)

namespace Store

def modifyQueue (s : Store) (q : QueueRef) (f : Queue → Queue) : Store :=
  { s with queue := s.queue.modify q f }

def modifyConsumer (s : Store) (c : ConsumerRef) (f : Consumer → Consumer) : Store :=
  { s with consumer := s.consumer.modify c f }

/-- The body of each critical section. -/
def apply (s : Store) : Effect → Store
  | .silent => s
  | .newQueue name dlx dlxRoutingKey => { s with queue := s.queue.alloc { name, dlx, dlxRoutingKey } }
  | .newConsumer tag queue channel => { s with consumer := s.consumer.alloc { tag, queue, channel } }
  | .takeTag q => s.modifyQueue q Queue.takeTag
  | .enqueue q entry => s.modifyQueue q (·.enqueue entry)
  | .signal q => s.modifyQueue q Queue.signal
  | .registerConsumer c => s.modifyQueue (s.consumer c).queue (·.registerConsumer c)
  | .unregisterConsumer c order =>
    (s.modifyQueue (s.consumer c).queue (·.unregisterConsumer c order)).modifyConsumer c (·.drain order)
  | .ack q c tag =>
    (s.modifyQueue q (·.settle ((s.consumer c).pendingMessages.lookup tag).toList)).modifyConsumer c (·.release tag)
  | .nack c msg tag requeue =>
    (s.modifyQueue (s.consumer c).queue (·.settle (if requeue then [] else [msg]))).modifyConsumer c (·.release tag)
  | .requeue q msg => s.modifyQueue q (·.pushFront msg)
  | .dispatcher q phase => s.modifyQueue q ({ · with dispatcher := phase })
  | .record q c msg => (s.modifyQueue q (·.pop c msg)).modifyConsumer c (·.record msg)
  | .deliver q c msg => s.modifyQueue q (·.deliver c (msg.deliver (s.consumer c).tag))
  | .rollback q c msg => (s.modifyQueue q (·.rollback msg)).modifyConsumer c (·.release msg.deliveryTag)

end Store

namespace World

/-- Run the body of a critical section. -/
def apply (w : World) (effect : Effect) : World := { w with toStore := w.toStore.apply effect }

/-- Increment counters. -/
def count (w : World) (f : Metrics → Metrics) : World := { w with metrics := f w.metrics }

def modifyExchange (w : World) (e : ExchangeRef) (f : Exchange → Exchange) : World :=
  { w with exchange := w.exchange.modify e f }

def modifyChannel (w : World) (ch : ChannelRef) (f : Channel → Channel) : World :=
  { w with channel := w.channel.modify ch f }

def modifyConnection (w : World) (k : ConnectionRef) (f : Connection → Connection) : World :=
  { w with connection := w.connection.modify k f }

/-- The name by which a consumer's queue labels its counters. -/
def queueName (w : World) (c : ConsumerRef) : String := (w.queue (w.consumer c).queue).name

/-- `NewQueue` with `go q.dispatchLoop()`, unless the name is taken. -/
def declareQueue (w : World) (name dlx dlxRoutingKey : String) : World :=
  match w.queues.lookup name with
  | some _ => w
  | none => { w.apply (.newQueue name dlx dlxRoutingKey) with queues := w.queues.insert name w.queue.size }

def declareExchange (w : World) (name : String) : World :=
  match w.exchanges.lookup name with
  | some _ => w
  | none =>
    { w with
      exchanges := w.exchanges.insert name w.exchange.size
      exchange := w.exchange.alloc { name } }

/-- The lookups of `BindQueue` under `Broker.mu`. -/
def bindTargets (w : World) (exchange queue : String) : Except BrokerError (ExchangeRef × QueueRef) :=
  match w.exchanges.lookup exchange, w.queues.lookup queue with
  | none, _ => .error .exchangeNotFound
  | some _, none => .error .queueNotFound
  | some e, some q => .ok (e, q)

/-- `Exchange.bind`, which reads the name from the queue it is given. -/
def bind (w : World) (e : ExchangeRef) (q : QueueRef) (routingKey : String) : World :=
  w.modifyExchange e (·.bind q (w.queue q).name routingKey)

/-- The message `Publish` builds for one queue. -/
def stamped (w : World) (q : QueueRef) (event : Publish) : Message :=
  ⟨(w.queue q).nextTag, event.body, event.exchange, event.routingKey⟩

/-- The tag `NewConsumer` gives. -/
def consumerTag (w : World) (ch : ChannelRef) (tag : String) : String :=
  if tag = "" then s!"ch.{(w.channel ch).id}.consumer.{(w.channel ch).consumers.keys.length + 1}" else tag

/-- `RegisterConsumer` up to the call of `registerConsumer`: the new consumer is `w.consumer.size`. -/
def newConsumer (w : World) (ch : ChannelRef) (queue tag : String) : Except BrokerError World :=
  match w.queues.lookup queue with
  | none => .error .queueNotFound
  | some q =>
    if w.consumerTag ch tag ∈ (w.channel ch).consumers then
      .error (.consumerTagInUse (w.consumerTag ch tag) (w.channel ch).id)
    else .ok (w.apply (.newConsumer (w.consumerTag ch tag) q ch))

/-- The last statements of `RegisterConsumer`. -/
def attach (w : World) (c : ConsumerRef) : World :=
  (w.count fun m => { m with consumersRegistered := bump m.consumersRegistered (w.queueName c) }).modifyChannel
    (w.consumer c).channel fun channel =>
      { channel with consumers := channel.consumers.insert (w.consumer c).tag c }

/-- The removal in `HandleNack`: the counters tell a dead letter from a drop. -/
def settleNack (w : World) (c : ConsumerRef) (msg : Message) (tag : UInt16) (requeue : Bool) : World :=
  let name := w.queueName c
  let dlx := (w.queue (w.consumer c).queue).dlx
  (w.count fun m =>
    { m with
      nacked := Function.update m.nacked name (bump (m.nacked name) requeue)
      deadLettered := if requeue ∨ dlx = "" then m.deadLettered else bump m.deadLettered name
      dropped := if requeue ∨ dlx ≠ "" then m.dropped else bump m.dropped name }).apply (.nack c msg tag requeue)

/-- The event `HandleNack` republishes to the dead-letter exchange. -/
def deadLetter (w : World) (c : ConsumerRef) (msg : Message) : Publish :=
  let queue := w.queue (w.consumer c).queue
  ⟨queue.dlx, if queue.dlxRoutingKey = "" then msg.routingKey else queue.dlxRoutingKey, msg.body⟩

/-- The write of a deliver frame has returned nil. -/
def delivered (w : World) (q : QueueRef) (c : ConsumerRef) (msg : Message) : World :=
  let channel := w.channel (w.consumer c).channel
  ((w.count fun m => { m with delivered := bump m.delivered (w.queue q).name }).modifyConnection
    channel.conn fun conn =>
    { conn with wire := conn.wire ++ [⟨⟨channel.id, 0⟩, .deliver (msg.deliver (w.consumer c).tag)⟩] }).apply
    (.deliver q c msg)

end World

end GolangMQ.Model
