import GolangMQ.Machine.Core
import GolangMQ.Model.Operations

/-! # Goroutines and their interleavings

The goroutine of a connection reads one envelope after another. Handling one is a list of sections
still to run; running the first one may put further sections before the rest, as a call or a loop
does. The dispatcher of a queue is a state machine of its own, with one label for each of its moves.
Any goroutine may move at any time, except that a section under `Queue.mu` waits while the
dispatcher holds that lock. Labels carry every other choice: what a client sends, the order in which
a map is iterated, and whether a write succeeds.

`Connection.mu`, `Channel.consumers` and `Connection.channels` are used by one goroutine only, so
the statements under that lock need no section of their own.
-/

namespace GolangMQ.Model

/-- The choices of one section: iteration orders, and the outcome of a write. -/
structure Choice where
  refs : List ℕ := []
  messages : List Message := []
  ok : Bool := true

inductive Label where
  | accept
  | request (k : ConnectionRef) (env : Envelope)
  | disconnect (k : ConnectionRef)
  | run (k : ConnectionRef) (choice : Choice)
  | lock (q : QueueRef)
  | probe (q : QueueRef) (c : ConsumerRef)
  | exhausted (q : QueueRef)
  | record (q : QueueRef)
  | wait (q : QueueRef)
  | resume (q : QueueRef)
  | written (q : QueueRef)
  | failed (q : QueueRef)
  | rollback (q : QueueRef)

/-- `order` visits every element of a set once. -/
def Ranges (order : List ℕ) (set : Finset ℕ) : Prop := order.Nodup ∧ order.toFinset = set

instance (order : List ℕ) (set : Finset ℕ) : Decidable (Ranges order set) :=
  inferInstanceAs (Decidable (_ ∧ _))

/-- `Channel.route` and the decoding at the start of each handler. Four handlers answer a payload
they cannot decode with an error, `HandlePublish` drops it, and the two declarations carry on. -/
def route (ch : ChannelRef) (env : Envelope) : List Section :=
  let undecodable : List Section := [.reply ⟨env.header, .error .undecodable⟩]
  match env.request with
  | .publish event => if env.malformed then [] else [.publish event (some env.header)]
  | .consume queue tag => if env.malformed then undecodable else [.consume ch env.header queue tag]
  | .ack tag => if env.malformed then undecodable else [.ackRange ch tag]
  | .nack tag requeue => if env.malformed then undecodable else [.nackRange ch tag (requeue.getD true)]
  | .queueDeclare name dlx dlxRoutingKey =>
    [.declareQueue name dlx dlxRoutingKey, .reply ⟨env.header, .queueDeclareOK name⟩]
  | .exchangeDeclare name => [.declareExchange name, .reply ⟨env.header, .exchangeDeclareOK name⟩]
  | .queueBind queue exchange routingKey =>
    if env.malformed then undecodable
    else [.bindQueue exchange queue routingKey, .reply ⟨env.header, .queueBindOK⟩]
  | _ => []

namespace World

/-- `Connection.ChannelOpen` stores a new channel under the id, whatever was there. -/
def channelOpen (w : World) (k : ConnectionRef) (id : UInt16) : World :=
  ({ w with channel := w.channel.alloc { id, conn := k } }).modifyConnection k fun conn =>
    { conn with channels := conn.channels.insert id w.channel.size }

/-- `Connection.Handle`: open, close, or route to an open channel. -/
def handle (w : World) (k : ConnectionRef) (env : Envelope) : World × List Section :=
  match env.request with
  | .channelOpen id => (w.channelOpen k id, [.reply ⟨⟨0, env.requestID⟩, .channelOpenOK id⟩])
  | .channelClose =>
    (w.modifyConnection k fun conn => { conn with channels := conn.channels.erase env.channelID },
      (((w.connection k).channels.lookup env.channelID).map Section.cleanup).toList ++
        [.reply ⟨env.header, .channelCloseOK env.channelID⟩])
  | _ =>
    match (w.connection k).channels.lookup env.channelID with
    | none => (w, [.reply ⟨env.header, .error .channelNotOpen⟩])
    | some ch => (w, Model.route ch env)

/-- No dispatcher step is under way inside `Queue.mu`. -/
def lockFree (w : World) (q : QueueRef) : Prop := (w.queue q).dispatcher.holdsLock = false

instance (w : World) (q : QueueRef) : Decidable (w.lockFree q) := inferInstanceAs (Decidable (_ = _))

/-- The number the `Publish` call in progress on a connection has in its log. -/
def currentCall (w : World) (k : ConnectionRef) : ℕ := (w.connection k).published.length - 1

/-- One section of the goroutine of connection `k`: the world after it, and what it leads to.
The result is `none` when the section has to wait for a lock, or for a choice that is not one. -/
def runSection (w : World) (k : ConnectionRef) (choice : Choice) : Section → Option (World × List Section)
  | .publish event report =>
    let w := w.modifyConnection k fun conn => { conn with published := conn.published ++ [event] }
    match w.exchanges.lookup event.exchange with
    | none =>
      some (w.count fun m => { m with publishErrors := m.publishErrors + 1 },
        (report.map fun header =>
          Section.reply ⟨header, .error (.broker (.publishExchangeNotFound event.exchange))⟩).toList)
    | some e => some (w.count fun m => { m with published := bump m.published event.exchange }, [.route e event])
  | .route e event =>
    if choice.refs.Perm ((w.exchange e).getQueues event.routingKey) then
      some (if choice.refs = [] then
          w.count fun m => { m with publishUnroutable := bump m.publishUnroutable event.exchange }
        else w,
        choice.refs.map (Section.takeTag · event))
    else none
  | .takeTag q event => if w.lockFree q then some (w.apply (.takeTag q), [.enqueue q (w.stamped q event)]) else none
  | .enqueue q msg =>
    if w.lockFree q then
      some ((w.count fun m => { m with enqueued := bump m.enqueued (w.queue q).name }).apply
        (.enqueue q ⟨k, w.currentCall k, msg⟩), [.signal q])
    else none
  | .signal q => some (w.apply (.signal q), [])
  | .consume ch header queue tag =>
    match w.newConsumer ch queue tag with
    | .error error => some (w, [.reply ⟨header, .error (.broker error)⟩])
    | .ok next => some (next, [.register w.consumer.size, .attach w.consumer.size header])
  | .register c =>
    if w.lockFree (w.consumer c).queue then
      some (w.apply (.registerConsumer c), [.signal (w.consumer c).queue])
    else none
  | .attach c header => some (w.attach c, [.reply ⟨header, .consumeOK (w.consumer c).tag⟩])
  | .ackRange ch tag =>
    if choice.refs.Perm (w.channel ch).consumers.values then some (w, [.ackScan choice.refs tag]) else none
  | .ackScan [] _ => some (w, [])
  | .ackScan (c :: rest) tag =>
    if tag ∈ (w.consumer c).inflightTags then some (w, [.ack (w.queueName c) tag])
    else some (w, [.ackScan rest tag])
  | .ack name tag =>
    match w.queues.lookup name with
    | none => some (w, [])
    | some q => some (w, [.ackQueue q tag])
  | .ackQueue q tag =>
    if w.lockFree q ∧ Ranges choice.refs (w.queue q).consumers then
      match choice.refs.find? fun c => tag ∈ (w.consumer c).inflightTags with
      | none => some (w, [])
      | some c =>
        some ((w.count fun m => { m with acked := bump m.acked (w.queue q).name }).apply (.ack q c tag), [.signal q])
    else none
  | .nackRange ch tag requeue =>
    if choice.refs.Perm (w.channel ch).consumers.values then some (w, [.nackScan choice.refs tag requeue])
    else none
  | .nackScan [] _ _ => some (w, [])
  | .nackScan (c :: rest) tag requeue =>
    match (w.consumer c).pendingMessages.lookup tag with
    | none => some (w, [.nackScan rest tag requeue])
    | some msg =>
      some (w.settleNack c msg tag requeue,
        (if requeue then [.requeue (w.consumer c).queue msg]
          else if (w.queue (w.consumer c).queue).dlx = "" then []
          else [.publish (w.deadLetter c msg) none]) ++ [.signal (w.consumer c).queue])
  | .requeue q msg => if w.lockFree q then some (w.apply (.requeue q msg), []) else none
  | .declareQueue name dlx dlxRoutingKey => some (w.declareQueue name dlx dlxRoutingKey, [])
  | .declareExchange name => some (w.declareExchange name, [])
  | .bindQueue exchange queue routingKey =>
    match w.bindTargets exchange queue with
    | .error _ => some (w, [])
    | .ok (e, q) => some (w, [.bind e q routingKey])
  | .bind e q routingKey => some (w.bind e q routingKey, [])
  | .cleanup ch =>
    if choice.refs.Perm (w.channel ch).consumers.values then some (w, choice.refs.map Section.unregister)
    else none
  | .unregister c =>
    let q := (w.consumer c).queue
    if ¬ w.lockFree q then none
    else if c ∉ (w.queue q).consumers then some (w, [])
    else if choice.messages.Perm (w.consumer c).pendingMessages.values then
      some ((w.count fun m =>
          { m with consumersUnregistered := bump m.consumersUnregistered (w.queueName c) }).apply
        (.unregisterConsumer c choice.messages), [.signal q])
    else none
  | .reply frame =>
    some (if choice.ok then w.modifyConnection k fun conn => { conn with wire := conn.wire ++ [frame] } else w, [])
  | .teardown =>
    if choice.refs.Perm (w.connection k).channels.values then
      some (w.count fun m => { m with connectionsClosed := m.connectionsClosed + 1 },
        choice.refs.map Section.cleanup ++ [.depart])
    else none
  | .depart => some (w.modifyConnection k fun conn => { conn with live := false }, [])

def setTodo (w : World) (k : ConnectionRef) (todo : List Section) : World :=
  w.modifyConnection k fun conn => { conn with todo }

/-- One step of one goroutine, or of the outside world. -/
def step? (w : World) : Label → Option World
  | .accept =>
    some ({ w with connection := w.connection.alloc { live := true } }.count fun m =>
      { m with connectionsOpened := m.connectionsOpened + 1 })
  | .request k env =>
    if (w.connection k).live ∧ (w.connection k).todo = [] then
      some ((w.handle k env).1.setTodo k (w.handle k env).2)
    else none
  | .disconnect k =>
    if (w.connection k).live ∧ (w.connection k).todo = [] then some (w.setTodo k [.teardown]) else none
  | .run k choice =>
    match (w.connection k).todo with
    | [] => none
    | first :: rest => (w.runSection k choice first).map fun (next, sections) => next.setTodo k (sections ++ rest)
  | .lock q =>
    match (w.queue q).dispatcher with
    | .top | .parked .noMessage true =>
      some (w.apply (.dispatcher q (if (w.queue q).messages = [] then .waiting .noMessage else .scanning [])))
    | _ => none
  | .probe q c =>
    match (w.queue q).dispatcher with
    | .scanning passed =>
      if c ∈ (w.queue q).consumers ∧ c ∉ passed then
        some (w.apply (.dispatcher q (if (w.consumer c).free then .selected c else .scanning (c :: passed))))
      else none
    | _ => none
  | .exhausted q =>
    match (w.queue q).dispatcher with
    | .scanning passed =>
      if passed.toFinset = (w.queue q).consumers then some (w.apply (.dispatcher q (.waiting .noConsumer))) else none
    | _ => none
  | .record q =>
    match (w.queue q).dispatcher, (w.queue q).messages with
    | .selected c, msg :: _ => some (w.apply (.record q c msg))
    | _, _ => none
  | .wait q =>
    match (w.queue q).dispatcher with
    | .waiting site => some (w.apply (.dispatcher q (.parked site false)))
    | _ => none
  | .resume q =>
    match (w.queue q).dispatcher with
    | .parked .noConsumer true => some (w.apply (.dispatcher q .top))
    | _ => none
  | .written q =>
    match (w.queue q).dispatcher with
    | .writing c msg => some (w.delivered q c msg)
    | _ => none
  | .failed q =>
    match (w.queue q).dispatcher with
    | .writing c msg =>
      some ((w.count fun m => { m with deliverErrors := bump m.deliverErrors (w.queue q).name }).apply
        (.dispatcher q (.failed c msg)))
    | _ => none
  | .rollback q =>
    match (w.queue q).dispatcher with
    | .failed c msg => some (w.apply (.rollback q c msg))
    | _ => none

end World

/-- The broker with every interleaving of its goroutines. -/
def broker : Machine World Label where
  init := {}
  step? := World.step?

/-- The labels by which connection `k` handles one envelope without interruption. -/
def served (k : ConnectionRef) (env : Envelope) (choices : List Choice) : List Label :=
  .request k env :: choices.map (Label.run k)

/-- A connection opens channel 1 and declares an exchange and a queue bound to it. -/
def topology : List Label :=
  .accept :: served 0 ⟨0, 0, false, .channelOpen 1⟩ [{}] ++
    served 0 ⟨1, 0, false, .exchangeDeclare "ex"⟩ [{}, {}] ++
    served 0 ⟨1, 0, false, .queueDeclare "q" "" ""⟩ [{}, {}] ++
    served 0 ⟨1, 0, false, .queueBind "q" "ex" "key"⟩ [{}, {}, {}]

/-- A consumer of that queue on channel 1. -/
def consuming : List Label := served 0 ⟨1, 0, false, .consume "q" ""⟩ [{}, {}, {}, {}, {}]

/-- A message published to that queue. -/
def publishing (body : List UInt8) : List Label :=
  served 0 ⟨1, 0, false, .publish ⟨"ex", "key", body⟩⟩ [{}, { refs := [0] }, {}, {}, {}]

/-- The dispatcher of queue `q` hands its first message to consumer `c`. -/
def dispatching (q : QueueRef) (c : ConsumerRef) : List Label := [.lock q, .probe q c, .record q]

end GolangMQ.Model
