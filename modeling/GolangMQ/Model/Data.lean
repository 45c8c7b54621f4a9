import GolangMQ.Machine.Heap
import GolangMQ.ToMathlib.Collections
import Mathlib.Data.Finset.Insert

/-! # The broker's data model

The structs of the `broker` package and the protocol payloads its handlers read and write. Pointers
are references into heaps, Go maps are association lists, sets of pointers are finite sets, and the
delivery tag is a `uint16`. An error is kept with the call of `fmt.Errorf` that makes it rather than as rendered
text; `json.Unmarshal` contributes an arbitrary event together with whether it failed.

Three groups of fields are not in the structs: where a goroutine stands (`Queue.dispatcher`,
`Connection.todo`), what has been written to a socket (`Connection.wire`), and observations that no
operation reads (`Log`, `Consumer.unsettled`, `Connection.published`). Not modelled: `Consumer.ch`,
which nothing reads, the tuning parameters of a connection, and the handshake before it is open.
-/

namespace GolangMQ

/-- An argument of a format. -/
inductive Arg where
  | int (value : Int64)
  | uint16 (value : UInt16)
  | duration (nanos : Int64)
  | text (value : String)
deriving DecidableEq, Repr

/-- A call of `fmt.Errorf`. -/
structure Errorf where
  format : String
  args : List Arg
deriving DecidableEq, Repr

end GolangMQ

namespace GolangMQ.Model

abbrev QueueRef := ℕ
abbrev ExchangeRef := ℕ
abbrev ConsumerRef := ℕ
abbrev ChannelRef := ℕ
abbrev ConnectionRef := ℕ

/-- `protocol.Publish`. -/
structure Publish where
  exchange : String
  routingKey : String
  body : List UInt8
deriving DecidableEq, Repr

structure Message where
  deliveryTag : UInt16
  body : List UInt8
  exchange : String
  routingKey : String
deriving DecidableEq, Repr

/-- `protocol.Deliver`. -/
structure Deliver where
  deliveryTag : UInt16
  body : List UInt8
  exchange : String
  routingKey : String
  consumerTag : String
deriving DecidableEq, Repr

/-- The message a deliver frame carries. -/
def Deliver.message (deliver : Deliver) : Message :=
  ⟨deliver.deliveryTag, deliver.body, deliver.exchange, deliver.routingKey⟩

/-- The payload `dispatchLoop` builds for a consumer. -/
def Message.deliver (msg : Message) (consumerTag : String) : Deliver :=
  ⟨msg.deliveryTag, msg.body, msg.exchange, msg.routingKey, consumerTag⟩

@[simp] theorem Message.message_deliver (msg : Message) (consumerTag : String) :
    (msg.deliver consumerTag).message = msg := rfl

/-- The errors of `BindQueue`, `Publish` and `RegisterConsumer`. The first two word a missing exchange differently; the
errors of `Ack` are discarded by its only caller. -/
inductive BrokerError where
  | exchangeNotFound
  | publishExchangeNotFound (exchange : String)
  | queueNotFound
  | consumerTagInUse (tag : String) (channel : UInt16)
deriving DecidableEq, Repr

def BrokerError.errorf : BrokerError → Errorf
  | .exchangeNotFound => ⟨"exchange not found", []⟩
  | .publishExchangeNotFound exchange => ⟨"exchange %q not found", [.text exchange]⟩
  | .queueNotFound => ⟨"queue not found", []⟩
  | .consumerTagInUse tag channel => ⟨"consumer tag %q already in use on channel %d", [.text tag, .uint16 channel]⟩

/-- What an `error` reply reports. -/
inductive Cause where
  | undecodable
  | channelNotOpen
  | broker (error : BrokerError)
deriving DecidableEq, Repr

/-- The `Message` of an `error` reply: a text, or what `fmt.Errorf` makes of its call. A payload that does not decode is
reported in the words of `encoding/json`. -/
def Cause.message (json : String) : Cause → String ⊕ Errorf
  | .undecodable => .inl json
  | .channelNotOpen => .inl "channel with requested channelID not open for communication"
  | .broker error => .inr error.errorf

private theorem BrokerError.errorf_injective : Function.Injective errorf := by
  intro error error' same
  cases error <;> cases error' <;> simp_all [errorf]

/-- A message that is not `encoding/json`'s tells its cause. -/
theorem Cause.message_inj {json : String} {cause cause' : Cause} (decoded : cause ≠ .undecodable)
    (decoded' : cause' ≠ .undecodable) : cause.message json = cause'.message json ↔ cause = cause' := by
  refine ⟨fun same => ?_, congrArg _⟩
  cases cause with
  | undecodable => exact absurd rfl decoded
  | channelNotOpen =>
    cases cause' with
    | undecodable => exact absurd rfl decoded'
    | channelNotOpen => rfl
    | broker => contradiction
  | broker =>
    cases cause' with
    | undecodable => exact absurd rfl decoded'
    | channelNotOpen => contradiction
    | broker => exact congrArg _ (BrokerError.errorf_injective (Sum.inr.inj same))

/-- The payloads the server sends. -/
inductive Payload where
  | error (cause : Cause)
  | channelOpenOK (id : UInt16)
  | channelCloseOK (id : UInt16)
  | consumeOK (consumerTag : String)
  | queueDeclareOK (name : String)
  | exchangeDeclareOK (name : String)
  | queueBindOK
  | deliver (event : Deliver)
deriving DecidableEq, Repr

/-- The channel and request a reply answers. -/
structure Header where
  channelID : UInt16
  requestID : UInt16
deriving DecidableEq, Repr

/-- An envelope as the server writes it. -/
structure Frame where
  header : Header
  payload : Payload
deriving DecidableEq, Repr

/-- The payloads a client sends, by the type of their envelope. -/
inductive Request where
  | channelOpen (id : UInt16)
  | channelClose
  | publish (event : Publish)
  | consume (queue consumerTag : String)
  | ack (deliveryTag : UInt16)
  | nack (deliveryTag : UInt16) (requeue : Option Bool)
  | queueDeclare (name deadLetterExchange deadLetterRoutingKey : String)
  | exchangeDeclare (name : String)
  | queueBind (queue exchange routingKey : String)
  | other
deriving DecidableEq, Repr

/-- An envelope as the server reads it. `malformed` says that `json.Unmarshal` failed on the
payload, in which case `request` is whatever it had filled in. -/
structure Envelope where
  channelID : UInt16
  requestID : UInt16
  malformed : Bool := false
  request : Request
deriving DecidableEq, Repr

def Envelope.header (env : Envelope) : Header := ⟨env.channelID, env.requestID⟩

/-- `prefetch` is a constant of `NewConsumer`; `unsettled` lists the deliveries recorded here that
have been neither settled nor put back. -/
structure Consumer where
  tag : String := ""
  queue : QueueRef := 0
  channel : ChannelRef := 0
  prefetch : ℤ := 10
  inflight : ℤ := 0
  inflightTags : Finset UInt16 := ∅
  pendingMessages : AList (fun _ : UInt16 => Message) := ∅
  unsettled : List Message := []

instance : Inhabited Consumer := ⟨{}⟩

/-- The two places at which `dispatchLoop` waits. -/
inductive WaitSite where
  | noMessage
  | noConsumer
deriving DecidableEq, Repr

/-- Where the dispatcher of a queue stands. It holds `Queue.mu` while it looks for a consumer, while
it has one, and until `cond.Wait` has registered it. -/
inductive Dispatcher where
  | top
  | scanning (passed : List ConsumerRef)
  | selected (consumer : ConsumerRef)
  | waiting (site : WaitSite)
  | parked (site : WaitSite) (woken : Bool)
  | writing (consumer : ConsumerRef) (msg : Message)
  | failed (consumer : ConsumerRef) (msg : Message)
deriving DecidableEq, Repr

/-- The phases that span several steps under `Queue.mu`. -/
def Dispatcher.holdsLock : Dispatcher → Bool
  | .scanning _ | .selected _ | .waiting _ => true
  | _ => false

/-- The delivery whose write has not returned, or whose failed write has not been rolled back. -/
def Dispatcher.delivery : Dispatcher → Option (ConsumerRef × Message)
  | .writing consumer msg | .failed consumer msg => some (consumer, msg)
  | _ => none

/-- An enqueued message with the goroutine that published it and the number of that `Publish` call. -/
structure Entry where
  publisher : ConnectionRef
  call : ℕ
  message : Message
deriving DecidableEq, Repr

/-- What has happened on a queue: tags taken, messages appended, deliveries written, and messages
removed by an ack or by a nack without requeue. -/
structure Log where
  tagged : ℕ := 0
  enqueued : List Entry := []
  delivered : List (ConsumerRef × Deliver) := []
  settled : List Message := []

structure Queue where
  name : String := ""
  messages : List Message := []
  consumers : Finset ConsumerRef := ∅
  nextTag : UInt16 := 1
  dlx : String := ""
  dlxRoutingKey : String := ""
  dispatcher : Dispatcher := .top
  log : Log := {}

instance : Inhabited Queue := ⟨{}⟩

structure Exchange where
  name : String := ""
  bindings : AList (fun _ : String => AList (fun _ : String => QueueRef)) := ∅

instance : Inhabited Exchange := ⟨{}⟩

structure Channel where
  id : UInt16 := 0
  conn : ConnectionRef := 0
  consumers : AList (fun _ : String => ConsumerRef) := ∅

instance : Inhabited Channel := ⟨{}⟩

/-- The atomic sections of the goroutine that serves a connection, each with the local variables the
rest of its function still uses. -/
inductive Section where
  | publish (event : Publish) (report : Option Header)
  | route (exchange : ExchangeRef) (event : Publish)
  | takeTag (queue : QueueRef) (event : Publish)
  | enqueue (queue : QueueRef) (msg : Message)
  | signal (queue : QueueRef)
  | consume (channel : ChannelRef) (header : Header) (queue consumerTag : String)
  | register (consumer : ConsumerRef)
  | attach (consumer : ConsumerRef) (header : Header)
  | ackRange (channel : ChannelRef) (tag : UInt16)
  | ackScan (consumers : List ConsumerRef) (tag : UInt16)
  | ack (queue : String) (tag : UInt16)
  | ackQueue (queue : QueueRef) (tag : UInt16)
  | nackRange (channel : ChannelRef) (tag : UInt16) (requeue : Bool)
  | nackScan (consumers : List ConsumerRef) (tag : UInt16) (requeue : Bool)
  | requeue (queue : QueueRef) (msg : Message)
  | declareQueue (name dlx dlxRoutingKey : String)
  | declareExchange (name : String)
  | bindQueue (exchange queue routingKey : String)
  | bind (exchange : ExchangeRef) (queue : QueueRef) (routingKey : String)
  | cleanup (channel : ChannelRef)
  | unregister (consumer : ConsumerRef)
  | reply (frame : Frame)
  | teardown
  | depart
deriving DecidableEq, Repr

/-- `live` says that the connection is in `Server.connections`. -/
structure Connection where
  live : Bool := false
  channels : AList (fun _ : UInt16 => ChannelRef) := ∅
  todo : List Section := []
  wire : List Frame := []
  published : List Publish := []

instance : Inhabited Connection := ⟨{}⟩

/-- The counters the modelled functions increment, by label. -/
structure Metrics where
  published : String → ℕ := fun _ => 0
  publishUnroutable : String → ℕ := fun _ => 0
  publishErrors : ℕ := 0
  enqueued : String → ℕ := fun _ => 0
  delivered : String → ℕ := fun _ => 0
  deliverErrors : String → ℕ := fun _ => 0
  acked : String → ℕ := fun _ => 0
  nacked : String → Bool → ℕ := fun _ _ => 0
  deadLettered : String → ℕ := fun _ => 0
  dropped : String → ℕ := fun _ => 0
  connectionsOpened : ℕ := 0
  connectionsClosed : ℕ := 0
  consumersRegistered : String → ℕ := fun _ => 0
  consumersUnregistered : String → ℕ := fun _ => 0

/-- `WithLabelValues(label).Inc()`. -/
def bump {κ : Type*} [DecidableEq κ] (counter : κ → ℕ) (label : κ) : κ → ℕ :=
  Function.update counter label (counter label + 1)

/-- The objects messages move between. -/
structure Store where
  queue : Heap Queue := .empty
  consumer : Heap Consumer := .empty

/-- A broker with its connections: the two maps of `Broker`, and the objects they lead to. -/
structure World extends Store where
  queues : AList (fun _ : String => QueueRef) := ∅
  exchanges : AList (fun _ : String => ExchangeRef) := ∅
  exchange : Heap Exchange := .empty
  channel : Heap Channel := .empty
  connection : Heap Connection := .empty
  metrics : Metrics := {}

end GolangMQ.Model
