import GolangMQ.Machine.Mutexes
import GolangMQ.Model.Data

/-! # What the broker does with its mutexes

Every function of the broker that takes a mutex or calls one that does, reduced to these operations. Whether
a lookup succeeds, which branch is taken and how often a loop runs is left open, and so is which object a map, an
argument or a field holds: a reference is picked where the source reads one. `WriteEnvelope`, the handshake, the
counters and the writer of a connection take none of these mutexes.
-/

namespace GolangMQ.Locks

open Model

/-- The mutexes of the broker's objects. -/
inductive Mutex where
  | server
  | connection (k : ConnectionRef)
  | broker
  | exchange (e : ExchangeRef)
  | queue (q : QueueRef)
  | consumer (c : ConsumerRef)
deriving DecidableEq, Repr

/-- What is started by a `go` statement, or by the HTTP server. -/
inductive Routine where
  | serve
  | handleConnection (k : ConnectionRef)
  | writePump (k : ConnectionRef)
  | dispatchLoop (q : QueueRef)
  | collect
deriving DecidableEq, Repr

/-- The code of the broker. -/
abbrev Program := Code Mutex Routine

namespace Exchange

def bind (e : ExchangeRef) : Program := .func [.lock (.exchange e), .unlock (.exchange e)]

def getQueues (e : ExchangeRef) : Program := .func [.lock (.exchange e), .unlock (.exchange e)]

end Exchange

namespace Queue

/-- `NewQueue` starts the dispatcher. -/
def newQueue : Program := .pick fun q => .go (.dispatchLoop q)

def registerConsumer (q : QueueRef) : Program := .func [.lock (.queue q), .unlock (.queue q)]

def unregisterConsumer (q : QueueRef) (c : ConsumerRef) : Program :=
  .func [
    .lock (.queue q),
    .when [.unlock (.queue q), .ret],
    .lock (.consumer c),
    .unlock (.consumer c),
    .unlock (.queue q)]

def selectConsumer : Program :=
  .func [.range fun c => [.lock (.consumer c), .unlock (.consumer c), .when [.ret]]]

/-- Each round is a function of its own, from which `continue` returns. -/
def dispatchLoop (q : QueueRef) : Program :=
  .loop (.func [
    .lock (.queue q),
    .loop (.wait (.queue q)),
    selectConsumer,
    .when [.wait (.queue q), .unlock (.queue q), .ret],
    .pick fun c => .block [
      .lock (.consumer c),
      .unlock (.consumer c),
      .unlock (.queue q),
      .when [.lock (.queue q), .lock (.consumer c), .unlock (.consumer c), .unlock (.queue q)]]])

def enqueue (q : QueueRef) : Program := .func [.lock (.queue q), .unlock (.queue q)]

end Queue

namespace Broker

def declareQueue : Program := .func [.lock .broker, .when [Queue.newQueue], .unlock .broker]

def declareExchange : Program := .func [.lock .broker, .unlock .broker]

def bindQueue : Program :=
  .func [.lock .broker, .unlock .broker, .when [.ret], .when [.ret], .pick Exchange.bind, .ret]

def publish : Program :=
  .func [
    .lock .broker,
    .unlock .broker,
    .when [.ret],
    .pick Exchange.getQueues,
    .range fun q => [.lock (.queue q), .unlock (.queue q), Queue.enqueue q],
    .ret]

def registerConsumer : Program :=
  .func [.lock .broker, .unlock .broker, .when [.ret], .when [.ret], .pick Queue.registerConsumer, .ret]

def ack : Program :=
  .func [
    .lock .broker,
    .unlock .broker,
    .when [.ret],
    .pick fun q => .block [
      .lock (.queue q),
      .range fun c => [
        .lock (.consumer c),
        .when [.unlock (.consumer c), .unlock (.queue q), .ret],
        .unlock (.consumer c)],
      .unlock (.queue q)],
    .ret]

end Broker

namespace Channel

def cleanup : Program := .func [.range fun c => [.pick fun q => Queue.unregisterConsumer q c]]

def handlePublish : Program := .func [.when [.ret], Broker.publish, .when [.ret]]

def handleConsume : Program := .func [.when [.ret], Broker.registerConsumer, .when [.ret]]

def handleAck : Program :=
  .func [
    .when [.ret],
    .range fun c => [.lock (.consumer c), .unlock (.consumer c), .when [Broker.ack, .ret]]]

/-- The branches of a found message are a requeue, a dead letter, and a drop. -/
def handleNack : Program :=
  .func [
    .when [.ret],
    .range fun c => [
      .lock (.consumer c),
      .unlock (.consumer c),
      .when [
        .choice [.pick fun q => .block [.lock (.queue q), .unlock (.queue q)], Broker.publish, .skip],
        .ret]]]

def handleExchangeDeclare : Program := .func [Broker.declareExchange]

def handleQueueDeclare : Program := .func [Broker.declareQueue]

def handleQueueBind : Program := .func [.when [.ret], Broker.bindQueue]

def route : Program :=
  .func [.choice [handlePublish, handleConsume, handleAck, handleNack, handleQueueDeclare, handleExchangeDeclare,
    handleQueueBind]]

end Channel

namespace Connection

def cleanup (k : ConnectionRef) : Program :=
  .func [.lock (.connection k), .range fun _ => [Channel.cleanup], .unlock (.connection k)]

def channelOpen (k : ConnectionRef) : Program := .func [.lock (.connection k), .unlock (.connection k)]

def channelClose (k : ConnectionRef) : Program :=
  .func [.lock (.connection k), .unlock (.connection k), .when [Channel.cleanup]]

def routeToChannel (k : ConnectionRef) : Program :=
  .func [.lock (.connection k), .unlock (.connection k), .when [.ret], Channel.route]

def handle (k : ConnectionRef) : Program := .func [.choice [channelOpen k, channelClose k, routeToChannel k]]

def serve (k : ConnectionRef) : Program := .func [.loop (.block [.when [.ret], handle k])]

end Connection

namespace Server

/-- The statements after the handshake and `Serve` are the deferred function. -/
def handleConnection (k : ConnectionRef) : Program :=
  .func [
    .go (.writePump k),
    .lock .server,
    .unlock .server,
    .func [.when [.ret], Connection.serve k],
    Connection.cleanup k,
    .lock .server,
    .unlock .server]

/-- The accept loop, and the HTTP server that scrapes come from. -/
def serve : Program := .loop (.pick fun k => .choice [.go (.handleConnection k), .go .collect])

/-- `stateCollector.Collect`. -/
def collect : Program :=
  .func [
    .lock .server,
    .unlock .server,
    .lock .broker,
    .range fun q => [
      .lock (.queue q),
      .range fun c => [.lock (.consumer c), .unlock (.consumer c)],
      .unlock (.queue q)],
    .unlock .broker]

end Server

/-- The code that each goroutine runs. -/
def code : Routine → Program
  | .serve => Server.serve
  | .handleConnection k => Server.handleConnection k
  | .writePump _ => .skip
  | .dispatchLoop q => Queue.dispatchLoop q
  | .collect => Server.collect

/-- The broker as its mutexes see it. -/
def machine : Machine (Heap (Goroutine Mutex Routine)) (ℕ × ℕ) := goroutines code .serve

end GolangMQ.Locks
