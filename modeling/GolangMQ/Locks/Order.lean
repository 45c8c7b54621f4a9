import GolangMQ.Locks.Programs

/-! # No cycle of waiting goroutines

Mutexes are nested in the order `Server`, `Connection`, `Broker`, `Exchange`, `Queue`, `Consumer`. A function may be
called with anything held that ranks below the first mutex it takes, and it gives back what it takes. A nack
takes the mutex of the queue, or publishes to a dead-letter exchange, after it has released the consumer.
-/

namespace GolangMQ.Locks

open Model Machine

/-- The order in which mutexes are nested. -/
def rank : Mutex → ℕ
  | .server => 0
  | .connection _ => 1
  | .broker => 2
  | .exchange _ => 3
  | .queue _ => 4
  | .consumer _ => 5

section Rank

variable (n : ℕ)

@[simp] theorem rank_server : rank .server = 0 := rfl

@[simp] theorem rank_connection : rank (.connection n) = 1 := rfl

@[simp] theorem rank_broker : rank .broker = 2 := rfl

@[simp] theorem rank_exchange : rank (.exchange n) = 3 := rfl

@[simp] theorem rank_queue : rank (.queue n) = 4 := rfl

@[simp] theorem rank_consumer : rank (.consumer n) = 5 := rfl

end Rank

/-- What ranks below a floor ranks below a higher one. -/
theorem below_of_le {held : List Mutex} {floor : ℕ} (below : ∀ m ∈ held, rank m < floor) (higher : ℕ)
    (le : floor ≤ higher) : ∀ m ∈ held, rank m < higher :=
  fun m member => (below m member).trans_le le

private theorem Exchange.bind_balanced (e : ExchangeRef) : (Exchange.bind e).Balanced rank 3 := by
  intro post exit held below ends
  simp +contextual [Exchange.bind, below, ends]

private theorem Exchange.getQueues_balanced (e : ExchangeRef) : (Exchange.getQueues e).Balanced rank 3 :=
  Exchange.bind_balanced e

private theorem Queue.enqueue_balanced (q : QueueRef) : (Queue.enqueue q).Balanced rank 4 := by
  intro post exit held below ends
  simp +contextual [Queue.enqueue, below, ends]

private theorem Queue.registerConsumer_balanced (q : QueueRef) : (Queue.registerConsumer q).Balanced rank 4 :=
  Queue.enqueue_balanced q

private theorem Queue.unregisterConsumer_balanced (q : QueueRef) (c : ConsumerRef) :
    (Queue.unregisterConsumer q c).Balanced rank 4 := by
  intro post exit held below ends
  have consumers := below_of_le below 5 (by decide)
  simp +contextual [Queue.unregisterConsumer, below, consumers, ends]

private theorem Queue.selectConsumer_balanced : Queue.selectConsumer.Balanced rank 5 := by
  intro post exit held below ends
  simp +contextual [Queue.selectConsumer, below, ends]

/-- The consumer is selected and recorded with the queue's mutex held; `cond.Wait` holds nothing else. -/
private theorem Queue.dispatchLoop_balanced (q : QueueRef) : (Queue.dispatchLoop q).Balanced rank 4 := by
  intro post exit held below ends
  have consumers := below_of_le below 5 (by decide)
  have nested : ∀ m ∈ .queue q :: held, rank m < 5 := by simpa using consumers
  simp +contextual [Queue.dispatchLoop, Queue.selectConsumer_balanced nested, below, consumers, ends]

private theorem Broker.publish_balanced : Broker.publish.Balanced rank 2 := by
  intro post exit held below ends
  have exchanges := below_of_le below 3 (by decide)
  have queues := below_of_le below 4 (by decide)
  simp +contextual [Broker.publish, Exchange.getQueues_balanced _ exchanges, Queue.enqueue_balanced _ queues,
    below, queues, ends]

private theorem Broker.ack_balanced : Broker.ack.Balanced rank 2 := by
  intro post exit held below ends
  have queues := below_of_le below 4 (by decide)
  have consumers := below_of_le below 5 (by decide)
  simp +contextual [Broker.ack, below, queues, consumers, ends]

private theorem Broker.registerConsumer_balanced : Broker.registerConsumer.Balanced rank 2 := by
  intro post exit held below ends
  have queues := below_of_le below 4 (by decide)
  simp +contextual [Broker.registerConsumer, Queue.registerConsumer_balanced _ queues, below, ends]

private theorem Broker.bindQueue_balanced : Broker.bindQueue.Balanced rank 2 := by
  intro post exit held below ends
  have exchanges := below_of_le below 3 (by decide)
  simp +contextual [Broker.bindQueue, Exchange.bind_balanced _ exchanges, below, ends]

private theorem Broker.declareQueue_balanced : Broker.declareQueue.Balanced rank 2 := by
  intro post exit held below ends
  simp +contextual [Broker.declareQueue, Queue.newQueue, below, ends]

private theorem Channel.cleanup_balanced : Channel.cleanup.Balanced rank 4 := by
  intro post exit held below ends
  simp [Channel.cleanup, Queue.unregisterConsumer_balanced _ _ below, ends]

private theorem Channel.handleAck_balanced : Channel.handleAck.Balanced rank 2 := by
  intro post exit held below ends
  have consumers := below_of_le below 5 (by decide)
  simp +contextual [Channel.handleAck, Broker.ack_balanced below, consumers, ends]

/-- Nothing of the nack's own is held when the message goes back to the queue or to `Publish`. -/
private theorem Channel.handleNack_balanced : Channel.handleNack.Balanced rank 2 := by
  intro post exit held below ends
  have queues := below_of_le below 4 (by decide)
  have consumers := below_of_le below 5 (by decide)
  simp +contextual [Channel.handleNack, Broker.publish_balanced below, queues, consumers, ends]

private theorem Channel.route_balanced : Channel.route.Balanced rank 2 := by
  intro post exit held below ends
  simp +contextual [Channel.route, Channel.handlePublish, Channel.handleConsume, Channel.handleQueueDeclare,
    Channel.handleExchangeDeclare, Channel.handleQueueBind, Broker.declareExchange, Channel.handleAck_balanced below,
    Channel.handleNack_balanced below, Broker.publish_balanced below, Broker.registerConsumer_balanced below,
    Broker.declareQueue_balanced below, Broker.bindQueue_balanced below, below, ends]

/-- The only function that calls others with `Connection.mu` held. -/
private theorem Connection.cleanup_balanced (k : ConnectionRef) : (Connection.cleanup k).Balanced rank 1 := by
  intro post exit held below ends
  have queues : ∀ m ∈ .connection k :: held, rank m < 4 := by
    simpa using below_of_le below 4 (by decide)
  simp +contextual [Connection.cleanup, Channel.cleanup_balanced queues, below, ends]

private theorem Connection.serve_balanced (k : ConnectionRef) : (Connection.serve k).Balanced rank 1 := by
  intro post exit held below ends
  have brokers := below_of_le below 2 (by decide)
  have queues := below_of_le below 4 (by decide)
  simp +contextual [Connection.serve, Connection.handle, Connection.channelOpen, Connection.channelClose,
    Connection.routeToChannel, Channel.cleanup_balanced queues, Channel.route_balanced brokers, below, ends]

private theorem Server.collect_balanced : Server.collect.Balanced rank 0 := by
  intro post exit held below ends
  have brokers := below_of_le below 2 (by decide)
  have queues := below_of_le below 4 (by decide)
  have consumers := below_of_le below 5 (by decide)
  simp +contextual [Server.collect, below, brokers, queues, consumers, ends]

private theorem Server.handleConnection_balanced (k : ConnectionRef) : (Server.handleConnection k).Balanced rank 0 := by
  intro post exit held below ends
  have connections := below_of_le below 1 (by decide)
  simp +contextual [Server.handleConnection, Connection.serve_balanced k connections,
    Connection.cleanup_balanced k connections, below, ends]

/-- Every goroutine takes its mutexes in order, and ends with none. -/
theorem code_ordered (routine : Routine) : (code routine).Ordered rank (· = []) (· = []) [] := by
  cases routine with
  | serve => simp [code, Server.serve]
  | handleConnection k => exact Server.handleConnection_balanced k (by simp) rfl
  | writePump k => rfl
  | dispatchLoop q => exact Queue.dispatchLoop_balanced q (by simp) rfl
  | collect => exact Server.collect_balanced (by simp) rfl

variable {pool : Heap (Goroutine Mutex Routine)}

/-- In any interleaving of any number of goroutines, no cycle of goroutines wait for each other's mutexes. None
waits for the mutex of a queue while it holds that of a consumer, nor for the broker's while it holds a
queue's. -/
theorem no_mutex_deadlock (reached : machine.Reachable anyStep pool) :
    (∀ i, ¬ Relation.TransGen (Waits pool) i i) ∧
      (∀ i q c, (pool i).wants = some (.queue q) → .consumer c ∉ (pool i).held) ∧
      (∀ i q, (pool i).wants = some .broker → .queue q ∉ (pool i).held) := by
  have ordered := ordered_of_reachable code_ordered reached
  refine ⟨acyclic_waits ordered, fun i q c wanted held => ?_, fun i q wanted held => ?_⟩
  · exact absurd ((ordered i).below wanted _ held) (by simp)
  · exact absurd ((ordered i).below wanted _ held) (by simp)

/-- Two scrapes have been started. The first one reads a queue, with the mutexes of the broker and the queue;
the second one waits for the broker's. -/
def scraping : List (ℕ × ℕ) :=
  [(0, 1), (0, 0), (0, 1), (0, 0), (0, 1), (0, 0), (0, 1), (0, 0)] ++ List.replicate 8 (1, 0) ++
    [(1, 1), (1, 0), (1, 0), (1, 0)] ++ List.replicate 6 (2, 0)

theorem no_mutex_deadlock_scraping :
    let pool := machine.replay anyStep scraping
    (pool 1).held = [.queue 0, .broker] ∧ Waits pool 2 1 ∧ ¬ Relation.TransGen (Waits pool) 2 2 :=
  ⟨by decide +kernel, ⟨.broker, by decide +kernel, by decide +kernel⟩,
    (no_mutex_deadlock (.of_replay scraping)).1 2⟩

/-- As long as a goroutine has not returned, one of them can move. -/
theorem some_goroutine_moves (reached : machine.Reachable anyStep pool) {i : ℕ} (unfinished : (pool i).stack ≠ []) :
    ∃ j next, machine.step? pool (j, 0) = some next :=
  exists_step (ordered_of_reachable code_ordered reached) unfinished

end GolangMQ.Locks
