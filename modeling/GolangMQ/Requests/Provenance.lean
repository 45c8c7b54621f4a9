import GolangMQ.Delivery.Order
import GolangMQ.Requests.Closing
import GolangMQ.Requests.ConsumerTags
import GolangMQ.Requests.Routing

/-! # Every delivery follows from requests

The envelopes that the connections have sent are the only way to make the broker do anything. `Origin` and
`Entitled` say in terms of these envelopes alone what may be published and who may receive it: a client's
own `basic.publish`, or a dead letter of something published earlier, on a queue that a client has
bound and that the receiver has asked to consume. `Accounted` ties the state to the envelopes, and every
deliver frame that is written is then one its receiver is entitled to. Which of the queues, consumers and
messages are still there plays no part in it.
-/

namespace GolangMQ.Model

open Custody Machine

/-- The envelope that a step reads. -/
def World.asks (_ : World) : Label → List (ConnectionRef × Envelope)
  | .request k env => [(k, env)]
  | _ => []

/-- The broker with the envelopes its connections have sent. -/
def askingBroker : Machine (World × List (ConnectionRef × Envelope)) Label := broker.recording World.asks

section Requests

variable (asked : List (ConnectionRef × Envelope))

/-- Connection `k` has sent a request that decodes on channel `id`. -/
def Asks (k : ConnectionRef) (id : UInt16) (request : Request) : Prop :=
  ∃ env, (k, env) ∈ asked ∧ env.channelID = id ∧ env.malformed = false ∧ env.request = request

/-- A client has asked for the binding. -/
def Binds (queue exchange routingKey : String) : Prop := ∃ k id, Asks asked k id (.queueBind queue exchange routingKey)

/-- A client has declared the queue; `HandleQueueDeclare` goes on when the payload does not decode. -/
def Declares (name dlx dlxRoutingKey : String) : Prop :=
  ∃ k env, (k, env) ∈ asked ∧ env.request = .queueDeclare name dlx dlxRoutingKey

/-- The events that the requests account for. -/
inductive Origin : Publish → Prop
  | requested {k : ConnectionRef} {id : UInt16} {event : Publish} (asks : Asks asked k id (.publish event)) :
      Origin event
  | deadLetter {event : Publish} {queue dlx dlxRoutingKey consumerTag : String} {k : ConnectionRef} {id tag : UInt16}
      (origin : Origin event) (binds : Binds asked queue event.exchange event.routingKey)
      (declares : Declares asked queue dlx dlxRoutingKey) (enabled : dlx ≠ "")
      (consumes : Asks asked k id (.consume queue consumerTag)) (nacks : Asks asked k id (.nack tag (some false))) :
      Origin ⟨dlx, if dlxRoutingKey = "" then event.routingKey else dlxRoutingKey, event.body⟩

/-- A consumer of `queue` that connection `k` has asked for on channel `id`. -/
structure Subscribed (k : ConnectionRef) (id : UInt16) (queue tag : String) : Prop where
  asks : ∃ chosen, Asks asked k id (.consume queue chosen) ∧
    ∃ n : ℕ, tag = if chosen = "" then generatedTag id n else chosen

/-- Connection `k` may receive the delivery on channel `id`. -/
structure Entitled (k : ConnectionRef) (id : UInt16) (deliver : Deliver) : Prop where
  queue : ∃ queue, Subscribed asked k id queue deliver.consumerTag ∧
    Binds asked queue deliver.exchange deliver.routingKey
  origin : Origin asked ⟨deliver.exchange, deliver.routingKey, deliver.body⟩

end Requests

section Growth

variable {asked : List (ConnectionRef × Envelope)} (more : List (ConnectionRef × Envelope))

private theorem Asks.mono {k : ConnectionRef} {id : UInt16} {request : Request} (asks : Asks asked k id request) :
    Asks (asked ++ more) k id request := by
  obtain ⟨env, member, rest⟩ := asks
  exact ⟨env, List.mem_append_left _ member, rest⟩

theorem Binds.mono {queue exchange routingKey : String} (binds : Binds asked queue exchange routingKey) :
    Binds (asked ++ more) queue exchange routingKey := by
  obtain ⟨k, id, asks⟩ := binds
  exact ⟨k, id, asks.mono more⟩

theorem Declares.mono {name dlx dlxRoutingKey : String} (declares : Declares asked name dlx dlxRoutingKey) :
    Declares (asked ++ more) name dlx dlxRoutingKey := by
  obtain ⟨k, env, member, request⟩ := declares
  exact ⟨k, env, List.mem_append_left _ member, request⟩

private theorem Origin.mono {event : Publish} (origin : Origin asked event) : Origin (asked ++ more) event := by
  induction origin with
  | requested asks => exact .requested (asks.mono more)
  | deadLetter _ binds declares enabled consumes nacks ih =>
    exact .deadLetter ih (binds.mono more) (declares.mono more) enabled (consumes.mono more) (nacks.mono more)

private theorem Subscribed.mono {k : ConnectionRef} {id : UInt16} {queue tag : String}
    (subscribed : Subscribed asked k id queue tag) : Subscribed (asked ++ more) k id queue tag := by
  obtain ⟨chosen, asks, named⟩ := subscribed
  exact ⟨chosen, asks.mono more, named⟩

private theorem Entitled.mono {k : ConnectionRef} {id : UInt16} {deliver : Deliver}
    (entitled : Entitled asked k id deliver) :
    Entitled (asked ++ more) k id deliver := by
  obtain ⟨⟨queue, subscribed, binds⟩, origin⟩ := entitled
  exact ⟨⟨queue, subscribed.mono more, binds.mono more⟩, origin.mono more⟩

end Growth

/-- The requests account for what a section is about to do. -/
def Section.Accounted (w : World) (asked : List (ConnectionRef × Envelope)) (k : ConnectionRef) : Section → Prop
  | .publish event _ => Origin asked event
  | .route e event => e < w.exchange.size ∧ (w.exchange e).name = event.exchange
  | .takeTag q event => q < w.queue.size ∧ Binds asked (w.queue q).name event.exchange event.routingKey
  | .enqueue q msg => q < w.queue.size ∧ Binds asked (w.queue q).name msg.exchange msg.routingKey
  | .consume ch _ queue tag => ch < w.channel.size ∧ Asks asked k (w.channel ch).id (.consume queue tag)
  | .nackRange ch tag back =>
    ch < w.channel.size ∧ (back = false → Asks asked k (w.channel ch).id (.nack tag (some false)))
  | .nackScan consumers tag back => ∀ c ∈ consumers, c < w.consumer.size ∧
    (back = false → Asks asked k (w.channel (w.consumer c).channel).id (.nack tag (some false)))
  | .declareQueue name dlx dlxRoutingKey => Declares asked name dlx dlxRoutingKey
  | .bindQueue exchange queue routingKey => Binds asked queue exchange routingKey
  | .bind e q routingKey => e < w.exchange.size ∧ q < w.queue.size ∧
    Binds asked (w.queue q).name (w.exchange e).name routingKey
  | _ => True

/-- The requests account for the state of the broker. -/
structure Accounted (w : World) (asked : List (ConnectionRef × Envelope)) : Prop where
  queues : ∀ q < w.queue.size, Declares asked (w.queue q).name (w.queue q).dlx (w.queue q).dlxRoutingKey
  consumers : ∀ c < w.consumer.size,
    Subscribed asked (w.owner c) (w.channel (w.consumer c).channel).id (w.queueName c) (w.consumer c).tag
  bindings : ∀ e key, ∀ q ∈ (w.exchange e).getQueues key, Binds asked (w.queue q).name (w.exchange e).name key
  published : ∀ k, ∀ event ∈ (w.connection k).published, Origin asked event
  enqueued : ∀ q, ∀ entry ∈ (w.queue q).log.enqueued,
    Binds asked (w.queue q).name entry.message.exchange entry.message.routingKey
  sections : ∀ k, ∀ s ∈ w.todo k, s.Accounted w asked k

variable {w w' : World} {label : Label} {k : ConnectionRef} {choice : Choice} {first : Section} {next : List Section}
  {asked : List (ConnectionRef × Envelope)}

/-- Exchanges are only added, and keep their names. -/
theorem World.exchange_of_step (stepped : w.step? label = some w') {e : ExchangeRef} (inside : e < w.exchange.size) :
    e < w'.exchange.size ∧ (w'.exchange e).name = (w.exchange e).name := by
  have kept (exchange : w'.exchange = w.exchange) : e < w'.exchange.size ∧ (w'.exchange e).name = (w.exchange e).name :=
    ⟨exchange ▸ inside, by rw [exchange]⟩
  cases steps_of_step stepped with
  | accept | disconnect => exact kept rfl
  | @request k env => exact kept (w.routing_handle k env).2.2
  | run _ _ runs =>
    cases runs with
    | @declareExchange name =>
      refine ⟨Nat.lt_succ_of_lt inside, congrArg Exchange.name ?_⟩
      exact w.exchange.cell_alloc_of_ne _ (Nat.ne_of_lt inside)
    | @bind e' q key =>
      exact ⟨inside, w.exchange.observe_modify Exchange.name e' (·.bind q (w.queue q).name key) rfl e⟩
    | _ => exact kept rfl
  | dispatch _ aligned => exact kept aligned.exchange

/-- A queue keeps the dead-letter exchange it was declared with. -/
private theorem Store.deadLetter_apply (s : Store) (effect : Effect) {q : QueueRef} (inside : q < s.queue.size) :
    ((s.apply effect).queue q).dlx = (s.queue q).dlx ∧
      ((s.apply effect).queue q).dlxRoutingKey = (s.queue q).dlxRoutingKey := by
  have changed := s.onQueue effect q
  generalize (s.apply effect).queue q = queue at changed ⊢
  cases changed with
  | newQueue => exact absurd inside (Nat.lt_irrefl _)
  | _ => exact ⟨rfl, rfl⟩

namespace Section.Accounted

/-- What is accounted for stays so while objects are added and requests arrive. -/
theorem mono {s : Section} (accounted : s.Accounted w asked k) (owned : Owned w) (grows : w.Grows w')
    (exchanges : ∀ e < w.exchange.size, e < w'.exchange.size ∧ (w'.exchange e).name = (w.exchange e).name)
    (more : List (ConnectionRef × Envelope)) : s.Accounted w' (asked ++ more) k := by
  cases s with
  | publish event report => exact Origin.mono more accounted
  | route e event =>
    obtain ⟨inside, named⟩ := exchanges e accounted.1
    exact ⟨inside, named.trans accounted.2⟩
  | takeTag q event | enqueue q msg =>
    refine ⟨accounted.1.trans_le grows.store.queues, ?_⟩
    rw [grows.store.name q accounted.1]
    exact accounted.2.mono more
  | consume ch header queue tag =>
    refine ⟨accounted.1.trans_le grows.channels, ?_⟩
    rw [(grows.identity ch accounted.1).1]
    exact accounted.2.mono more
  | nackRange ch tag requeue =>
    refine ⟨accounted.1.trans_le grows.channels, fun drops => ?_⟩
    rw [(grows.identity ch accounted.1).1]
    exact (accounted.2 drops).mono more
  | nackScan consumers tag requeue =>
    intro c member
    obtain ⟨inside, nacks⟩ := accounted c member
    refine ⟨inside.trans_le grows.store.consumers, fun drops => ?_⟩
    rw [grows.store.channel inside, (grows.identity _ (owned.channelOf c inside)).1]
    exact (nacks drops).mono more
  | declareQueue => exact Declares.mono more accounted
  | bindQueue => exact Binds.mono more accounted
  | bind e q key =>
    obtain ⟨inside, named⟩ := exchanges e accounted.1
    refine ⟨inside, accounted.2.1.trans_le grows.store.queues, ?_⟩
    rw [named, grows.store.name q accounted.2.1]
    exact accounted.2.2.mono more
  | _ => trivial

/-- A request accounts for the sections it starts. -/
theorem of_handle (owned : Owned w) (asked : List (ConnectionRef × Envelope)) (k : ConnectionRef) (env : Envelope)
    {s : Section} (member : s ∈ (w.handle k env).2) : s.Accounted w (asked ++ [(k, env)]) k := by
  have last : (k, env) ∈ asked ++ [(k, env)] := List.mem_append_right _ (List.mem_singleton_self _)
  revert member
  refine w.handle_cases k env (P := fun _ next => s ∈ next → s.Accounted w (asked ++ [(k, env)]) k)
    (fun id _ member => ?_) (fun _ member => ?_) (fun _ member => ?_) (fun ch found member => ?_)
  · exact List.mem_singleton.1 member ▸ trivial
  · rcases List.mem_append.1 member with cleanup | reply
    · obtain ⟨ch, -, rfl⟩ := Option.map_eq_some_iff.1 (Option.mem_toList.1 cleanup)
      trivial
    · exact List.mem_singleton.1 reply ▸ trivial
  · exact List.mem_singleton.1 member ▸ trivial
  · obtain ⟨inside, here, -⟩ := owned.opened k env.channelID ch found
    unfold Model.route at member
    cases request : env.request with
    | publish event =>
      rw [request, List.mem_ite_nil_left, List.mem_singleton, Bool.not_eq_true] at member
      obtain ⟨decodes, rfl⟩ := member
      exact .requested ⟨env, last, rfl, decodes, request⟩
    | consume queue tag =>
      rw [request] at member
      cases decodes : env.malformed with
      | true => simp_all [Accounted]
      | false =>
        obtain rfl : s = .consume ch env.header queue tag := by simpa [decodes] using member
        exact ⟨inside, env, last, here.symm, decodes, request⟩
    | nack tag requeue =>
      rw [request] at member
      cases decodes : env.malformed with
      | true => simp_all [Accounted]
      | false =>
        obtain rfl : s = .nackRange ch tag (requeue.getD true) := by simpa [decodes] using member
        refine ⟨inside, fun drops => ?_⟩
        cases requeue with
        | none => contradiction
        | some chosen =>
          obtain rfl : chosen = false := drops
          exact ⟨env, last, here.symm, decodes, request⟩
    | queueDeclare name dlx key =>
      rw [request, List.mem_pair] at member
      rcases member with rfl | rfl
      · exact ⟨k, env, last, request⟩
      · trivial
    | queueBind queue exchange key =>
      rw [request] at member
      cases decodes : env.malformed with
      | true => simp_all [Accounted]
      | false =>
        obtain rfl | rfl : s = .bindQueue exchange queue key ∨ s = .reply ⟨env.header, .queueBindOK⟩ := by
          simpa [decodes] using member
        · exact ⟨k, env.channelID, env, last, rfl, decodes, request⟩
        · trivial
    | ack tag =>
      rw [request] at member
      cases decodes : env.malformed <;> simp_all [Accounted]
    | exchangeDeclare name =>
      rw [request, List.mem_pair] at member
      rcases member with rfl | rfl <;> trivial
    | channelOpen | channelClose | other =>
      rw [request] at member
      exact absurd member List.not_mem_nil

end Section.Accounted

/-- `HandleNack` publishes a message that it does not requeue, when its queue has a dead-letter exchange. -/
private theorem deadLetter_of_afterNack {c : ConsumerRef} {msg : Message} {requeue : Bool} {event : Publish}
    {report : Option Header} (member : .publish event report ∈ w.afterNack c msg requeue) :
    requeue = false ∧ (w.queue (w.consumer c).queue).dlx ≠ "" ∧ event = w.deadLetter c msg := by
  unfold World.afterNack at member
  cases requeue with
  | true => simp at member
  | false =>
    by_cases disabled : (w.queue (w.consumer c).queue).dlx = ""
    · simp [disabled] at member
    · simp only [Bool.false_eq_true, if_false, if_neg disabled, List.mem_append, List.mem_singleton,
        Section.publish.injEq, reduceCtorEq, or_false] at member
      exact ⟨rfl, disabled, member.1⟩

/-- What a step may use of the state it is taken from. -/
structure Grounds (w : World) : Prop where
  wellformed : Wellformed w
  owned : Owned w
  calls : Calls w
  sound : ∀ q, Ledger.Sound Message.deliveryTag stamp (w.ledger q)
  routed : ∃ history, Routed w history

theorem grounds_of_reachable (reached : broker.Reachable anyStep w) : Grounds w where
  wellformed := wellformed_of_reachable reached
  owned := owned_of_reachable reached
  calls := calls_of_reachable reached
  sound := sound_of_reachable reached
  routed := by
    obtain ⟨history, recorded⟩ := exists_history reached
    exact ⟨history, routed_of_reachable recorded⟩

namespace Accounted

private theorem init : Accounted broker.init [] where
  queues _ inside := absurd inside (Nat.not_lt_zero _)
  consumers _ inside := absurd inside (Nat.not_lt_zero _)
  bindings _ _ _ member := absurd member (by simp [broker, Exchange.getQueues, default])
  published _ _ member := absurd member List.not_mem_nil
  enqueued _ _ member := absurd member List.not_mem_nil
  sections _ _ member := absurd member List.not_mem_nil

/-- A message that was enqueued has an origin, and its queue is bound for it. -/
theorem origin_of_enqueued {q : QueueRef} (accounted : Accounted w asked) (calls : Calls w) {msg : Message}
    (known : msg ∈ (w.ledger q).enqueued) :
    Origin asked ⟨msg.exchange, msg.routingKey, msg.body⟩ ∧
      Binds asked (w.queue q).name msg.exchange msg.routingKey := by
  obtain ⟨entry, member, rfl⟩ := List.mem_map.1 known
  obtain ⟨event, found, body, exchange, routingKey⟩ := calls.recorded q entry member
  refine ⟨?_, accounted.enqueued q entry member⟩
  rw [body, exchange, routingKey]
  exact accounted.published _ event (List.mem_of_getElem? found)

/-- A dead letter has an origin. -/
theorem origin_deadLetter {c : ConsumerRef} {msg : Message} {tag : UInt16} (accounted : Accounted w asked)
    (grounds : Grounds w) (inside : c < w.consumer.size) (found : (w.consumer c).pendingMessages.lookup tag = some msg)
    (enabled : (w.queue (w.consumer c).queue).dlx ≠ "")
    (nacks : Asks asked (w.owner c) (w.channel (w.consumer c).channel).id (.nack tag (some false))) :
    Origin asked (w.deadLetter c msg) := by
  have held : msg ∈ (w.consumer c).held (w.consumer c).queue := by
    rw [mem_held (grounds.wellformed.books c) rfl, (grounds.wellformed.books c).keyed.key_eq found]
    exact found
  obtain ⟨origin, binds⟩ := accounted.origin_of_enqueued grounds.calls ((grounds.sound _).heldKnown c msg held)
  obtain ⟨chosen, consumes, -⟩ := accounted.consumers c inside
  exact .deadLetter origin binds (accounted.queues _ (grounds.wellformed.queueOf c inside)) enabled consumes nacks

/-- A section that is accounted for leads to sections that are. -/
theorem of_runs (accounted : Accounted w asked) (grounds : Grounds w) (waits : first ∈ w.todo k)
    (runs : Runs w k choice first w' next) : ∀ s ∈ next, s.Accounted w asked k := by
  have now := accounted.sections k first waits
  have wellformed := grounds.wellformed
  obtain ⟨history, routed⟩ := grounds.routed
  cases runs with
  | publish found =>
    rw [List.forall_mem_singleton]
    exact routed.exchangeNames _ _ found
  | @route e event chosen all =>
    intro s member
    obtain ⟨q, visited, rfl⟩ := List.mem_map.1 member
    have bound := all.subset visited
    refine ⟨wellformed.bindings e _ q bound, ?_⟩
    rw [← now.2]
    exact accounted.bindings e _ q bound
  | takeTag =>
    rw [List.forall_mem_singleton]
    exact now
  | @nackRange ch tag requeue all =>
    rw [List.forall_mem_singleton]
    intro c visited
    obtain ⟨inside, channel⟩ := grounds.owned.of_values (all.subset visited)
    exact ⟨inside, fun drops => channel ▸ now.2 drops⟩
  | nackNext =>
    rw [List.forall_mem_singleton]
    exact fun c later => now c (List.mem_cons_of_mem _ later)
  | @nack c rest tag requeue msg found =>
    intro s member
    obtain ⟨inside, nacks⟩ := now c (List.mem_cons_self ..)
    rcases mem_afterNack member with rfl | rfl | rfl
    · trivial
    · obtain ⟨drops, enabled, -⟩ := deadLetter_of_afterNack member
      have nacks := nacks drops
      rw [← ((grounds.owned.sections k _ waits).consumers c (List.mem_cons_self ..)).2] at nacks
      exact accounted.origin_deadLetter grounds inside found enabled nacks
    · trivial
  | @bindQueue exchange queue key e q known declared =>
    rw [List.forall_mem_singleton]
    obtain ⟨inside, named⟩ := routed.exchangeNames exchange e known
    refine ⟨inside, wellformed.queues queue q declared, ?_⟩
    rw [named, routed.queueNames queue q declared]
    exact now
  | publishUnknown =>
    intro s member
    obtain ⟨header, -, rfl⟩ := Option.map_eq_some_iff.1 (Option.mem_toList.1 member)
    trivial
  | cleanup =>
    intro s member
    obtain ⟨c, -, rfl⟩ := List.mem_map.1 member
    trivial
  | teardown =>
    intro s member
    rcases List.mem_append.1 member with cleanup | last
    · obtain ⟨ch, -, rfl⟩ := List.mem_map.1 cleanup
      trivial
    · exact List.mem_singleton.1 last ▸ trivial
  | _ => simp [Section.Accounted]

private theorem queues_step (accounted : Accounted w asked) (stepped : w.step? label = some w')
    (more : List (ConnectionRef × Envelope)) : ∀ q < w'.queue.size,
      Declares (asked ++ more) (w'.queue q).name (w'.queue q).dlx (w'.queue q).dlxRoutingKey := by
  obtain ⟨effect, store, happens⟩ := World.happens_of_step stepped
  intro q inside
  rw [store] at inside ⊢
  by_cases old : q < w.queue.size
  · rw [(w.toStore.extends_apply effect).name q old, (w.toStore.deadLetter_apply effect old).1,
      (w.toStore.deadLetter_apply effect old).2]
    exact (accounted.queues q old).mono more
  · cases happens with
    | @newQueue _ k choice name dlx key advances =>
      obtain rfl : q = w.queue.size := Nat.le_antisymm (Nat.lt_succ_iff.1 inside) (Nat.le_of_not_lt old)
      simp only [Store.apply, Heap.cell_alloc_self]
      obtain ⟨rest, pending, -⟩ := advances.todo
      have declares : Declares asked name dlx key :=
        accounted.sections k (.declareQueue name dlx key) (pending ▸ List.mem_cons_self ..)
      exact declares.mono more
    | _ => exact absurd inside old

private theorem consumers_step (accounted : Accounted w asked) (grounds : Grounds w) (stepped : w.step? label = some w')
    (more : List (ConnectionRef × Envelope)) : ∀ c < w'.consumer.size,
      Subscribed (asked ++ more) (w'.owner c) (w'.channel (w'.consumer c).channel).id (w'.queueName c)
        (w'.consumer c).tag := by
  have grows := World.grows_of_step stepped
  obtain ⟨effect, store, happens⟩ := World.happens_of_step stepped
  intro c inside
  by_cases old : c < w.consumer.size
  · have channel := grows.identity _ (grounds.owned.channelOf c old)
    rw [World.queueName, grounds.owned.owner_step grows old, grows.store.channel old, channel.1, grows.store.queue old,
      grows.store.name _ (grounds.wellformed.queueOf c old), grows.store.tag old]
    exact (accounted.consumers c old).mono more
  · cases happens with
    | @newConsumer _ k choice ch header name chosen _ q declared advances =>
      obtain ⟨rest, pending, -⟩ := advances.todo
      obtain ⟨_, _, middle, next, waits, ran, rfl, -⟩ := World.run_inv stepped
      obtain ⟨rfl, rfl⟩ := List.cons.inj (pending.symm.trans waits)
      have waits : .consume ch header name chosen ∈ w.todo k := pending ▸ List.mem_cons_self ..
      cases runs_of_runSection ran with
      | consumeRefused => exact absurd inside old
      | @consume _ _ _ _ q declared =>
        obtain rfl : c = w.consumer.size := Nat.le_antisymm (Nat.lt_succ_iff.1 inside) (Nat.le_of_not_lt old)
        obtain ⟨known, asks⟩ := accounted.sections k _ waits
        obtain ⟨history, routed⟩ := grounds.routed
        have owner := ((grounds.owned.sections k _ waits).channels ch (by simp)).2
        let made := w.apply (.newConsumer (w.consumerTag ch chosen) q ch)
        have new : made.consumer w.consumer.size = { tag := w.consumerTag ch chosen, queue := q, channel := ch } :=
          w.consumer.cell_alloc_self _
        change Subscribed _ (w.channel (made.consumer w.consumer.size).channel).conn
          (w.channel (made.consumer w.consumer.size).channel).id (w.queue (made.consumer w.consumer.size).queue).name
          (made.consumer w.consumer.size).tag
        rw [new, owner, routed.queueNames name q declared]
        exact ⟨chosen, asks.mono more, (w.channel ch).count + 1, rfl⟩
    | _ =>
      rw [store] at inside
      exact absurd inside old

private theorem bindings_step (accounted : Accounted w asked) (grounds : Grounds w) (stepped : w.step? label = some w')
    (more : List (ConnectionRef × Envelope)) : ∀ e key, ∀ q ∈ (w'.exchange e).getQueues key,
      Binds (asked ++ more) (w'.queue q).name (w'.exchange e).name key := by
  have grows := World.grows_of_step stepped
  intro e key q member
  have old (bound : q ∈ (w.exchange e).getQueues key) (named : (w'.exchange e).name = (w.exchange e).name) :
      Binds (asked ++ more) (w'.queue q).name (w'.exchange e).name key := by
    rw [named, grows.store.name q (grounds.wellformed.bindings e key q bound)]
    exact (accounted.bindings e key q bound).mono more
  have kept (exchange : w'.exchange = w.exchange) : Binds (asked ++ more) (w'.queue q).name (w'.exchange e).name key :=
    old (exchange ▸ member) (by rw [exchange])
  cases World.steps_of_step stepped with
  | accept | disconnect => exact kept rfl
  | @request k env => exact kept (w.routing_handle k env).2.2
  | @run k choice first rest next middle inside pending runs =>
    cases runs with
    | @declareExchange name =>
      by_cases fresh : e = w.exchange.size
      · subst fresh
        have new : (w.exchange.alloc { name }) w.exchange.size = { name } := w.exchange.cell_alloc_self _
        change q ∈ ((w.exchange.alloc { name }) w.exchange.size).getQueues key at member
        rw [new] at member
        exact absurd member List.not_mem_nil
      · have same : (w.exchange.alloc { name }) e = w.exchange e := w.exchange.cell_alloc_of_ne _ fresh
        exact old (same ▸ member) (congrArg Exchange.name same)
    | @bind e' q' key' =>
      have waits : .bind e' q' key' ∈ w.todo k := pending ▸ List.mem_cons_self ..
      rcases w.exchange.cell_modify_eq_or e' (·.bind q' (w.queue q').name key') e with same | ⟨rfl, written⟩
      · exact old (same ▸ member) (congrArg Exchange.name same)
      · obtain ⟨name, target⟩ := ((w.exchange e).bind q' (w.queue q').name key').mem_getQueues_iff key |>.1
          (written ▸ member)
        rw [Exchange.target_bind] at target
        have named := congrArg Exchange.name written
        split_ifs at target with here
        · obtain ⟨rfl, rfl⟩ := here
          obtain rfl := Option.some.inj target
          change Binds _ (w.queue q').name ((w.exchange.modify e (·.bind q' (w.queue q').name key)) e).name key
          rw [named]
          exact (accounted.sections k _ waits).2.2.mono more
        · exact old ((w.exchange e).mem_getQueues_iff key |>.2 ⟨name, target⟩) named
    | _ => exact kept rfl
  | dispatch _ aligned => exact kept aligned.exchange

private theorem published_step (accounted : Accounted w asked) (stepped : w.step? label = some w')
    (more : List (ConnectionRef × Envelope)) :
    ∀ k, ∀ event ∈ (w'.connection k).published, Origin (asked ++ more) event := by
  intro k event member
  by_cases own : ∃ choice, label = .run k choice
  · obtain ⟨choice, rfl⟩ := own
    obtain ⟨first, rest, middle, next, pending, ran, rfl, inside⟩ := World.run_inv stepped
    rw [published_setTodo, published_of_runSection ran inside, if_pos rfl] at member
    rcases List.mem_append.1 member with earlier | new
    · exact (accounted.published k event earlier).mono more
    · have now := accounted.sections k first (pending ▸ List.mem_cons_self ..)
      cases first with
      | publish event' report =>
        obtain rfl := List.mem_singleton.1 new
        exact Origin.mono more now
      | _ => exact absurd new List.not_mem_nil
  · rw [published_of_step stepped fun choice same => own ⟨choice, same⟩] at member
    exact (accounted.published k event member).mono more

private theorem enqueued_step (accounted : Accounted w asked) (stepped : w.step? label = some w')
    (more : List (ConnectionRef × Envelope)) : ∀ q, ∀ entry ∈ (w'.queue q).log.enqueued,
      Binds (asked ++ more) (w'.queue q).name entry.message.exchange entry.message.routingKey := by
  obtain ⟨effect, store, happens⟩ := World.happens_of_step stepped
  intro q entry member
  rw [store] at member ⊢
  have changed := w.toStore.onQueue effect q
  generalize (w.toStore.apply effect).queue q = queue at changed member ⊢
  cases changed with
  | newQueue => exact absurd member List.not_mem_nil
  | enqueue =>
    cases happens with
    | @enqueue _ k choice _ msg free advances =>
      obtain ⟨rest, pending, -⟩ := advances.todo
      rcases List.mem_append.1 member with earlier | new
      · exact (accounted.enqueued q entry earlier).mono more
      · obtain rfl := List.mem_singleton.1 new
        exact (accounted.sections k (.enqueue q msg) (pending ▸ List.mem_cons_self ..)).2.mono more
  | _ => exact (accounted.enqueued _ entry member).mono more

private theorem sections_step (accounted : Accounted w asked) (grounds : Grounds w)
    (stepped : w.step? label = some w') :
    ∀ k, ∀ s ∈ w'.todo k, s.Accounted w' (asked ++ w.asks label) k := by
  have grows := World.grows_of_step stepped
  have exchanges : ∀ e < w.exchange.size, e < w'.exchange.size ∧ (w'.exchange e).name = (w.exchange e).name :=
    fun e => World.exchange_of_step stepped
  intro k s member
  by_cases own : ∃ choice, label = .run k choice
  · obtain ⟨choice, rfl⟩ := own
    obtain ⟨first, rest, middle, next, pending, ran, rfl, inside⟩ := World.run_inv stepped
    rw [(World.rests_of_runSection ran).todo_setTodo inside, Function.update_self] at member
    refine Section.Accounted.mono (w := w) ?_ grounds.owned grows exchanges _
    rcases List.mem_append.1 member with new | later
    · exact accounted.of_runs grounds (pending ▸ List.mem_cons_self ..) (runs_of_runSection ran) s new
    · exact accounted.sections k s (pending ▸ List.mem_cons_of_mem _ later)
  · obtain ⟨effect, -, happens⟩ := World.happens_of_step stepped
    rcases World.todo_of_other happens (fun choice same => own ⟨choice, same⟩) with
      kept | ⟨env, rfl, started⟩ | ⟨-, ended⟩
    · exact (accounted.sections k s (kept ▸ member)).mono grounds.owned grows exchanges _
    · have started := Section.Accounted.of_handle grounds.owned asked k env (started ▸ member)
      have kept := started.mono grounds.owned grows exchanges []
      rwa [List.append_nil] at kept
    · rw [ended] at member
      exact List.mem_singleton.1 member ▸ trivial

private theorem step (accounted : Accounted w asked) (grounds : Grounds w) (stepped : w.step? label = some w') :
    Accounted w' (asked ++ w.asks label) :=
  ⟨accounted.queues_step stepped _, accounted.consumers_step grounds stepped _,
    accounted.bindings_step grounds stepped _, accounted.published_step stepped _,
    accounted.enqueued_step stepped _, accounted.sections_step grounds stepped⟩

end Accounted

theorem accounted_of_reachable (reached : askingBroker.Reachable anyStep (w, asked)) : Accounted w asked := by
  refine reached.invariant (P := fun state => Accounted state.1 state.2) .init ?_
  intro source target label before accounted _ stepped
  obtain ⟨next, moved, rfl⟩ := Option.map_eq_some_iff.1 stepped
  exact accounted.step (grounds_of_reachable before.of_recording) moved

/-- Every deliver frame that has been written is one that requests entitle its receiver to. -/
theorem entitled_of_reachable (reached : askingBroker.Reachable anyStep (w, asked)) :
    ∀ k, ∀ frame ∈ w.wire k, ∀ deliver, frame.payload = .deliver deliver →
      Entitled asked k frame.header.channelID deliver ∧ frame.header.requestID = 0 := by
  refine reached.invariant (P := fun state => ∀ k, ∀ frame ∈ state.1.wire k, ∀ deliver,
    frame.payload = .deliver deliver →
      Entitled state.2 k frame.header.channelID deliver ∧ frame.header.requestID = 0) ?_ ?_
  · intro k frame member
    exact absurd member List.not_mem_nil
  · rintro ⟨w, asked⟩ target label before entitled _ stepped k frame member deliver delivers
    obtain ⟨next, moved, rfl⟩ := Option.map_eq_some_iff.1 stepped
    have old (earlier : frame ∈ w.wire k) :
        Entitled (asked ++ w.asks label) k frame.header.channelID deliver ∧ frame.header.requestID = 0 := by
      obtain ⟨held, unasked⟩ := entitled k frame earlier deliver delivers
      exact ⟨held.mono _, unasked⟩
    rcases World.wire_of_step moved k with same | ⟨new, appended, reason⟩
    · exact old (same ▸ member)
    · rcases List.mem_append.1 (appended ▸ member) with earlier | last
      · exact old earlier
      · obtain rfl := List.mem_singleton.1 last
        rcases reason with ⟨choice, rest, -, pending⟩ | ⟨q, c, msg, rfl, phase, owner, rfl⟩
        · have plain := (confirming_of_reachable before.of_recording k).plain (.reply frame)
            (pending ▸ List.mem_cons_self ..)
          obtain ⟨header, payload⟩ := frame
          obtain rfl : payload = .deliver deliver := delivers
          contradiction
        · obtain rfl := Payload.deliver.inj delivers
          have accounted := accounted_of_reachable before
          have grounds := grounds_of_reachable before.of_recording
          obtain ⟨inside, mine⟩ := grounds.wellformed.phase phase
          have writing : (w.ledger q).writing = some (c, msg) := congrArg Dispatcher.delivery phase
          obtain ⟨origin, binds⟩ := accounted.origin_of_enqueued grounds.calls
            ((grounds.sound q).writingKnown c msg writing)
          have subscribed := accounted.consumers c inside
          rw [owner, World.queueName, mine] at subscribed
          have entitled : Entitled asked k (w.channel (w.consumer c).channel).id (msg.deliver (w.consumer c).tag) :=
            ⟨⟨_, subscribed, binds⟩, origin⟩
          exact ⟨entitled.mono _, rfl⟩

/-- The body of what is published, and of its dead letters, is that of a client's `basic.publish`. -/
theorem Origin.body {event : Publish} (origin : Origin asked event) :
    ∃ k id sent, Asks asked k id (.publish sent) ∧ sent.body = event.body := by
  induction origin with
  | @requested k id event asks => exact ⟨k, id, event, asks, rfl⟩
  | deadLetter _ _ _ _ _ _ ih => exact ih

/-- Whatever is delivered to a client is something that requests entitle it to: the client has asked to consume a
queue on that channel, a client has bound the queue for the exchange and the routing key of the message, and the
message has been published by a client or is the dead letter of one that has. Its body is always one that a client
has sent. -/
theorem deliveries_entitled (reached : askingBroker.Reachable anyStep (w, asked)) {frame : Frame} {deliver : Deliver}
    (written : frame ∈ w.wire k) (delivers : frame.payload = .deliver deliver) :
    frame.header.requestID = 0 ∧ Entitled asked k frame.header.channelID deliver ∧
      ∃ k' id' sent, Asks asked k' id' (.publish sent) ∧ sent.body = deliver.body := by
  obtain ⟨entitled, unasked⟩ := entitled_of_reachable reached k frame written deliver delivers
  exact ⟨unasked, entitled, entitled.origin.body⟩

/-- A message that one client publishes, receives and nacks goes to the queue of dead letters and to another client. -/
def deadLettering : List Label :=
  .accept :: served 0 ⟨0, 0, false, .channelOpen 1⟩ [{}] ++ served 0 ⟨1, 0, false, .exchangeDeclare "ex"⟩ [{}, {}] ++
    served 0 ⟨1, 0, false, .exchangeDeclare "dlx"⟩ [{}, {}] ++
    served 0 ⟨1, 0, false, .queueDeclare "q" "dlx" "letters"⟩ [{}, {}] ++
    served 0 ⟨1, 0, false, .queueBind "q" "ex" "key"⟩ [{}, {}, {}] ++
    served 0 ⟨1, 0, false, .queueDeclare "d" "" ""⟩ [{}, {}] ++
    served 0 ⟨1, 0, false, .queueBind "d" "dlx" "letters"⟩ [{}, {}, {}] ++ consuming ++
    .accept :: served 1 ⟨0, 0, false, .channelOpen 2⟩ [{}] ++
    served 1 ⟨2, 0, false, .consume "d" "mine"⟩ [{}, {}, {}, {}, {}] ++ publishing [7] ++ dispatching 0 0 ++
    .written 0 :: served 0 ⟨1, 0, false, .nack 1 (some false)⟩
      [{ refs := [0] }, {}, {}, { refs := [1] }, {}, {}, {}, {}] ++
    dispatching 1 1 ++ [.written 1]

def deadLettered : World × List (ConnectionRef × Envelope) := askingBroker.replay anyStep deadLettering

theorem deliveries_entitled_of_deadLetter :
    let frame : Frame := ⟨⟨2, 0⟩, .deliver ⟨1, [7], "dlx", "letters", "mine"⟩⟩
    frame ∈ deadLettered.1.wire 1 ∧ Entitled deadLettered.2 1 2 ⟨1, [7], "dlx", "letters", "mine"⟩ := by
  have reached : askingBroker.Reachable anyStep deadLettered := .of_replay _
  have written : ⟨⟨2, 0⟩, .deliver ⟨1, [7], "dlx", "letters", "mine"⟩⟩ ∈ deadLettered.1.wire 1 := by decide +kernel
  exact ⟨written, (deliveries_entitled reached written rfl).2.1⟩

end GolangMQ.Model
