import GolangMQ.Model.Wellformed

/-! # What one section can do

`Runs w k choice first w' next` lists every way in which a section of the goroutine of connection `k` can
run, with the guards it has passed, the whole world after it and the sections it leads to. Invariants of
the broker's maps, of the channels and of the connections are proved by cases on it. The moves of a
dispatcher and what the outside world does to a connection leave these maps alone (`Aligned`).
-/

namespace GolangMQ.Model

inductive Runs (w : World) (k : ConnectionRef) (choice : Choice) : Section → World → List Section → Prop
  | publishUnknown {event : Publish} {report : Option Header} (missing : w.exchanges.lookup event.exchange = none) :
      Runs w k choice (.publish event report)
        ((w.modifyConnection k fun conn => { conn with published := conn.published ++ [event] }).count fun m =>
          { m with publishErrors := m.publishErrors + 1 })
        (report.map fun header =>
          Section.reply ⟨header, .error (.broker (.publishExchangeNotFound event.exchange))⟩).toList
  | publish {event : Publish} {report : Option Header} {e : ExchangeRef}
      (found : w.exchanges.lookup event.exchange = some e) :
      Runs w k choice (.publish event report)
        ((w.modifyConnection k fun conn => { conn with published := conn.published ++ [event] }).count fun m =>
          { m with published := bump m.published event.exchange }) [.route e event]
  | unroutable {e : ExchangeRef} {event : Publish} (none : (w.exchange e).getQueues event.routingKey = [])
      (chosen : choice.refs = []) :
      Runs w k choice (.route e event)
        (w.count fun m => { m with publishUnroutable := bump m.publishUnroutable event.exchange }) []
  | route {e : ExchangeRef} {event : Publish} (chosen : choice.refs ≠ [])
      (all : choice.refs.Perm ((w.exchange e).getQueues event.routingKey)) :
      Runs w k choice (.route e event) w (choice.refs.map (Section.takeTag · event))
  | takeTag {q : QueueRef} {event : Publish} (free : w.lockFree q) :
      Runs w k choice (.takeTag q event) (w.apply (.takeTag q)) [.enqueue q (w.stamped q event)]
  | enqueue {q : QueueRef} {msg : Message} (free : w.lockFree q) :
      Runs w k choice (.enqueue q msg)
        ((w.count fun m => { m with enqueued := bump m.enqueued (w.queue q).name }).apply
          (.enqueue q ⟨k, w.currentCall k, msg⟩)) [.signal q]
  | signal {q : QueueRef} : Runs w k choice (.signal q) (w.apply (.signal q)) []
  | consumeRefused {ch : ChannelRef} {header : Header} {queue tag : String} {error : BrokerError}
      (refused : w.newConsumer ch queue tag = .error error) :
      Runs w k choice (.consume ch header queue tag) w [.reply ⟨header, .error (.broker error)⟩]
  | consume {ch : ChannelRef} {header : Header} {queue tag : String} {q : QueueRef}
      (declared : w.queues.lookup queue = some q) (fresh : w.consumerTag ch tag ∉ (w.channel ch).consumers) :
      Runs w k choice (.consume ch header queue tag) (w.apply (.newConsumer (w.consumerTag ch tag) q ch))
        [.register w.consumer.size, .attach w.consumer.size header]
  | register {c : ConsumerRef} (free : w.lockFree (w.consumer c).queue) :
      Runs w k choice (.register c) (w.apply (.registerConsumer c)) [.signal (w.consumer c).queue]
  | attach {c : ConsumerRef} {header : Header} :
      Runs w k choice (.attach c header) (w.attach c) [.reply ⟨header, .consumeOK (w.consumer c).tag⟩]
  | ackRange {ch : ChannelRef} {tag : UInt16} (all : choice.refs.Perm (w.channel ch).consumers.values) :
      Runs w k choice (.ackRange ch tag) w [.ackScan choice.refs tag]
  | ackUnknown {tag : UInt16} : Runs w k choice (.ackScan [] tag) w []
  | ackFound {c : ConsumerRef} {rest : List ConsumerRef} {tag : UInt16} (found : tag ∈ (w.consumer c).inflightTags) :
      Runs w k choice (.ackScan (c :: rest) tag) w [.ack (w.queueName c) tag]
  | ackNext {c : ConsumerRef} {rest : List ConsumerRef} {tag : UInt16} (other : tag ∉ (w.consumer c).inflightTags) :
      Runs w k choice (.ackScan (c :: rest) tag) w [.ackScan rest tag]
  | ackUnnamed {name : String} {tag : UInt16} (missing : w.queues.lookup name = none) :
      Runs w k choice (.ack name tag) w []
  | ackNamed {name : String} {tag : UInt16} {q : QueueRef} (found : w.queues.lookup name = some q) :
      Runs w k choice (.ack name tag) w [.ackQueue q tag]
  | ackGone {q : QueueRef} {tag : UInt16} (free : w.lockFree q) (all : Ranges choice.refs (w.queue q).consumers)
      (gone : ∀ c ∈ (w.queue q).consumers, tag ∉ (w.consumer c).inflightTags) :
      Runs w k choice (.ackQueue q tag) w []
  | ackQueue {q : QueueRef} {tag : UInt16} {c : ConsumerRef} (free : w.lockFree q)
      (member : c ∈ (w.queue q).consumers) (found : tag ∈ (w.consumer c).inflightTags) :
      Runs w k choice (.ackQueue q tag)
        ((w.count fun m => { m with acked := bump m.acked (w.queue q).name }).apply (.ack q c tag)) [.signal q]
  | nackRange {ch : ChannelRef} {tag : UInt16} {requeue : Bool}
      (all : choice.refs.Perm (w.channel ch).consumers.values) :
      Runs w k choice (.nackRange ch tag requeue) w [.nackScan choice.refs tag requeue]
  | nackUnknown {tag : UInt16} {requeue : Bool} : Runs w k choice (.nackScan [] tag requeue) w []
  | nackNext {c : ConsumerRef} {rest : List ConsumerRef} {tag : UInt16} {requeue : Bool}
      (other : (w.consumer c).pendingMessages.lookup tag = none) :
      Runs w k choice (.nackScan (c :: rest) tag requeue) w [.nackScan rest tag requeue]
  | nack {c : ConsumerRef} {rest : List ConsumerRef} {tag : UInt16} {requeue : Bool} {msg : Message}
      (found : (w.consumer c).pendingMessages.lookup tag = some msg) :
      Runs w k choice (.nackScan (c :: rest) tag requeue) (w.settleNack c msg tag requeue) (w.afterNack c msg requeue)
  | requeue {q : QueueRef} {msg : Message} (free : w.lockFree q) :
      Runs w k choice (.requeue q msg) (w.apply (.requeue q msg)) []
  | redeclareQueue {name dlx dlxRoutingKey : String} (taken : name ∈ w.queues) :
      Runs w k choice (.declareQueue name dlx dlxRoutingKey) w []
  | declareQueue {name dlx dlxRoutingKey : String} (fresh : name ∉ w.queues) :
      Runs w k choice (.declareQueue name dlx dlxRoutingKey)
        { w.apply (.newQueue name dlx dlxRoutingKey) with queues := w.queues.insert name w.queue.size } []
  | redeclareExchange {name : String} (taken : name ∈ w.exchanges) :
      Runs w k choice (.declareExchange name) w []
  | declareExchange {name : String} (fresh : name ∉ w.exchanges) :
      Runs w k choice (.declareExchange name)
        { w with exchanges := w.exchanges.insert name w.exchange.size, exchange := w.exchange.alloc { name } } []
  | bindRefused {exchange queue routingKey : String} {error : BrokerError}
      (refused : w.bindTargets exchange queue = .error error) :
      Runs w k choice (.bindQueue exchange queue routingKey) w []
  | bindQueue {exchange queue routingKey : String} {e : ExchangeRef} {q : QueueRef}
      (known : w.exchanges.lookup exchange = some e) (declared : w.queues.lookup queue = some q) :
      Runs w k choice (.bindQueue exchange queue routingKey) w [.bind e q routingKey]
  | bind {e : ExchangeRef} {q : QueueRef} {routingKey : String} :
      Runs w k choice (.bind e q routingKey) (w.bind e q routingKey) []
  | cleanup {ch : ChannelRef} (all : choice.refs.Perm (w.channel ch).consumers.values) :
      Runs w k choice (.cleanup ch) w (choice.refs.map Section.unregister)
  | unregistered {c : ConsumerRef} (free : w.lockFree (w.consumer c).queue)
      (gone : c ∉ (w.queue (w.consumer c).queue).consumers) : Runs w k choice (.unregister c) w []
  | unregister {c : ConsumerRef} (free : w.lockFree (w.consumer c).queue)
      (member : c ∈ (w.queue (w.consumer c).queue).consumers)
      (all : choice.messages.Perm (w.consumer c).pendingMessages.values) :
      Runs w k choice (.unregister c)
        ((w.count fun m => { m with consumersUnregistered := bump m.consumersUnregistered (w.queueName c) }).apply
          (.unregisterConsumer c choice.messages)) [.signal (w.consumer c).queue]
  | reply {frame : Frame} (written : choice.ok = true) :
      Runs w k choice (.reply frame) (w.modifyConnection k fun conn => { conn with wire := conn.wire ++ [frame] }) []
  | unsent {frame : Frame} (failed : choice.ok = false) : Runs w k choice (.reply frame) w []
  | teardown (all : choice.refs.Perm (w.connection k).channels.values) :
      Runs w k choice .teardown (w.count fun m => { m with connectionsClosed := m.connectionsClosed + 1 })
        (choice.refs.map Section.cleanup ++ [.depart])
  | depart : Runs w k choice .depart (w.modifyConnection k fun conn => { conn with live := false }) []

section Inversion

variable {w w' : World} {k : ConnectionRef} {choice : Choice} {first : Section} {next : List Section}

theorem World.bindTargets_ok {exchange queue : String} {targets : ExchangeRef × QueueRef}
    (found : w.bindTargets exchange queue = .ok targets) :
    w.exchanges.lookup exchange = some targets.1 ∧ w.queues.lookup queue = some targets.2 := by
  unfold World.bindTargets at found
  split at found <;> cases found
  next known declared => exact ⟨known, declared⟩

/-- Every section that runs does so in one of the listed ways. -/
theorem runs_of_runSection (ran : w.runSection k choice first = some (w', next)) : Runs w k choice first w' next := by
  cases first with
  | publish event report =>
    simp only [World.runSection] at ran
    split at ran <;> cases ran
    · next missing => exact .publishUnknown missing
    · next e found => exact .publish found
  | route e event =>
    simp only [World.runSection] at ran
    split_ifs at ran with all empty <;> cases ran
    · rw [empty, List.map_nil]
      exact .unroutable (List.Perm.nil_eq (empty ▸ all)).symm empty
    · exact .route empty all
  | takeTag q event =>
    simp only [World.runSection] at ran
    split_ifs at ran with free
    cases ran
    exact .takeTag free
  | enqueue q msg =>
    simp only [World.runSection] at ran
    split_ifs at ran with free
    cases ran
    exact .enqueue free
  | signal q =>
    cases ran
    exact .signal
  | consume ch header queue tag =>
    simp only [World.runSection] at ran
    split at ran <;> cases ran
    · next error refused => exact .consumeRefused refused
    · next made =>
      unfold World.newConsumer at made
      split at made
      · contradiction
      · next q declared =>
        split_ifs at made with fresh
        cases made
        exact .consume declared fresh
  | register c =>
    simp only [World.runSection] at ran
    split_ifs at ran with free
    cases ran
    exact .register free
  | attach c header =>
    cases ran
    exact .attach
  | ackRange ch tag =>
    simp only [World.runSection] at ran
    split_ifs at ran with all
    cases ran
    exact .ackRange all
  | ackScan consumers tag =>
    cases consumers with
    | nil =>
      cases ran
      exact .ackUnknown
    | cons c rest =>
      simp only [World.runSection] at ran
      split_ifs at ran with found <;> cases ran
      · exact .ackFound found
      · exact .ackNext found
  | ack name tag =>
    simp only [World.runSection] at ran
    split at ran <;> cases ran
    · next missing => exact .ackUnnamed missing
    · next q found => exact .ackNamed found
  | ackQueue q tag =>
    simp only [World.runSection] at ran
    split_ifs at ran with ready
    obtain ⟨free, all⟩ := ready
    have visited (c : ConsumerRef) : c ∈ choice.refs ↔ c ∈ (w.queue q).consumers := by
      rw [← all.2, List.mem_toFinset]
    split at ran <;> cases ran
    · next missing =>
      refine .ackGone free all fun c member holds => ?_
      simpa [holds] using List.find?_eq_none.1 missing c ((visited c).2 member)
    · next c found =>
      refine .ackQueue free ((visited c).1 (List.mem_of_find?_eq_some found)) ?_
      simpa using List.find?_some found
  | nackRange ch tag requeue =>
    simp only [World.runSection] at ran
    split_ifs at ran with all
    cases ran
    exact .nackRange all
  | nackScan consumers tag requeue =>
    cases consumers with
    | nil =>
      cases ran
      exact .nackUnknown
    | cons c rest =>
      simp only [World.runSection] at ran
      split at ran <;> cases ran
      · next other => exact .nackNext other
      · next msg found => exact .nack found
  | requeue q msg =>
    simp only [World.runSection] at ran
    split_ifs at ran with free
    cases ran
    exact .requeue free
  | declareQueue name dlx dlxRoutingKey =>
    simp only [World.runSection, World.declareQueue] at ran
    split at ran <;> cases ran
    · next found => exact .redeclareQueue (AList.lookup_isSome.1 (found ▸ rfl))
    · next fresh => exact .declareQueue (AList.lookup_eq_none.1 fresh)
  | declareExchange name =>
    simp only [World.runSection, World.declareExchange] at ran
    split at ran <;> cases ran
    · next found => exact .redeclareExchange (AList.lookup_isSome.1 (found ▸ rfl))
    · next fresh => exact .declareExchange (AList.lookup_eq_none.1 fresh)
  | bindQueue exchange queue routingKey =>
    simp only [World.runSection] at ran
    split at ran <;> cases ran
    · next refused => exact .bindRefused refused
    · next e q found => exact .bindQueue (World.bindTargets_ok found).1 (World.bindTargets_ok found).2
  | bind e q routingKey =>
    cases ran
    exact .bind
  | cleanup ch =>
    simp only [World.runSection] at ran
    split_ifs at ran with all
    cases ran
    exact .cleanup all
  | unregister c =>
    simp only [World.runSection] at ran
    split_ifs at ran with free member all <;> cases ran
    · exact .unregister free member all
    · exact .unregistered free member
  | reply frame =>
    simp only [World.runSection, Option.some.injEq, Prod.mk.injEq] at ran
    obtain ⟨rfl, rfl⟩ := ran
    split
    · next written => exact .reply written
    · next failed => exact .unsent (by simpa using failed)
  | teardown =>
    simp only [World.runSection] at ran
    split_ifs at ran with all
    cases ran
    exact .teardown all
  | depart =>
    cases ran
    exact .depart

/-- The sections that a section can lead to. -/
inductive Leads : Section → Section → Prop
  | publishUnknown (event : Publish) (header : Header) (error : BrokerError) :
      Leads (.publish event (some header)) (.reply ⟨header, .error (.broker error)⟩)
  | publish (event : Publish) (report : Option Header) (e : ExchangeRef) :
      Leads (.publish event report) (.route e event)
  | route (e : ExchangeRef) (event : Publish) (q : QueueRef) : Leads (.route e event) (.takeTag q event)
  | takeTag (q : QueueRef) (event : Publish) (msg : Message) : Leads (.takeTag q event) (.enqueue q msg)
  | enqueue (q : QueueRef) (msg : Message) : Leads (.enqueue q msg) (.signal q)
  | consumeRefused (ch : ChannelRef) (header : Header) (queue tag : String) (error : BrokerError) :
      Leads (.consume ch header queue tag) (.reply ⟨header, .error (.broker error)⟩)
  | consumeRegister (ch : ChannelRef) (header : Header) (queue tag : String) (c : ConsumerRef) :
      Leads (.consume ch header queue tag) (.register c)
  | consumeAttach (ch : ChannelRef) (header : Header) (queue tag : String) (c : ConsumerRef) :
      Leads (.consume ch header queue tag) (.attach c header)
  | register (c : ConsumerRef) (q : QueueRef) : Leads (.register c) (.signal q)
  | attach (c : ConsumerRef) (header : Header) (tag : String) :
      Leads (.attach c header) (.reply ⟨header, .consumeOK tag⟩)
  | ackRange (ch : ChannelRef) (tag : UInt16) (consumers : List ConsumerRef) :
      Leads (.ackRange ch tag) (.ackScan consumers tag)
  | ackFound (consumers : List ConsumerRef) (tag : UInt16) (name : String) :
      Leads (.ackScan consumers tag) (.ack name tag)
  | ackNext (c : ConsumerRef) (rest : List ConsumerRef) (tag : UInt16) :
      Leads (.ackScan (c :: rest) tag) (.ackScan rest tag)
  | ackNamed (name : String) (tag : UInt16) (q : QueueRef) : Leads (.ack name tag) (.ackQueue q tag)
  | ackQueue (q : QueueRef) (tag : UInt16) : Leads (.ackQueue q tag) (.signal q)
  | nackRange (ch : ChannelRef) (tag : UInt16) (requeue : Bool) (consumers : List ConsumerRef) :
      Leads (.nackRange ch tag requeue) (.nackScan consumers tag requeue)
  | nackNext (c : ConsumerRef) (rest : List ConsumerRef) (tag : UInt16) (requeue : Bool) :
      Leads (.nackScan (c :: rest) tag requeue) (.nackScan rest tag requeue)
  | requeue (consumers : List ConsumerRef) (tag : UInt16) (requeue : Bool) (q : QueueRef) (msg : Message) :
      Leads (.nackScan consumers tag requeue) (.requeue q msg)
  | deadLetter (consumers : List ConsumerRef) (tag : UInt16) (requeue : Bool) (event : Publish) :
      Leads (.nackScan consumers tag requeue) (.publish event none)
  | nacked (consumers : List ConsumerRef) (tag : UInt16) (requeue : Bool) (q : QueueRef) :
      Leads (.nackScan consumers tag requeue) (.signal q)
  | bindQueue (exchange queue routingKey : String) (e : ExchangeRef) (q : QueueRef) :
      Leads (.bindQueue exchange queue routingKey) (.bind e q routingKey)
  | cleanup (ch : ChannelRef) (c : ConsumerRef) : Leads (.cleanup ch) (.unregister c)
  | unregister (c : ConsumerRef) (q : QueueRef) : Leads (.unregister c) (.signal q)
  | teardown (ch : ChannelRef) : Leads .teardown (.cleanup ch)
  | depart : Leads .teardown .depart

theorem leads_of_runs (runs : Runs w k choice first w' next) {s : Section} (member : s ∈ next) : Leads first s := by
  cases runs with
  | publishUnknown =>
    obtain ⟨header, rfl, rfl⟩ := Option.map_eq_some_iff.1 (Option.mem_toList.1 member)
    exact .publishUnknown ..
  | route =>
    obtain ⟨q, -, rfl⟩ := List.mem_map.1 member
    exact .route ..
  | consume =>
    rcases List.mem_pair.1 member with rfl | rfl
    · exact .consumeRegister ..
    · exact .consumeAttach ..
  | nack =>
    rcases mem_afterNack member with rfl | rfl | rfl
    · exact .requeue ..
    · exact .deadLetter ..
    · exact .nacked ..
  | cleanup =>
    obtain ⟨c, -, rfl⟩ := List.mem_map.1 member
    exact .cleanup ..
  | teardown =>
    rcases List.mem_append.1 member with cleanup | last
    · obtain ⟨ch, -, rfl⟩ := List.mem_map.1 cleanup
      exact .teardown ch
    · exact List.mem_singleton.1 last ▸ .depart
  | publish => exact List.mem_singleton.1 member ▸ .publish ..
  | takeTag => exact List.mem_singleton.1 member ▸ .takeTag ..
  | enqueue => exact List.mem_singleton.1 member ▸ .enqueue ..
  | consumeRefused => exact List.mem_singleton.1 member ▸ .consumeRefused ..
  | register => exact List.mem_singleton.1 member ▸ .register ..
  | attach => exact List.mem_singleton.1 member ▸ .attach ..
  | ackRange => exact List.mem_singleton.1 member ▸ .ackRange ..
  | ackFound => exact List.mem_singleton.1 member ▸ .ackFound ..
  | ackNext => exact List.mem_singleton.1 member ▸ .ackNext ..
  | ackNamed => exact List.mem_singleton.1 member ▸ .ackNamed ..
  | ackQueue => exact List.mem_singleton.1 member ▸ .ackQueue ..
  | nackRange => exact List.mem_singleton.1 member ▸ .nackRange ..
  | nackNext => exact List.mem_singleton.1 member ▸ .nackNext ..
  | bindQueue => exact List.mem_singleton.1 member ▸ .bindQueue ..
  | unregister => exact List.mem_singleton.1 member ▸ .unregister ..
  | unroutable | signal | ackUnknown | ackUnnamed | ackGone | nackUnknown | requeue | redeclareQueue | declareQueue
  | redeclareExchange | declareExchange | bindRefused | bind | unregistered | reply | unsent | depart =>
    exact absurd member List.not_mem_nil

end Inversion

namespace World

/-- `Connection.channels` of each connection. -/
def channelsOf (w : World) (k : ConnectionRef) : AList (fun _ : UInt16 => ChannelRef) := (w.connection k).channels

/-- The connections in `Server.connections`. -/
def connected (w : World) (k : ConnectionRef) : Bool := (w.connection k).live

/-- The maps of the broker, of the channels and of the connections are the same. -/
structure Aligned (w w' : World) : Prop where
  channel : w'.channel = w.channel
  queues : w'.queues = w.queues
  exchanges : w'.exchanges = w.exchanges
  exchange : w'.exchange = w.exchange
  channelsOf : w'.channelsOf = w.channelsOf
  connected : w'.connected = w.connected

theorem channelsOf_kept (w : World) (k : ConnectionRef) (f : Connection → Connection)
    (kept : (f (w.connection k)).channels = (w.connection k).channels) :
    (w.modifyConnection k f).channelsOf = w.channelsOf :=
  funext fun j => w.connection.observe_modify Connection.channels k f kept j

theorem connected_kept (w : World) (k : ConnectionRef) (f : Connection → Connection)
    (kept : (f (w.connection k)).live = (w.connection k).live) : (w.modifyConnection k f).connected = w.connected :=
  funext fun j => w.connection.observe_modify Connection.live k f kept j

theorem aligned_setTodo (w : World) (k : ConnectionRef) (sections : List Section) : w.Aligned (w.setTodo k sections) :=
  ⟨rfl, rfl, rfl, rfl, w.channelsOf_kept k _ rfl, w.connected_kept k _ rfl⟩

end World

/-- The labels of a dispatcher. -/
def Label.ofDispatcher : Label → Bool
  | .accept | .request .. | .disconnect _ | .run .. => false
  | _ => true

/-- A step by who takes it. -/
inductive Steps (w : World) : Label → World → Prop
  | accept : Steps w .accept ({ w with connection := w.connection.alloc { live := true } }.count fun m =>
      { m with connectionsOpened := m.connectionsOpened + 1 })
  | request {k : ConnectionRef} {env : Envelope} (alive : w.connected k = true) (idle : w.todo k = []) :
      Steps w (.request k env) ((w.handle k env).1.setTodo k (w.handle k env).2)
  | disconnect {k : ConnectionRef} (alive : w.connected k = true) (idle : w.todo k = []) :
      Steps w (.disconnect k) (w.setTodo k [.teardown])
  | run {k : ConnectionRef} {choice : Choice} {first : Section} {rest next : List Section} {middle : World}
      (inside : k < w.connection.size) (pending : w.todo k = first :: rest) (runs : Runs w k choice first middle next)
      (rests : w.Rests middle) : Steps w (.run k choice) (middle.setTodo k (next ++ rest))
  | dispatch {label : Label} {w' : World} (dispatches : label.ofDispatcher = true) (aligned : w.Aligned w')
      (rests : w.Rests w') : Steps w label w'

namespace World

variable {w w' : World} {label : Label}

/-- A goroutine that has moved on has its new sections, and the others have what they had. -/
theorem Rests.todo_setTodo {middle : World} (rests : w.Rests middle) {k : ConnectionRef}
    (inside : k < w.connection.size)
    (sections : List Section) : (middle.setTodo k sections).todo = Function.update w.todo k sections := by
  rw [World.todo_setTodo middle (rests.size ▸ inside), rests.todo]

private theorem aligned_of_dispatches (dispatches : label.ofDispatcher = true) (stepped : w.step? label = some w') :
    w.Aligned w' := by
  cases label with
  | accept | request | disconnect | run => contradiction
  | written q =>
    simp only [step?] at stepped
    split at stepped <;> cases stepped
    next c msg phase =>
      let channel := w.channel (w.consumer c).channel
      let write (conn : Connection) : Connection :=
        { conn with wire := conn.wire ++ [⟨⟨channel.id, 0⟩, .deliver (msg.deliver (w.consumer c).tag)⟩] }
      exact ⟨rfl, rfl, rfl, rfl, w.channelsOf_kept channel.conn write rfl, w.connected_kept channel.conn write rfl⟩
  | _ =>
    simp only [step?] at stepped
    repeat' split at stepped
    all_goals first | contradiction | (cases stepped; exact ⟨rfl, rfl, rfl, rfl, rfl, rfl⟩)

theorem steps_of_step (stepped : w.step? label = some w') : Steps w label w' := by
  cases label with
  | accept =>
    cases stepped
    exact .accept
  | request k env =>
    simp only [step?] at stepped
    split_ifs at stepped with ready
    cases stepped
    exact .request ready.1 ready.2
  | disconnect k =>
    simp only [step?] at stepped
    split_ifs at stepped with ready
    cases stepped
    exact .disconnect ready.1 ready.2
  | run k choice =>
    obtain ⟨first, rest, middle, next, pending, ran, rfl, inside⟩ := run_inv stepped
    exact .run inside pending (runs_of_runSection ran) (rests_of_runSection ran)
  | _ =>
    obtain ⟨effect, -, happens⟩ := happens_of_step stepped
    have rests : w.Rests w' := by cases happens; assumption
    exact .dispatch rfl (aligned_of_dispatches rfl stepped) rests

end World

/-- `RegisterConsumer` stores the consumer under its tag. -/
def Channel.attach (channel : Channel) (tag : String) (c : ConsumerRef) : Channel :=
  { channel with consumers := channel.consumers.insert tag c }

/-- What a step does to the channels, to the connections' maps and to the set of connections. -/
inductive Tables (w : World) : Label → World → Prop
  | kept {label : Label} {w' : World} (channel : w'.channel = w.channel) (channelsOf : w'.channelsOf = w.channelsOf)
      (connected : w'.connected = w.connected) : Tables w label w'
  | accepted {w' : World} (channel : w'.channel = w.channel) (channelsOf : w'.channelsOf = w.channelsOf)
      (connected : w'.connected = Function.update w.connected w.connection.size true) : Tables w .accept w'
  | opened {k : ConnectionRef} {env : Envelope} {id : UInt16} {w' : World} (asked : env.request = .channelOpen id)
      (alive : w.connected k = true) (idle : w.todo k = []) (channel : w'.channel = w.channel.alloc { id, conn := k })
      (channelsOf : w'.channelsOf = Function.update w.channelsOf k ((w.channelsOf k).insert id w.channel.size))
      (connected : w'.connected = w.connected) : Tables w (.request k env) w'
  | closed {k : ConnectionRef} {env : Envelope} {w' : World} (asked : env.request = .channelClose)
      (alive : w.connected k = true) (idle : w.todo k = []) (channel : w'.channel = w.channel)
      (channelsOf : w'.channelsOf = Function.update w.channelsOf k ((w.channelsOf k).erase env.channelID))
      (connected : w'.connected = w.connected) : Tables w (.request k env) w'
  | attached {k : ConnectionRef} {choice : Choice} {c : ConsumerRef} {header : Header} {rest : List Section}
      {w' : World} (pending : w.todo k = .attach c header :: rest)
      (channel : w'.channel = w.channel.modify (w.consumer c).channel (·.attach (w.consumer c).tag c))
      (channelsOf : w'.channelsOf = w.channelsOf) (connected : w'.connected = w.connected) : Tables w (.run k choice) w'
  | departed {k : ConnectionRef} {choice : Choice} {rest : List Section} {w' : World}
      (pending : w.todo k = .depart :: rest) (channel : w'.channel = w.channel)
      (channelsOf : w'.channelsOf = w.channelsOf) (connected : w'.connected = Function.update w.connected k false) :
      Tables w (.run k choice) w'

namespace World

variable {w w' : World} {label : Label} {k : ConnectionRef} {choice : Choice} {first : Section} {next : List Section}

theorem channelsOf_modifyConnection (w : World) (inside : k < w.connection.size) (f : Connection → Connection) :
    (w.modifyConnection k f).channelsOf = Function.update w.channelsOf k (f (w.connection k)).channels := by
  funext j
  by_cases same : j = k
  · subst same
    rw [Function.update_self, channelsOf, modifyConnection, Heap.cell_modify_self _ _ inside]
  · rw [Function.update_of_ne same, channelsOf, modifyConnection, Heap.cell_modify_of_ne _ _ same]
    rfl

theorem connected_modifyConnection (w : World) (inside : k < w.connection.size) (f : Connection → Connection) :
    (w.modifyConnection k f).connected = Function.update w.connected k (f (w.connection k)).live := by
  funext j
  by_cases same : j = k
  · subst same
    rw [Function.update_self, connected, modifyConnection, Heap.cell_modify_self _ _ inside]
  · rw [Function.update_of_ne same, connected, modifyConnection, Heap.cell_modify_of_ne _ _ same]
    rfl

private theorem tables_of_request {env : Envelope} (alive : w.connected k = true) (idle : w.todo k = []) :
    Tables w (.request k env) ((w.handle k env).1.setTodo k (w.handle k env).2) := by
  have inside : k < w.connection.size := inside_of_live alive
  have started := (w.handle k env).1.aligned_setTodo k (w.handle k env).2
  revert started
  generalize (w.handle k env).1.setTodo k (w.handle k env).2 = target
  refine w.handle_cases k env (P := fun w' _ => w'.Aligned target → Tables w (.request k env) target)
    (fun id asked started => ?_) (fun asked started => ?_) (fun _ started => ?_) (fun _ _ started => ?_)
  · refine .opened asked alive idle started.channel ?_ ?_
    · rw [started.channelsOf]
      exact channelsOf_modifyConnection { w with channel := w.channel.alloc { id, conn := k } } inside _
    · rw [started.connected]
      exact connected_kept { w with channel := w.channel.alloc { id, conn := k } } k _ rfl
  · refine .closed asked alive idle started.channel ?_ ?_
    · rw [started.channelsOf]
      exact channelsOf_modifyConnection w inside _
    · rw [started.connected]
      exact w.connected_kept k _ rfl
  · exact .kept started.channel started.channelsOf started.connected
  · exact .kept started.channel started.channelsOf started.connected

private theorem tables_of_run {rest : List Section} (inside : k < w.connection.size)
    (pending : w.todo k = first :: rest)
    (runs : Runs w k choice first w' next) : Tables w (.run k choice) (w'.setTodo k (next ++ rest)) := by
  have started := w'.aligned_setTodo k (next ++ rest)
  cases runs with
  | attach => exact .attached pending started.channel started.channelsOf started.connected
  | depart =>
    refine .departed pending started.channel ?_ ?_
    · rw [started.channelsOf]
      exact w.channelsOf_kept k _ rfl
    · rw [started.connected]
      exact connected_modifyConnection w inside _
  | @publishUnknown event | @publish event =>
    let log (conn : Connection) : Connection := { conn with published := conn.published ++ [event] }
    exact .kept started.channel (started.channelsOf.trans (w.channelsOf_kept k log rfl))
      (started.connected.trans (w.connected_kept k log rfl))
  | @reply frame =>
    let write (conn : Connection) : Connection := { conn with wire := conn.wire ++ [frame] }
    exact .kept started.channel (started.channelsOf.trans (w.channelsOf_kept k write rfl))
      (started.connected.trans (w.connected_kept k write rfl))
  | _ => exact .kept started.channel started.channelsOf started.connected

theorem tables_of_step (stepped : w.step? label = some w') : Tables w label w' := by
  cases steps_of_step stepped with
  | accept =>
    refine .accepted rfl (funext (w.connection.observe_alloc Connection.channels { live := true } rfl))
      (funext fun j => ?_)
    by_cases same : j = w.connection.size
    · subst same
      rw [Function.update_self]
      exact congrArg Connection.live (w.connection.cell_alloc_self _)
    · rw [Function.update_of_ne same]
      exact congrArg Connection.live (w.connection.cell_alloc_of_ne _ same)
  | request alive idle => exact tables_of_request alive idle
  | @disconnect k =>
    have started := w.aligned_setTodo k [.teardown]
    exact .kept started.channel started.channelsOf started.connected
  | run inside pending runs => exact tables_of_run inside pending runs
  | dispatch dispatches aligned => exact .kept aligned.channel aligned.channelsOf aligned.connected

end World

end GolangMQ.Model
