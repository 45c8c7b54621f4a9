import GolangMQ.Model.Concurrent

/-! # What one step can do

`Happens w label w' effect` lists every way in which a step from `w` to `w'` can have the given effect
on the queues and consumers, with the guards it has passed and with what it does to the sections
still to run. `happens_of_step` is the only place where the step function is taken apart; invariants
of the store are proved by cases on `Happens`.
-/

namespace GolangMQ.Model

namespace World

/-- The sections each goroutine still has to run. -/
def todo (w : World) (k : ConnectionRef) : List Section := (w.connection k).todo

/-- Connection `k` has run `first` and goes on with `next`. -/
structure Advances (w w' : World) (k : ConnectionRef) (first : Section) (next : List Section) : Prop where
  size : w'.connection.size = w.connection.size
  todo : ∃ rest, w.todo k = first :: rest ∧ w'.todo = Function.update w.todo k (next ++ rest)

/-- No goroutine of a connection has moved. -/
structure Rests (w w' : World) : Prop where
  size : w'.connection.size = w.connection.size
  todo : w'.todo = w.todo

theorem Advances.inside {w w' : World} {k : ConnectionRef} {first : Section} {next : List Section}
    (advances : w.Advances w' k first next) : k < w.connection.size := by
  obtain ⟨rest, pending, _⟩ := advances.todo
  by_contra outside
  rw [World.todo, w.connection.beyond k (Nat.le_of_not_lt outside)] at pending
  exact List.cons_ne_nil _ _ pending.symm

end World

/-- The sections whose local variables hold a message or that owe a signal. -/
def Section.carries : Section → Bool
  | .enqueue _ _ | .requeue _ _ | .signal _ => true
  | _ => false

/-- The sections that follow the removal of a message in `HandleNack`. -/
def World.afterNack (w : World) (c : ConsumerRef) (msg : Message) (requeue : Bool) : List Section :=
  (if requeue then [.requeue (w.consumer c).queue msg]
    else if (w.queue (w.consumer c).queue).dlx = "" then []
    else [.publish (w.deadLetter c msg) none]) ++ [.signal (w.consumer c).queue]

/-- A message is returned or goes to the dead letter exchange, and the dispatcher is signalled. -/
theorem mem_afterNack {w : World} {c : ConsumerRef} {msg : Message} {requeue : Bool} {s : Section}
    (member : s ∈ w.afterNack c msg requeue) :
    s = .requeue (w.consumer c).queue msg ∨ s = .publish (w.deadLetter c msg) none ∨
      s = .signal (w.consumer c).queue := by
  unfold World.afterNack at member
  rcases List.mem_append.1 member with removed | last
  · split_ifs at removed
    · exact .inl (List.mem_singleton.1 removed)
    · exact absurd removed List.not_mem_nil
    · exact .inr (.inl (List.mem_singleton.1 removed))
  · exact .inr (.inr (List.mem_singleton.1 last))

/-- What the step `label` from `w` to `w'` does, with the guards it has passed. -/
inductive Happens (w : World) : Label → World → Effect → Prop
  | accepted {w' : World} (size : w'.connection.size = w.connection.size + 1) (todo : w'.todo = w.todo) :
      Happens w .accept w' .silent
  | requested {w' : World} {k : ConnectionRef} {env : Envelope} (size : w'.connection.size = w.connection.size)
      (inside : k < w.connection.size) (idle : w.todo k = [])
      (todo : w'.todo = Function.update w.todo k (w.handle k env).2) : Happens w (.request k env) w' .silent
  | disconnected {w' : World} {k : ConnectionRef} (size : w'.connection.size = w.connection.size)
      (inside : k < w.connection.size) (idle : w.todo k = [])
      (todo : w'.todo = Function.update w.todo k [.teardown]) : Happens w (.disconnect k) w' .silent
  | quiet {w' : World} {k : ConnectionRef} {choice : Choice} {first : Section} {next : List Section}
      (advances : w.Advances w' k first next) (silent : first.carries = false)
      (quiet : ∀ pending ∈ next, pending.carries = false) : Happens w (.run k choice) w' .silent
  | newQueue {w' : World} {k : ConnectionRef} {choice : Choice} {name dlx dlxRoutingKey : String}
      (advances : w.Advances w' k (.declareQueue name dlx dlxRoutingKey) []) :
      Happens w (.run k choice) w' (.newQueue name dlx dlxRoutingKey)
  | newConsumer {w' : World} {k : ConnectionRef} {choice : Choice} {ch : ChannelRef} {header : Header}
      {name asked tag : String} {q : QueueRef} (declared : w.queues.lookup name = some q)
      (advances : w.Advances w' k (.consume ch header name asked)
        [.register w.consumer.size, .attach w.consumer.size header]) :
      Happens w (.run k choice) w' (.newConsumer tag q ch)
  | takeTag {w' : World} {k : ConnectionRef} {choice : Choice} {q : QueueRef} {event : Publish}
      (free : w.lockFree q) (advances : w.Advances w' k (.takeTag q event) [.enqueue q (w.stamped q event)]) :
      Happens w (.run k choice) w' (.takeTag q)
  | enqueue {w' : World} {k : ConnectionRef} {choice : Choice} {q : QueueRef} {msg : Message}
      (free : w.lockFree q) (advances : w.Advances w' k (.enqueue q msg) [.signal q]) :
      Happens w (.run k choice) w' (.enqueue q ⟨k, w.currentCall k, msg⟩)
  | signal {w' : World} {k : ConnectionRef} {choice : Choice} {q : QueueRef}
      (advances : w.Advances w' k (.signal q) []) : Happens w (.run k choice) w' (.signal q)
  | registerConsumer {w' : World} {k : ConnectionRef} {choice : Choice} {c : ConsumerRef}
      (free : w.lockFree (w.consumer c).queue)
      (advances : w.Advances w' k (.register c) [.signal (w.consumer c).queue]) :
      Happens w (.run k choice) w' (.registerConsumer c)
  | unregisterConsumer {w' : World} {k : ConnectionRef} {choice : Choice} {c : ConsumerRef}
      (free : w.lockFree (w.consumer c).queue) (member : c ∈ (w.queue (w.consumer c).queue).consumers)
      (all : choice.messages.Perm (w.consumer c).pendingMessages.values)
      (advances : w.Advances w' k (.unregister c) [.signal (w.consumer c).queue]) :
      Happens w (.run k choice) w' (.unregisterConsumer c choice.messages)
  | ack {w' : World} {k : ConnectionRef} {choice : Choice} {q : QueueRef} {c : ConsumerRef} {tag : UInt16}
      (free : w.lockFree q) (member : c ∈ (w.queue q).consumers) (found : tag ∈ (w.consumer c).inflightTags)
      (advances : w.Advances w' k (.ackQueue q tag) [.signal q]) : Happens w (.run k choice) w' (.ack q c tag)
  | nack {w' : World} {k : ConnectionRef} {choice : Choice} {c : ConsumerRef} {rest : List ConsumerRef}
      {msg : Message} {tag : UInt16} {requeue : Bool}
      (found : (w.consumer c).pendingMessages.lookup tag = some msg)
      (advances : w.Advances w' k (.nackScan (c :: rest) tag requeue) (w.afterNack c msg requeue)) :
      Happens w (.run k choice) w' (.nack c msg tag requeue)
  | requeue {w' : World} {k : ConnectionRef} {choice : Choice} {q : QueueRef} {msg : Message}
      (free : w.lockFree q) (advances : w.Advances w' k (.requeue q msg) []) :
      Happens w (.run k choice) w' (.requeue q msg)
  | lock {w' : World} {q : QueueRef}
      (phase : (w.queue q).dispatcher = .top ∨ (w.queue q).dispatcher = .parked .noMessage true)
      (rests : w.Rests w') :
      Happens w (.lock q) w'
        (.dispatcher q (if (w.queue q).messages = [] then .waiting .noMessage else .scanning []))
  | probe {w' : World} {q : QueueRef} {c : ConsumerRef} {passed : List ConsumerRef}
      (phase : (w.queue q).dispatcher = .scanning passed) (member : c ∈ (w.queue q).consumers)
      (rests : w.Rests w') :
      Happens w (.probe q c) w'
        (.dispatcher q (if (w.consumer c).free then .selected c else .scanning (c :: passed)))
  | exhausted {w' : World} {q : QueueRef} {passed : List ConsumerRef}
      (phase : (w.queue q).dispatcher = .scanning passed) (all : passed.toFinset = (w.queue q).consumers)
      (rests : w.Rests w') : Happens w (.exhausted q) w' (.dispatcher q (.waiting .noConsumer))
  | wait {w' : World} {q : QueueRef} {site : WaitSite} (phase : (w.queue q).dispatcher = .waiting site)
      (rests : w.Rests w') : Happens w (.wait q) w' (.dispatcher q (.parked site false))
  | resume {w' : World} {q : QueueRef} (phase : (w.queue q).dispatcher = .parked .noConsumer true)
      (rests : w.Rests w') : Happens w (.resume q) w' (.dispatcher q .top)
  | record {w' : World} {q : QueueRef} {c : ConsumerRef} {msg : Message} {rest : List Message}
      (phase : (w.queue q).dispatcher = .selected c) (head : (w.queue q).messages = msg :: rest)
      (rests : w.Rests w') : Happens w (.record q) w' (.record q c msg)
  | written {w' : World} {q : QueueRef} {c : ConsumerRef} {msg : Message}
      (phase : (w.queue q).dispatcher = .writing c msg) (rests : w.Rests w') :
      Happens w (.written q) w' (.deliver q c msg)
  | failed {w' : World} {q : QueueRef} {c : ConsumerRef} {msg : Message}
      (phase : (w.queue q).dispatcher = .writing c msg) (rests : w.Rests w') :
      Happens w (.failed q) w' (.dispatcher q (.failed c msg))
  | rollback {w' : World} {q : QueueRef} {c : ConsumerRef} {msg : Message}
      (phase : (w.queue q).dispatcher = .failed c msg) (rests : w.Rests w') :
      Happens w (.rollback q) w' (.rollback q c msg)

namespace World

variable {w w' : World} {k : ConnectionRef} {choice : Choice} {first : Section} {next : List Section}

/-- A write to a connection that keeps its sections moves no goroutine. -/
private theorem rests_modifyConnection (w : World) (k : ConnectionRef) (f : Connection → Connection)
    (kept : (f (w.connection k)).todo = (w.connection k).todo) : w.Rests (w.modifyConnection k f) :=
  ⟨rfl, funext fun j => w.connection.observe_modify Connection.todo k f kept j⟩

theorem todo_setTodo (w : World) (inside : k < w.connection.size) (sections : List Section) :
    (w.setTodo k sections).todo = Function.update w.todo k sections := by
  funext j
  by_cases same : j = k
  · subst same
    rw [Function.update_self, todo, setTodo, modifyConnection, Heap.cell_modify_self _ _ inside]
  · rw [Function.update_of_ne same, todo, setTodo, modifyConnection, Heap.cell_modify_of_ne _ _ same]
    rfl

theorem inside_of_live (live : (w.connection k).live) : k < w.connection.size := by
  by_contra outside
  rw [w.connection.beyond k (Nat.le_of_not_lt outside)] at live
  contradiction

/-- `RegisterConsumer` goes on only with a declared queue, and then with a new object. -/
theorem newConsumer_ok {ch : ChannelRef} {queue tag : String} (made : w.newConsumer ch queue tag = .ok w') :
    ∃ q, w.queues.lookup queue = some q ∧ w' = w.apply (.newConsumer (w.consumerTag ch tag) q ch) := by
  unfold newConsumer at made
  split at made
  · contradiction
  · next q declared =>
    split at made
    · contradiction
    · cases made
      exact ⟨q, declared, rfl⟩

theorem Rests.refl (w : World) : w.Rests w := ⟨rfl, rfl⟩

/-- A section moves no goroutine by itself; the machine then replaces it by what it leads to. -/
theorem rests_of_runSection (ran : w.runSection k choice first = some (w', next)) : w.Rests w' := by
  cases first with
  | publish event report =>
    have logged := w.rests_modifyConnection k (fun conn => { conn with published := conn.published ++ [event] }) rfl
    simp only [runSection] at ran
    split at ran <;> cases ran <;> exact ⟨logged.size, logged.todo⟩
  | reply frame =>
    have wrote := w.rests_modifyConnection k (fun conn => { conn with wire := conn.wire ++ [frame] }) rfl
    simp only [runSection, Option.some.injEq, Prod.mk.injEq] at ran
    obtain ⟨rfl, -⟩ := ran
    split
    · exact wrote
    · exact .refl w
  | depart =>
    have left := w.rests_modifyConnection k (fun conn => { conn with live := false }) rfl
    cases ran
    exact left
  | consume ch header queue tag =>
    simp only [runSection] at ran
    split at ran
    · cases ran
      exact .refl w
    · next made =>
      obtain ⟨q, -, rfl⟩ := newConsumer_ok made
      cases ran
      exact ⟨rfl, rfl⟩
  | _ =>
    simp only [runSection, declareQueue, declareExchange] at ran
    repeat' split at ran
    all_goals first | contradiction | (cases ran; exact ⟨rfl, rfl⟩)

theorem Advances.of_runSection {rest : List Section} (pending : w.todo k = first :: rest)
    (ran : w.runSection k choice first = some (w', next)) :
    w.Advances (w'.setTodo k (next ++ rest)) k first next := by
  have rests := rests_of_runSection ran
  have inside : k < w'.connection.size := by
    by_contra outside
    rw [World.todo, w.connection.beyond k (rests.size ▸ Nat.le_of_not_lt outside)] at pending
    exact List.cons_ne_nil _ _ pending.symm
  exact ⟨rests.size, rest, pending, by rw [todo_setTodo w' inside, rests.todo]⟩

/-- A goroutine moves by running the first of its sections. -/
theorem run_inv (stepped : w.step? (.run k choice) = some w') :
    ∃ first rest middle next, w.todo k = first :: rest ∧ w.runSection k choice first = some (middle, next) ∧
      w' = middle.setTodo k (next ++ rest) ∧ k < w.connection.size := by
  simp only [step?] at stepped
  split at stepped
  · contradiction
  · next first rest pending =>
    obtain ⟨⟨middle, next⟩, ran, rfl⟩ := Option.map_eq_some_iff.mp stepped
    exact ⟨first, rest, middle, next, pending, ran, rfl, (Advances.of_runSection pending ran).inside⟩

/-- A section that has run has one of the listed effects. -/
private theorem happens_of_run {rest : List Section} (pending : w.todo k = first :: rest)
    (ran : w.runSection k choice first = some (w', next)) :
    ∃ effect, (w'.setTodo k (next ++ rest)).toStore = w.toStore.apply effect ∧
      Happens w (.run k choice) (w'.setTodo k (next ++ rest)) effect := by
  have advances := Advances.of_runSection pending ran
  revert advances
  generalize final : w'.setTodo k (next ++ rest) = target
  intro advances
  have same : target.toStore = w'.toStore := by rw [← final]; rfl
  have silent (kept : w'.toStore = w.toStore) (start : first.carries = false)
      (quiet : ∀ pending ∈ next, pending.carries = false) :
      ∃ effect, target.toStore = w.toStore.apply effect ∧ Happens w (.run k choice) target effect :=
    ⟨.silent, same.trans kept, .quiet advances start quiet⟩
  cases first with
  | publish event report =>
    simp only [runSection] at ran
    split at ran <;> cases ran
    · exact silent rfl rfl (by cases report <;> simp [Section.carries])
    · exact silent rfl rfl (by simp [Section.carries])
  | route e event =>
    simp only [runSection] at ran
    split_ifs at ran <;> cases ran <;> exact silent rfl rfl (by simp [Section.carries])
  | takeTag q event =>
    simp only [runSection] at ran
    split_ifs at ran with free
    cases ran
    exact ⟨_, same.trans rfl, .takeTag free advances⟩
  | enqueue q msg =>
    simp only [runSection] at ran
    split_ifs at ran with free
    cases ran
    exact ⟨_, same.trans rfl, .enqueue free advances⟩
  | signal q =>
    cases ran
    exact ⟨_, same.trans rfl, .signal advances⟩
  | consume ch header queue tag =>
    simp only [runSection] at ran
    split at ran
    · cases ran
      exact silent rfl rfl (by simp [Section.carries])
    · next made =>
      obtain ⟨q, declared, rfl⟩ := newConsumer_ok made
      cases ran
      exact ⟨_, same.trans rfl, .newConsumer declared advances⟩
  | register c =>
    simp only [runSection] at ran
    split_ifs at ran with free
    cases ran
    exact ⟨_, same.trans rfl, .registerConsumer free advances⟩
  | ackScan consumers tag =>
    cases consumers with
    | nil =>
      cases ran
      exact silent rfl rfl (by simp)
    | cons c others =>
      simp only [runSection] at ran
      split_ifs at ran <;> cases ran <;> exact silent rfl rfl (by simp [Section.carries])
  | ack name tag =>
    simp only [runSection] at ran
    split at ran <;> cases ran <;> exact silent rfl rfl (by simp [Section.carries])
  | ackQueue q tag =>
    simp only [runSection] at ran
    split_ifs at ran with ready
    split at ran
    · cases ran
      exact silent rfl rfl (by simp)
    · next c found =>
      cases ran
      have visited : c ∈ choice.refs := List.mem_of_find?_eq_some found
      have member : c ∈ (w.queue q).consumers := by
        rw [← ready.2.2]
        exact List.mem_toFinset.mpr visited
      have holds : tag ∈ (w.consumer c).inflightTags := by simpa using List.find?_some found
      exact ⟨_, same.trans rfl, .ack ready.1 member holds advances⟩
  | nackScan consumers tag requeue =>
    cases consumers with
    | nil =>
      cases ran
      exact silent rfl rfl (by simp)
    | cons c others =>
      simp only [runSection] at ran
      split at ran
      · cases ran
        exact silent rfl rfl (by simp [Section.carries])
      · next msg found =>
        cases ran
        exact ⟨.nack c msg tag requeue, same, .nack found advances⟩
  | requeue q msg =>
    simp only [runSection] at ran
    split_ifs at ran with free
    cases ran
    exact ⟨_, same.trans rfl, .requeue free advances⟩
  | declareQueue name dlx dlxRoutingKey =>
    simp only [runSection, declareQueue] at ran
    split at ran <;> cases ran
    · exact silent rfl rfl (by simp)
    · exact ⟨_, same.trans rfl, .newQueue advances⟩
  | declareExchange name =>
    simp only [runSection, declareExchange] at ran
    split at ran <;> cases ran <;> exact silent rfl rfl (by simp)
  | bindQueue exchange queue routingKey =>
    simp only [runSection] at ran
    split at ran <;> cases ran <;> exact silent rfl rfl (by simp [Section.carries])
  | unregister c =>
    simp only [runSection] at ran
    split_ifs at ran with free member all
    · cases ran
      exact ⟨_, same.trans rfl, .unregisterConsumer free member all advances⟩
    · cases ran
      exact silent rfl rfl (by simp)
  | reply frame =>
    simp only [runSection, Option.some.injEq, Prod.mk.injEq] at ran
    obtain ⟨rfl, rfl⟩ := ran
    exact silent (by split <;> rfl) rfl (by simp)
  | attach | bind | depart =>
    cases ran
    exact silent rfl rfl (by simp [Section.carries])
  | ackRange | nackRange | cleanup =>
    simp only [runSection] at ran
    split_ifs at ran
    cases ran
    exact silent rfl rfl (by simp [Section.carries])
  | teardown =>
    simp only [runSection] at ran
    split_ifs at ran
    cases ran
    refine silent rfl rfl ?_
    intro pending member
    rcases List.mem_append.mp member with cleanup | last
    · obtain ⟨ch, -, rfl⟩ := List.mem_map.mp cleanup
      rfl
    · rw [List.mem_singleton.mp last]
      rfl

/-- The sections that `Channel.route` can start with. -/
inductive Routed (ch : ChannelRef) (env : Envelope) : Section → Prop
  | undecodable : Routed ch env (.reply ⟨env.header, .error .undecodable⟩)
  | publish (event : Publish) : Routed ch env (.publish event (some env.header))
  | consume (queue tag : String) : Routed ch env (.consume ch env.header queue tag)
  | ackRange (tag : UInt16) : Routed ch env (.ackRange ch tag)
  | nackRange (tag : UInt16) (requeue : Bool) : Routed ch env (.nackRange ch tag requeue)
  | declareQueue (name dlx key : String) : Routed ch env (.declareQueue name dlx key)
  | queueDeclareOK (name : String) : Routed ch env (.reply ⟨env.header, .queueDeclareOK name⟩)
  | declareExchange (name : String) : Routed ch env (.declareExchange name)
  | exchangeDeclareOK (name : String) : Routed ch env (.reply ⟨env.header, .exchangeDeclareOK name⟩)
  | bindQueue (exchange queue key : String) : Routed ch env (.bindQueue exchange queue key)
  | queueBindOK : Routed ch env (.reply ⟨env.header, .queueBindOK⟩)

theorem routed_of_mem {ch : ChannelRef} {env : Envelope} {pending : Section} (member : pending ∈ Model.route ch env) :
    Routed ch env pending := by
  have decoded {sections : List Section} (all : ∀ s ∈ sections, Routed ch env s)
      (member : pending ∈ if env.malformed then [.reply ⟨env.header, .error .undecodable⟩] else sections) :
      Routed ch env pending := by
    split at member
    · exact List.mem_singleton.1 member ▸ .undecodable
    · exact all pending member
  unfold Model.route at member
  cases asked : env.request with
  | publish event =>
    rw [asked, List.mem_ite_nil_left, List.mem_singleton] at member
    exact member.2 ▸ .publish event
  | consume queue tag =>
    rw [asked] at member
    exact decoded (List.forall_mem_singleton.2 (.consume queue tag)) member
  | ack tag =>
    rw [asked] at member
    exact decoded (List.forall_mem_singleton.2 (.ackRange tag)) member
  | nack tag requeue =>
    rw [asked] at member
    exact decoded (List.forall_mem_singleton.2 (.nackRange tag (requeue.getD true))) member
  | queueDeclare name dlx key =>
    rw [asked, List.mem_pair] at member
    rcases member with rfl | rfl
    · exact .declareQueue name dlx key
    · exact .queueDeclareOK name
  | exchangeDeclare name =>
    rw [asked, List.mem_pair] at member
    rcases member with rfl | rfl
    · exact .declareExchange name
    · exact .exchangeDeclareOK name
  | queueBind queue exchange key =>
    rw [asked] at member
    exact decoded (List.forall_mem_cons.2
      ⟨.bindQueue exchange queue key, List.forall_mem_singleton.2 .queueBindOK⟩) member
  | channelOpen | channelClose | other =>
    rw [asked] at member
    exact absurd member List.not_mem_nil

/-- An envelope opens a channel, closes one, or is for a channel that is open or not. -/
theorem handle_cases (w : World) (k : ConnectionRef) (env : Envelope) {P : World → List Section → Prop}
    (opened : ∀ id, env.request = .channelOpen id →
      P (w.channelOpen k id) [.reply ⟨⟨0, env.requestID⟩, .channelOpenOK id⟩])
    (closed : env.request = .channelClose →
      P (w.modifyConnection k fun conn => { conn with channels := conn.channels.erase env.channelID })
        ((((w.connection k).channels.lookup env.channelID).map Section.cleanup).toList ++
          [.reply ⟨env.header, .channelCloseOK env.channelID⟩]))
    (refused : (w.connection k).channels.lookup env.channelID = none →
      P w [.reply ⟨env.header, .error .channelNotOpen⟩])
    (routed : ∀ ch, (w.connection k).channels.lookup env.channelID = some ch → P w (Model.route ch env)) :
    P (w.handle k env).1 (w.handle k env).2 := by
  unfold handle
  cases asked : env.request with
  | channelOpen id => exact opened id asked
  | channelClose => exact closed asked
  | _ =>
    dsimp only
    split
    · next missing => exact refused missing
    · next ch found => exact routed ch found

/-- The sections that `Connection.Handle` can start with. -/
inductive Handled (w : World) (k : ConnectionRef) (env : Envelope) : Section → Prop
  | channelOpenOK (id : UInt16) : Handled w k env (.reply ⟨⟨0, env.requestID⟩, .channelOpenOK id⟩)
  | cleanup {ch : ChannelRef} (found : (w.connection k).channels.lookup env.channelID = some ch) :
    Handled w k env (.cleanup ch)
  | channelCloseOK : Handled w k env (.reply ⟨env.header, .channelCloseOK env.channelID⟩)
  | channelNotOpen : Handled w k env (.reply ⟨env.header, .error .channelNotOpen⟩)
  | routed {ch : ChannelRef} {pending : Section} (found : (w.connection k).channels.lookup env.channelID = some ch)
      (routed : Routed ch env pending) : Handled w k env pending

theorem handled_of_mem {env : Envelope} {pending : Section} (member : pending ∈ (w.handle k env).2) :
    Handled w k env pending := by
  revert member
  refine w.handle_cases k env (P := fun _ next => pending ∈ next → Handled w k env pending)
    (fun id _ member => ?_) (fun _ member => ?_) (fun _ member => ?_) (fun ch found member => ?_)
  · exact List.mem_singleton.1 member ▸ .channelOpenOK id
  · rcases List.mem_append.1 member with cleanup | last
    · obtain ⟨ch, found, rfl⟩ := Option.map_eq_some_iff.1 (Option.mem_toList.1 cleanup)
      exact .cleanup found
    · exact List.mem_singleton.1 last ▸ .channelCloseOK
  · exact List.mem_singleton.1 member ▸ .channelNotOpen
  · exact .routed found (routed_of_mem member)

private theorem carries_handle {env : Envelope} {pending : Section} (member : pending ∈ (w.handle k env).2) :
    pending.carries = false := by
  cases handled_of_mem member with
  | routed found routed => cases routed <;> rfl
  | _ => rfl

/-- Handling an envelope up to its first section moves no other goroutine and no message. -/
theorem handle_spec (w : World) (k : ConnectionRef) (env : Envelope) :
    w.Rests (w.handle k env).1 ∧ (w.handle k env).1.toStore = w.toStore ∧
      ∀ pending ∈ (w.handle k env).2, pending.carries = false := by
  refine ⟨?_, ?_, fun pending => carries_handle⟩
  · exact w.handle_cases k env (P := fun w' _ => w.Rests w') (fun _ _ => ⟨rfl, (w.rests_modifyConnection k _ rfl).todo⟩)
      (fun _ => w.rests_modifyConnection k _ rfl) (fun _ => .refl w) fun _ _ => .refl w
  · exact w.handle_cases k env (P := fun w' _ => w'.toStore = w.toStore) (fun _ _ => rfl) (fun _ => rfl) (fun _ => rfl)
      fun _ _ => rfl

/-- Every step is one of the listed ones. -/
theorem happens_of_step {label : Label} (stepped : w.step? label = some w') :
    ∃ effect, w'.toStore = w.toStore.apply effect ∧ Happens w label w' effect := by
  cases label with
  | accept =>
    cases stepped
    exact ⟨.silent, rfl, .accepted rfl (funext (w.connection.observe_alloc Connection.todo _ rfl))⟩
  | request k env =>
    obtain ⟨rests, kept, -⟩ := w.handle_spec k env
    simp only [step?] at stepped
    split_ifs at stepped with ready
    cases stepped
    have inside := inside_of_live ready.1
    refine ⟨.silent, kept, .requested rests.size inside ready.2 ?_⟩
    rw [todo_setTodo _ (rests.size ▸ inside), rests.todo]
  | disconnect k =>
    simp only [step?] at stepped
    split_ifs at stepped with ready
    cases stepped
    have inside := inside_of_live ready.1
    exact ⟨.silent, rfl, .disconnected rfl inside ready.2 (todo_setTodo w inside _)⟩
  | run k choice =>
    obtain ⟨first, rest, middle, next, pending, ran, rfl, -⟩ := run_inv stepped
    exact happens_of_run pending ran
  | lock q =>
    simp only [step?] at stepped
    split at stepped <;> cases stepped
    · next phase => exact ⟨_, rfl, .lock (.inl phase) ⟨rfl, rfl⟩⟩
    · next phase => exact ⟨_, rfl, .lock (.inr phase) ⟨rfl, rfl⟩⟩
  | probe q c =>
    simp only [step?] at stepped
    split at stepped
    · next passed phase =>
      split at stepped
      · next found =>
        cases stepped
        exact ⟨_, rfl, .probe phase found.1 ⟨rfl, rfl⟩⟩
      · contradiction
    · contradiction
  | exhausted q =>
    simp only [step?] at stepped
    split at stepped
    · next passed phase =>
      split_ifs at stepped with all
      cases stepped
      exact ⟨_, rfl, .exhausted phase all ⟨rfl, rfl⟩⟩
    · contradiction
  | record q =>
    simp only [step?] at stepped
    split at stepped
    · next c msg rest phase head =>
      cases stepped
      exact ⟨_, rfl, .record phase head ⟨rfl, rfl⟩⟩
    · contradiction
  | wait q =>
    simp only [step?] at stepped
    split at stepped <;> cases stepped
    next site phase => exact ⟨_, rfl, .wait phase ⟨rfl, rfl⟩⟩
  | resume q =>
    simp only [step?] at stepped
    split at stepped <;> cases stepped
    next phase => exact ⟨_, rfl, .resume phase ⟨rfl, rfl⟩⟩
  | written q =>
    simp only [step?] at stepped
    split at stepped <;> cases stepped
    next c msg phase =>
      refine ⟨_, rfl, .written phase ⟨rfl, ?_⟩⟩
      funext j
      simp only [todo, delivered, apply, modifyConnection, count]
      exact w.connection.observe_modify Connection.todo _ _ rfl j
  | failed q =>
    simp only [step?] at stepped
    split at stepped <;> cases stepped
    next c msg phase => exact ⟨_, rfl, .failed phase ⟨rfl, rfl⟩⟩
  | rollback q =>
    simp only [step?] at stepped
    split at stepped <;> cases stepped
    next c msg phase => exact ⟨_, rfl, .rollback phase ⟨rfl, rfl⟩⟩

theorem Advances.todo_other (advances : w.Advances w' k first next) {j : ConnectionRef} (other : j ≠ k) :
    w'.todo j = w.todo j := by
  obtain ⟨rest, -, todo⟩ := advances.todo
  rw [todo, Function.update_of_ne other]

/-- Apart from its own goroutine, only a new request or the end of the stream gives a connection
something to do. -/
theorem todo_of_other {label : Label} {effect : Effect} (happens : Happens w label w' effect) {j : ConnectionRef}
    (other : ∀ choice, label ≠ .run j choice) :
    w'.todo j = w.todo j ∨ (∃ env, label = .request j env ∧ w'.todo j = (w.handle j env).2) ∨
      label = .disconnect j ∧ w'.todo j = [.teardown] := by
  have distinct {k : ConnectionRef} {choice : Choice} (ran : label = .run k choice) : j ≠ k := fun same =>
    other choice (same ▸ ran)
  cases happens with
  | accepted size todo => exact .inl (congrFun todo j)
  | @requested _ k env size inside idle todo =>
    by_cases same : j = k
    · subst same
      exact .inr (.inl ⟨env, rfl, by rw [todo, Function.update_self]⟩)
    · exact .inl (by rw [todo, Function.update_of_ne same])
  | @disconnected _ k size inside idle todo =>
    by_cases same : j = k
    · subst same
      exact .inr (.inr ⟨rfl, by rw [todo, Function.update_self]⟩)
    · exact .inl (by rw [todo, Function.update_of_ne same])
  | lock _ rests | probe _ _ rests | exhausted _ _ rests | wait _ rests | resume _ rests | record _ _ rests
  | written _ rests | failed _ rests | rollback _ rests => exact .inl (congrFun rests.todo j)
  | quiet advances | newQueue advances | newConsumer _ advances | takeTag _ advances | enqueue _ advances
  | signal advances | registerConsumer _ advances | unregisterConsumer _ _ _ advances | ack _ _ _ advances
  | nack _ advances | requeue _ advances => exact .inl (advances.todo_other (distinct rfl))

end World

end GolangMQ.Model
