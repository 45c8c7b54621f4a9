import GolangMQ.Requests.Enrolment
import GolangMQ.Requests.Isolation
import GolangMQ.Requests.Routing

/-! # Replies that report success

From the arrival of a request to its reply the goroutine of the connection passes a few points, and other
goroutines move in between. `Outline` says what holds at each point: it holds when the handler starts, every
section leads from one point to the next, and no other goroutine can spoil it. Two replies need something of the
state the request arrives in. `HandleQueueBind` confirms a binding whose exchange or queue does not exist, and
`ChannelClose` leaves the consumers of a channel that `ChannelOpen` has replaced registered.
-/

namespace GolangMQ.Model

open Machine

/-- Connection `k` neither takes a new request nor ends. -/
def Engaged (k : ConnectionRef) (_ : World) (label : Label) : Prop := label.begins k = false

instance (k : ConnectionRef) (w : World) (label : Label) : Decidable (Engaged k w label) :=
  inferInstanceAs (Decidable (_ = _))

/-- The handling of an envelope writes a frame, whatever other goroutines do in the meantime. -/
def World.Replies (w : World) (k : ConnectionRef) (env : Envelope) (frame : Frame) (w' : World) : Prop :=
  ∃ requested before rest choice, w.step? (.request k env) = some requested ∧
    (broker.startingAt requested).Reachable (Engaged k) before ∧ before.todo k = .reply frame :: rest ∧
    choice.ok = true ∧ before.step? (.run k choice) = some w'

/-- The exchange and the queue exist, and each `Publish` with the key that follows enqueues on the queue. -/
def World.Bound (w : World) (exchange queue key : String) : Prop :=
  exchange ∈ w.exchanges ∧ ∃ q, w.queues.lookup queue = some q ∧
    ∀ v, (broker.startingAt w).Reachable anyStep v →
      ∀ j body report, v.todo j = [.publish ⟨exchange, key, body⟩ report] →
      (v.Unlocked → ∃ v', v.Serves j v') ∧ ∀ v', v.Serves j v' →
        (v'.queue q).messages = (v.queue q).messages ++ [v.stamped q ⟨exchange, key, body⟩]

/-- A consumer with the tag is registered on the queue and stored in the channel. -/
def World.Consumes (w : World) (k : ConnectionRef) (id : UInt16) (queue tag : String) : Prop :=
  ∃ q c ch, w.queues.lookup queue = some q ∧ c ∈ (w.queue q).consumers ∧ (w.consumer c).tag = tag ∧
    (w.channelsOf k).lookup id = some ch ∧ (w.channel ch).consumers.lookup tag = some c

/-- The state is what the reply to an envelope says it is. -/
def World.Truthful (w : World) (k : ConnectionRef) (env : Envelope) : Payload → Prop
  | .queueBindOK => ∃ queue exchange key, env.request = .queueBind queue exchange key ∧ w.Bound exchange queue key
  | .queueDeclareOK name => name ∈ w.queues ∧ ∃ dlx key, env.request = .queueDeclare name dlx key
  | .exchangeDeclareOK name => name ∈ w.exchanges ∧ env.request = .exchangeDeclare name
  | .consumeOK tag => ∃ queue asked, env.request = .consume queue asked ∧ w.Consumes k env.channelID queue tag
  | .channelCloseOK id => id = env.channelID ∧ env.request = .channelClose ∧
      ∀ c, w.registered c → w.owner c = k → (w.channel (w.consumer c).channel).id ≠ id
  | _ => True

/-- What the two replies need when the request arrives: a binding on an open channel names an exchange and a queue that
exist; and the registered consumers that a client knows under the id of the channel to be closed are those of the
channel in the map. -/
def World.Grounded (w : World) (k : ConnectionRef) (env : Envelope) : Prop :=
  match env.request with
  | .queueBind queue exchange _ => env.channelID ∈ w.channelsOf k → exchange ∈ w.exchanges ∧ queue ∈ w.queues
  | .channelClose => ∀ c, w.registered c → w.owner c = k → (w.channel (w.consumer c).channel).id = env.channelID →
      (w.channelsOf k).lookup env.channelID = some (w.consumer c).channel
  | _ => True

/-- The replies whose truth is at stake. -/
def Payload.pledges : Payload → Bool
  | .queueBindOK | .queueDeclareOK _ | .exchangeDeclareOK _ | .consumeOK _ | .channelCloseOK _ => true
  | _ => false

/-- The sections that lead to such a reply, or are one. -/
def Section.pledges : Section → Bool
  | .reply frame => frame.payload.pledges
  | s => !s.settling

/-- The sections of `Channel.cleanup`. -/
def Section.closes : Section → Bool
  | .cleanup _ | .unregister _ | .signal _ => true
  | _ => false

/-- The points a handler passes, with what is known at each of them. -/
inductive Outline (w : World) (k : ConnectionRef) (env : Envelope) : List Section → Prop
  | quiet {sections : List Section} (quiet : ∀ s ∈ sections, s.pledges = false) : Outline w k env sections
  | declareQueue {name dlx key : String} (asked : env.request = .queueDeclare name dlx key) :
      Outline w k env [.declareQueue name dlx key, .reply ⟨env.header, .queueDeclareOK name⟩]
  | queueDeclared {name dlx key : String} (asked : env.request = .queueDeclare name dlx key)
    (declared : name ∈ w.queues) :
      Outline w k env [.reply ⟨env.header, .queueDeclareOK name⟩]
  | declareExchange {name : String} (asked : env.request = .exchangeDeclare name) :
      Outline w k env [.declareExchange name, .reply ⟨env.header, .exchangeDeclareOK name⟩]
  | exchangeDeclared {name : String} (asked : env.request = .exchangeDeclare name) (declared : name ∈ w.exchanges) :
      Outline w k env [.reply ⟨env.header, .exchangeDeclareOK name⟩]
  | bindQueue {queue exchange key : String} (asked : env.request = .queueBind queue exchange key)
      (known : exchange ∈ w.exchanges) (declared : queue ∈ w.queues) :
      Outline w k env [.bindQueue exchange queue key, .reply ⟨env.header, .queueBindOK⟩]
  | bind {queue exchange key : String} {e : ExchangeRef} {q : QueueRef}
    (asked : env.request = .queueBind queue exchange key)
      (known : w.exchanges.lookup exchange = some e) (declared : w.queues.lookup queue = some q) :
      Outline w k env [.bind e q key, .reply ⟨env.header, .queueBindOK⟩]
  | bound {queue exchange key : String} {history : List Binding} (asked : env.request = .queueBind queue exchange key)
      (recorded : bindingBroker.Reachable anyStep (w, history)) (bound : ⟨exchange, queue, key⟩ ∈ history) :
      Outline w k env [.reply ⟨env.header, .queueBindOK⟩]
  | consume {queue tag : String} {ch : ChannelRef} (asked : env.request = .consume queue tag)
      (opened : (w.channelsOf k).lookup env.channelID = some ch) : Outline w k env [.consume ch env.header queue tag]
  | register {queue tag : String} {c : ConsumerRef} (asked : env.request = .consume queue tag)
      (opened : (w.channelsOf k).lookup env.channelID = some (w.consumer c).channel)
      (declared : w.queues.lookup queue = some (w.consumer c).queue) (inside : c < w.consumer.size) :
      Outline w k env [.register c, .attach c env.header]
  | registered {queue tag : String} {c : ConsumerRef} {sections : List Section}
    (asked : env.request = .consume queue tag)
      (opened : (w.channelsOf k).lookup env.channelID = some (w.consumer c).channel)
      (declared : w.queues.lookup queue = some (w.consumer c).queue) (registered : w.registered c)
      (signals : ∀ s ∈ sections, ∃ q, s = .signal q) : Outline w k env (sections ++ [.attach c env.header])
  | attached {queue tag : String} {c : ConsumerRef} (asked : env.request = .consume queue tag)
      (opened : (w.channelsOf k).lookup env.channelID = some (w.consumer c).channel)
      (declared : w.queues.lookup queue = some (w.consumer c).queue) (registered : w.registered c)
      (attached : w.attached c) : Outline w k env [.reply ⟨env.header, .consumeOK (w.consumer c).tag⟩]
  | close {sections : List Section} (asked : env.request = .channelClose) (closes : ∀ s ∈ sections, s.closes = true)
      (left : ∀ c, w.registered c → w.owner c = k → (w.channel (w.consumer c).channel).id = env.channelID →
        .unregister c ∈ sections ∨ .cleanup (w.consumer c).channel ∈ sections ∧ w.attached c) :
      Outline w k env (sections ++ [.reply ⟨env.header, .channelCloseOK env.channelID⟩])

variable {w w' middle : World} {label : Label} {k : ConnectionRef} {env : Envelope} {choice : Choice} {first : Section}
  {next rest sections : List Section} {c : ConsumerRef} {frame : Frame}

private theorem todo_of_engaged (still : ∀ choice, label ≠ .run k choice) (engaged : Engaged k w label)
    (stepped : w.step? label = some w') : w'.todo k = w.todo k := by
  obtain ⟨effect, -, happens⟩ := World.happens_of_step stepped
  rcases World.todo_of_other happens still with todo | ⟨env, rfl, -⟩ | ⟨rfl, -⟩
  · exact todo
  · simp [Engaged, Label.begins] at engaged
  · simp [Engaged, Label.begins] at engaged

private theorem quiet_of_runs (quiet : first.pledges = false) (runs : Runs w k choice first w' next) :
    ∀ s ∈ next, s.pledges = false := by
  intro s member
  cases leads_of_runs runs member with
  | consumeRefused | consumeRegister | consumeAttach | attach | bindQueue | cleanup | teardown | depart => contradiction
  | _ => rfl

namespace Outline

/-- No other goroutine spoils what is known at a point. -/
theorem other (outline : Outline w k env sections) (reached : broker.Reachable anyStep w)
    (still : ∀ choice, label ≠ .run k choice) (engaged : Engaged k w label) (stepped : w.step? label = some w') :
    Outline w' k env sections := by
  have wellformed := wellformed_of_reachable reached
  have owned := owned_of_reachable reached
  have grows := World.grows_of_step stepped
  obtain ⟨queues, exchanges⟩ := World.lookup_of_step stepped
  have channelsOf : w'.channelsOf k = w.channelsOf k := by
    refine channelsOf_of_other ?_ stepped
    rintro env rfl
    simp [Engaged, Label.begins] at engaged
  have enrolment (c : ConsumerRef) (own : w'.owner c = k) := registered_of_other wellformed owned still stepped own
  have known {name : String} (found : name ∈ w.queues) : name ∈ w'.queues := by
    obtain ⟨q, found⟩ := Option.isSome_iff_exists.1 (AList.lookup_isSome.2 found)
    exact AList.lookup_isSome.1 (queues name q found ▸ rfl)
  have knownExchange {name : String} (found : name ∈ w.exchanges) : name ∈ w'.exchanges := by
    obtain ⟨e, found⟩ := Option.isSome_iff_exists.1 (AList.lookup_isSome.2 found)
    exact AList.lookup_isSome.1 (exchanges name e found ▸ rfl)
  -- The consumer of `RegisterConsumer` keeps its queue and its channel, and is one of this connection.
  have consumer {c : ConsumerRef} {queue : String} (inside : c < w.consumer.size)
      (opened : (w.channelsOf k).lookup env.channelID = some (w.consumer c).channel)
      (declared : w.queues.lookup queue = some (w.consumer c).queue) :
      (w'.channelsOf k).lookup env.channelID = some (w'.consumer c).channel ∧
        w'.queues.lookup queue = some (w'.consumer c).queue ∧ w'.owner c = k ∧ (w'.attached c ↔ w.attached c) := by
    obtain ⟨-, -, conn⟩ := owned.opened k env.channelID _ opened
    have channel := channel_of_other owned still stepped (owned.channelOf c inside) conn
    rw [channelsOf, grows.store.channel inside, grows.store.queue inside, owned.owner_step grows inside]
    exact ⟨opened, queues queue _ declared, conn, grows.attached_iff inside channel⟩
  cases outline with
  | quiet quiet => exact .quiet quiet
  | declareQueue asked => exact .declareQueue asked
  | queueDeclared asked declared => exact .queueDeclared asked (known declared)
  | declareExchange asked => exact .declareExchange asked
  | exchangeDeclared asked declared => exact .exchangeDeclared asked (knownExchange declared)
  | bindQueue asked exists_ declared => exact .bindQueue asked (knownExchange exists_) (known declared)
  | bind asked found declared => exact .bind asked (exchanges _ _ found) (queues _ _ declared)
  | bound asked recorded bound =>
    exact .bound asked (recorded.next label (Option.map_eq_some_iff.2 ⟨w', stepped, rfl⟩))
      (List.mem_append_left _ bound)
  | consume asked opened =>
    rw [← channelsOf] at opened
    exact .consume asked opened
  | register asked opened declared inside =>
    obtain ⟨opened, declared, -, -⟩ := consumer inside opened declared
    exact .register asked opened declared (inside.trans_le grows.store.consumers)
  | @registered queue tag c waiting asked opened declared registered signals =>
    obtain ⟨opened, declared, own, -⟩ := consumer (World.registered_inside wellformed registered) opened declared
    exact .registered asked opened declared ((enrolment c own).2 registered) signals
  | @attached queue tag c asked opened declared registered attached =>
    have inside := World.registered_inside wellformed registered
    obtain ⟨opened, declared, own, attachedIff⟩ := consumer inside opened declared
    rw [← grows.store.tag inside]
    exact .attached asked opened declared ((enrolment c own).2 registered) (attachedIff.2 attached)
  | close asked closes left =>
    refine .close asked closes fun c registered own here => ?_
    have before := (enrolment c own).1 registered
    have inside := World.registered_inside wellformed before
    have own := (owned.owner_step grows inside).symm.trans own
    have known := owned.channelOf c inside
    rw [grows.store.channel inside] at here ⊢
    rw [grows.attached_iff inside (channel_of_other owned still stepped known own)]
    exact left c before own ((grows.identity _ known).1.symm.trans here)

/-- One section of `Channel.cleanup`. -/
theorem closing (closes : ∀ s ∈ first :: sections, s.closes = true) (reached : broker.Reachable anyStep w)
    (left : ∀ c, w.registered c → w.owner c = k → (w.channel (w.consumer c).channel).id = env.channelID →
      .unregister c ∈ first :: sections ∨ .cleanup (w.consumer c).channel ∈ first :: sections ∧ w.attached c)
    (pending : w.todo k = first :: rest) (runs : Runs w k choice first middle next)
    (stepped : w.step? (.run k choice) = some (middle.setTodo k (next ++ rest))) :
    (∀ s ∈ next ++ sections, s.closes = true) ∧ ∀ c, middle.registered c → middle.owner c = k →
      (middle.channel (middle.consumer c).channel).id = env.channelID →
        .unregister c ∈ next ++ sections ∨ .cleanup (middle.consumer c).channel ∈ next ++ sections ∧
          middle.attached c := by
  have wellformed := wellformed_of_reachable reached
  have owned := owned_of_reachable reached
  have grows := World.grows_of_step stepped
  have inner : w.Grows middle := ⟨grows.store, grows.channels, grows.identity⟩
  have later : ∀ s ∈ sections, s.closes = true := fun s member => closes s (List.mem_cons_of_mem _ member)
  have carried (channel : middle.channel = w.channel) (c : ConsumerRef) (before : w.registered c)
      (own : middle.owner c = k) (here : (middle.channel (middle.consumer c).channel).id = env.channelID) :
      .unregister c ∈ first :: sections ∨ .cleanup (middle.consumer c).channel ∈ first :: sections ∧
        middle.attached c := by
    have inside := World.registered_inside wellformed before
    rw [inner.store.channel inside, channel] at here
    rw [inner.store.channel inside, inner.attached_iff inside (by rw [channel])]
    exact left c before ((owned.owner_step inner inside).symm.trans own) here
  cases runs with
  | signal =>
    refine ⟨later, fun c registered own here => ?_⟩
    simpa using carried rfl c ((World.registered_apply rfl).1 registered) own here
  | @cleanup ch all =>
    refine ⟨fun s member => ?_, fun c registered own here => ?_⟩
    · rcases List.mem_append.1 member with new | old
      · obtain ⟨c, -, rfl⟩ := List.mem_map.1 new
        rfl
      · exact later s old
    · rcases left c registered own here with unregisters | ⟨cleans, attached⟩
      · exact .inl (List.mem_append_right _ (by simpa using unregisters))
      · rcases List.mem_cons.1 cleans with same | old
        · have channel : (w.consumer c).channel = ch := Section.cleanup.inj same
          have member : c ∈ choice.refs :=
            all.mem_iff.2 (AList.mem_values_iff.2 ⟨(w.consumer c).tag, by rw [← channel]; exact attached⟩)
          exact .inl (List.mem_append_left _ (List.mem_map_of_mem member))
        · exact .inr ⟨List.mem_append_right _ old, attached⟩
  | @unregistered c' free gone =>
    refine ⟨later, fun c registered own here => ?_⟩
    have other : c ≠ c' := by
      rintro rfl
      exact gone ((World.registered_iff wellformed).1 registered)
    simpa [other] using left c registered own here
  | @unregister c' free member all =>
    refine ⟨fun s member => ?_, fun c registered own here => ?_⟩
    · rcases List.mem_cons.1 member with rfl | old
      · rfl
      · exact later s old
    · have known := (wellformed.members _ c' member).1
      obtain ⟨other, before⟩ := (World.registered_unregisterConsumer wellformed known choice.messages c).1 registered
      simpa [other] using carried rfl c before own here
  | _ => exact absurd (closes _ (List.mem_cons_self ..)) (by simp [Section.closes])

/-- Every section leads from one point to the next. -/
theorem own (outline : Outline w k env (first :: rest)) (reached : broker.Reachable anyStep w)
    (pending : w.todo k = first :: rest) (runs : Runs w k choice first middle next)
    (stepped : w.step? (.run k choice) = some (middle.setTodo k (next ++ rest))) :
    Outline (middle.setTodo k (next ++ rest)) k env (next ++ rest) := by
  have wellformed := wellformed_of_reachable reached
  have owned := owned_of_reachable reached
  have grows := World.grows_of_step stepped
  have inner : w.Grows middle := ⟨grows.store, grows.channels, grows.identity⟩
  have started := middle.aligned_setTodo k (next ++ rest)
  generalize same : first :: rest = sections at outline
  cases outline with
  | quiet quiet =>
    subst same
    refine .quiet fun s member => ?_
    rcases List.mem_append.1 member with new | old
    · exact quiet_of_runs (quiet first (List.mem_cons_self ..)) runs s new
    · exact quiet s (List.mem_cons_of_mem _ old)
  | @declareQueue name dlx key asked =>
    cases same
    cases runs with
    | redeclareQueue taken => exact .queueDeclared asked taken
    | declareQueue => exact .queueDeclared asked ((AList.mem_insert _).2 (.inl rfl))
  | @declareExchange name asked =>
    cases same
    cases runs with
    | redeclareExchange taken => exact .exchangeDeclared asked taken
    | declareExchange => exact .exchangeDeclared asked ((AList.mem_insert _).2 (.inl rfl))
  | @bindQueue queue exchange key asked known declared =>
    cases same
    cases runs with
    | bindRefused refused =>
      rcases World.missing_of_bindTargets refused with missing | missing
      · exact absurd known missing
      · exact absurd declared missing
    | bindQueue known declared => exact .bind asked known declared
  | @bind queue exchange key e q asked known declared =>
    cases same
    cases runs with
    | bind =>
      obtain ⟨history, recorded⟩ := exists_history reached
      have routed := routed_of_reachable recorded
      have binds : w.binds (.run k choice) = [⟨(w.exchange e).name, (w.queue q).name, key⟩] := by
        rw [World.binds, pending]
      rw [(routed.exchangeNames exchange e known).2, routed.queueNames queue q declared] at binds
      refine .bound asked (recorded.next (.run k choice) (Option.map_eq_some_iff.2 ⟨_, stepped, rfl⟩)) ?_
      rw [binds]
      exact List.mem_append_right _ (List.mem_singleton_self _)
  | @consume queue tag ch asked opened =>
    cases same
    cases runs with
    | consumeRefused => exact .quiet (by simp [Section.pledges, Payload.pledges])
    | @consume _ _ _ _ q declared fresh =>
      have new : ((w.apply (.newConsumer (w.consumerTag ch tag) q ch)).consumer w.consumer.size) =
          { tag := w.consumerTag ch tag, queue := q, channel := ch } := w.consumer.cell_alloc_self _
      refine .register asked ?_ ?_ (Nat.lt_succ_self _)
      · rw [started.channelsOf]
        exact opened.trans (congrArg (some ∘ Consumer.channel) new.symm)
      · exact declared.trans (congrArg (some ∘ Consumer.queue) new.symm)
  | @register queue tag c asked opened declared inside =>
    cases same
    cases runs with
    | register =>
      refine .registered asked ?_ ?_ ?_ (by simp)
      · rw [started.channelsOf]
        exact opened
      · exact declared
      · exact (World.registered_registerConsumer wellformed inside c).2 (.inl rfl)
  | @registered queue tag c waiting asked opened declared registered signals =>
    cases waiting with
    | nil =>
      cases same
      cases runs with
      | attach =>
        have inside := World.registered_inside wellformed registered
        have fresh : (w.consumer c).tag ∉ (w.channel (w.consumer c).channel).consumers := by
          have enrolled := (enrolled_of_reachable reached k).enrolling
          rw [World.errands, pending] at enrolled
          generalize shape : [Section.attach c env.header].filter Section.errand = errands at enrolled
          cases enrolled with
          | none quiet =>
            subst shape
            exact absurd (quiet (.attach c env.header) (List.mem_singleton_self _)) (by simp [Section.joins])
          | consume | register => cases shape
          | attach _ fresh =>
            cases shape
            exact fresh
        refine .attached asked ?_ declared registered
          ((attached_of_attach owned inside inner fresh rfl inside).2 (.inl rfl))
        rw [started.channelsOf]
        exact opened
    | cons s others =>
      cases same
      obtain ⟨q, rfl⟩ := signals first (List.mem_cons_self ..)
      cases runs with
      | signal =>
        refine .registered asked ?_ declared ((World.registered_apply rfl).2 registered) fun s member => ?_
        · rw [started.channelsOf]
          exact opened
        · exact signals s (List.mem_cons_of_mem _ member)
  | queueDeclared | exchangeDeclared | bound | attached =>
    cases same
    cases runs <;> exact .quiet (by simp)
  | @close sections asked closes left =>
    cases sections with
    | nil =>
      cases same
      cases runs <;> exact .quiet (by simp)
    | cons s others =>
      cases same
      obtain ⟨closes, left⟩ := closing closes reached left pending runs stepped
      change Outline (middle.setTodo k (next ++ (others ++ _))) k env (next ++ (others ++ _))
      rw [← List.append_assoc]
      exact .close asked closes left

end Outline

/-- The handler starts at one of the points. -/
private theorem outline_of_request (reached : broker.Reachable anyStep w) (decodes : env.malformed = false)
    (grounded : w.Grounded k env) (asked : w.step? (.request k env) = some w') : Outline w' k env (w'.todo k) := by
  have owned := owned_of_reachable reached
  have grows := World.grows_of_step asked
  have requested := World.steps_of_step asked
  cases requested with
  | request alive idle =>
    have inside := World.inside_of_live alive
    obtain ⟨rests, store, -⟩ := w.handle_spec k env
    have enrolled := enrolled_of_reachable reached k
    rw [World.errands, idle] at enrolled
    rw [rests.todo_setTodo inside, Function.update_self]
    have started := (w.handle k env).1.aligned_setTodo k (w.handle k env).2
    have same (c : ConsumerRef) : ((w.handle k env).1.setTodo k (w.handle k env).2).registered c ↔ w.registered c := by
      unfold World.registered
      rw [World.setTodo, World.modifyConnection, store]
    revert started same grows
    generalize (w.handle k env).1.setTodo k (w.handle k env).2 = target
    refine w.handle_cases k env (P := fun v next => w.Grows target → v.Aligned target →
      (∀ c, target.registered c ↔ w.registered c) → Outline target k env next)
      (fun id _ _ _ _ => ?_) (fun asked grows started same => ?_) (fun _ _ _ _ => ?_) (fun ch found _ started _ => ?_)
    · exact .quiet (by simp [Section.pledges, Payload.pledges])
    · refine .close asked (fun s member => ?_) fun c registered own here => .inr ?_
      · obtain ⟨ch, -, rfl⟩ := Option.map_eq_some_iff.1 (Option.mem_toList.1 member)
        rfl
      · have before := (same c).1 registered
        have known := World.registered_inside (wellformed_of_reachable reached) before
        have own := (owned.owner_step grows known).symm.trans own
        have channel := started.channel
        rw [grows.store.channel known, channel] at here
        rw [grows.store.channel known, grows.attached_iff known (by rw [channel]; rfl)]
        simp only [World.Grounded, asked] at grounded
        have found := grounded c before own here
        exact ⟨Option.mem_toList.2 (Option.map_eq_some_iff.2 ⟨_, found, rfl⟩),
          enrolled.attach_of_quiet (by simp) own before⟩
    · exact .quiet (by simp [Section.pledges, Payload.pledges])
    · have opened : (target.channelsOf k).lookup env.channelID = some ch := started.channelsOf ▸ found
      unfold Model.route
      cases asked : env.request with
      | publish | ack | nack =>
        simp only [decodes, Bool.false_eq_true, if_false]
        exact .quiet (by simp [Section.pledges, Section.settling, Section.spares])
      | consume queue tag =>
        simp only [decodes, Bool.false_eq_true, if_false]
        exact .consume asked opened
      | queueDeclare => exact .declareQueue asked
      | exchangeDeclare => exact .declareExchange asked
      | queueBind queue exchange key =>
        simp only [decodes, Bool.false_eq_true, if_false]
        simp only [World.Grounded, asked] at grounded
        obtain ⟨known, declared⟩ := grounded (AList.lookup_isSome.1 (by rw [World.channelsOf, found]; rfl))
        exact .bindQueue asked (started.exchanges ▸ known) (started.queues ▸ declared)
      | channelOpen | channelClose | other => exact .quiet (by simp)
  | dispatch ofDispatcher => contradiction

/-- The handler is at one of the points for as long as it runs. -/
theorem outline_of_reachable {requested : World} (before : broker.Reachable anyStep requested)
    (starts : Outline requested k env (requested.todo k))
    (during : (broker.startingAt requested).Reachable (Engaged k) w) :
    Outline w k env (w.todo k) := by
  refine during.invariant (P := fun w => Outline w k env (w.todo k)) starts ?_
  intro source target label reached outline engaged stepped
  have stepped : source.step? label = some target := stepped
  have reached := before.continued reached.any
  by_cases runs : ∃ choice, label = .run k choice
  · obtain ⟨choice, rfl⟩ := runs
    have ran := World.steps_of_step stepped
    cases ran with
    | @run _ _ first rest next middle inside pending runs rests =>
      rw [pending] at outline
      rw [rests.todo_setTodo inside, Function.update_self]
      exact outline.own reached pending runs stepped
    | dispatch ofDispatcher => contradiction
  · have still : ∀ choice, label ≠ .run k choice := fun choice same => runs ⟨choice, same⟩
    rw [todo_of_engaged still engaged stepped]
    exact outline.other reached still engaged stepped

private theorem World.inside_of_pending {j : ConnectionRef} (pending : w.todo j = first :: rest) :
    j < w.connection.size := by
  by_contra outside
  rw [World.todo, w.connection.beyond j (Nat.le_of_not_lt outside)] at pending
  contradiction

/-- A binding that has been made is there for every `Publish` that follows. -/
private theorem bound_of_history {history : List Binding} {exchange queue key : String}
    (recorded : bindingBroker.Reachable anyStep (w, history)) (bound : ⟨exchange, queue, key⟩ ∈ history) :
    w.Bound exchange queue key := by
  have routed := routed_of_reachable recorded
  obtain ⟨known, declared⟩ := routed.declared _ bound
  obtain ⟨q, found⟩ := Option.isSome_iff_exists.1 (AList.lookup_isSome.2 declared)
  refine ⟨known, q, found, fun v later j body report pending => ⟨fun unlocked => ?_, fun v' serves => ?_⟩⟩
  · exact World.exists_serves (World.inside_of_pending pending) unlocked
  · obtain ⟨more, recorded'⟩ := later.recorded World.binds history
    have recorded : bindingBroker.Reachable anyStep (v, history ++ more) := recorded.continued recorded'
    have routed := routed_of_reachable recorded
    have reached := recorded.of_recording
    have wellformed := wellformed_of_reachable reached
    have still : ⟨exchange, queue, key⟩ ∈ history ++ more := List.mem_append_left _ bound
    obtain ⟨known, -⟩ := routed.declared _ still
    have found : v.queues.lookup queue = some q := by
      refine later.invariant (P := fun v => v.queues.lookup queue = some q) found ?_
      intro source target label _ found _ stepped
      exact (World.lookup_of_step stepped).1 queue q found
    rw [routed.serves_publish wellformed (named_of_reachable reached) serves pending known
      (wellformed.queues queue q found),
      routed.queueNames queue q found, if_pos still]

/-- Writing a reply changes nothing but the connection. -/
private theorem World.aligned_of_reply (pending : w.todo k = .reply frame :: rest)
    (stepped : w.step? (.run k choice) = some w') :
    w.Aligned w' ∧ w'.toStore = w.toStore := by
  obtain ⟨first', rest', middle, next, pending', ran, rfl, -⟩ := run_inv stepped
  obtain ⟨rfl, rfl⟩ := List.cons.inj (pending.symm.trans pending')
  have started := middle.aligned_setTodo k (next ++ rest)
  cases runs_of_runSection ran with
  | reply =>
    let write (conn : Connection) : Connection := { conn with wire := conn.wire ++ [frame] }
    exact ⟨⟨rfl, rfl, rfl, rfl, started.channelsOf.trans (w.channelsOf_kept k write rfl),
      started.connected.trans (w.connected_kept k write rfl)⟩, rfl⟩
  | unsent => exact ⟨started, rfl⟩

/-- At the point where a reply is written, it tells the truth. -/
private theorem truthful_of_outline (outline : Outline w k env (.reply frame :: rest))
    (reached : broker.Reachable anyStep w)
    (pending : w.todo k = .reply frame :: rest) (stepped : w.step? (.run k choice) = some w') :
    w'.Truthful k env frame.payload := by
  have wellformed := wellformed_of_reachable reached
  obtain ⟨aligned, store⟩ := World.aligned_of_reply pending stepped
  generalize same : Section.reply frame :: rest = sections at outline
  cases outline with
  | quiet quiet =>
    subst same
    have vague := quiet (.reply frame) (List.mem_cons_self ..)
    obtain ⟨header, payload⟩ := frame
    cases payload with
    | queueBindOK | queueDeclareOK | exchangeDeclareOK | consumeOK | channelCloseOK => contradiction
    | _ => trivial
  | queueDeclared asked declared =>
    cases same
    exact ⟨aligned.queues ▸ declared, _, _, asked⟩
  | exchangeDeclared asked declared =>
    cases same
    exact ⟨aligned.exchanges ▸ declared, asked⟩
  | bound asked recorded bound =>
    cases same
    have recorded := recorded.next (.run k choice) (Option.map_eq_some_iff.2 ⟨_, stepped, rfl⟩)
    exact ⟨_, _, _, asked, bound_of_history recorded (List.mem_append_left _ bound)⟩
  | @attached queue tag c asked opened declared registered attached =>
    cases same
    refine ⟨queue, tag, asked, (w.consumer c).queue, c, (w.consumer c).channel, ?_⟩
    rw [store, aligned.queues, aligned.channelsOf, aligned.channel]
    exact ⟨declared, (World.registered_iff wellformed).1 registered, rfl, opened, attached⟩
  | @registered queue tag c waiting asked opened declared registered signals =>
    cases waiting with
    | nil => cases same
    | cons s others =>
      cases same
      obtain ⟨q, impossible⟩ := signals _ (List.mem_cons_self ..)
      contradiction
  | @close sections asked closes left =>
    cases sections with
    | nil =>
      cases same
      refine ⟨rfl, asked, fun c registered own here => ?_⟩
      rw [World.registered, store] at registered
      rw [World.owner, store, aligned.channel] at own
      rw [store, aligned.channel] at here
      simpa using left c registered own here
    | cons s others =>
      cases same
      exact absurd (closes _ (List.mem_cons_self ..)) (by simp [Section.closes])
  | declareQueue | declareExchange | bindQueue | bind | consume | register => cases same

/-- A registered consumer, of a channel `ch` with the id, that the `ChannelClose` under way does not come across. -/
structure Missed (w : World) (k : ConnectionRef) (id : UInt16) (ch : ChannelRef) (c : ConsumerRef) : Prop where
  registered : w.registered c
  own : w.owner c = k
  channel : (w.consumer c).channel = ch
  id : (w.channel ch).id = id
  closes : ∀ s ∈ w.todo k, s.closes = true ∨ ∃ frame, s = .reply frame
  spared : ∀ s ∈ w.todo k, s ≠ .unregister c ∧ s ≠ .cleanup ch

private theorem Missed.step {id : UInt16} {ch : ChannelRef} (missed : Missed w k id ch c) (wellformed : Wellformed w)
    (owned : Owned w)
    (engaged : Engaged k w label) (stepped : w.step? label = some w') : Missed w' k id ch c := by
  have grows := World.grows_of_step stepped
  have inside := World.registered_inside wellformed missed.registered
  have own : w'.owner c = k := (owned.owner_step grows inside).trans missed.own
  have channel : (w'.consumer c).channel = ch := (grows.store.channel inside).trans missed.channel
  have named : (w'.channel ch).id = id := by
    rw [(grows.identity ch (missed.channel ▸ owned.channelOf c inside)).1]
    exact missed.id
  by_cases runs : ∃ choice, label = .run k choice
  · obtain ⟨choice, rfl⟩ := runs
    have ran := World.steps_of_step stepped
    cases ran with
    | @run _ _ first rest next middle inside pending runs rests =>
      have closes := missed.closes
      have spared := missed.spared
      rw [pending] at closes spared
      have went (registered : middle.registered c)
          (new : ∀ s ∈ next, s.closes = true ∧ s ≠ .unregister c ∧ s ≠ .cleanup ch) :
          Missed (middle.setTodo k (next ++ rest)) k id ch c := by
        have todo : (middle.setTodo k (next ++ rest)).todo k = next ++ rest := by
          rw [rests.todo_setTodo inside, Function.update_self]
        refine ⟨registered, own, channel, named, fun s member => ?_, fun s member => ?_⟩
        · rcases List.mem_append.1 (todo ▸ member) with led | old
          · exact .inl (new s led).1
          · exact closes s (List.mem_cons_of_mem _ old)
        · rcases List.mem_append.1 (todo ▸ member) with led | old
          · exact (new s led).2
          · exact spared s (List.mem_cons_of_mem _ old)
      have registered := missed.registered
      cases runs with
      | signal => exact went ((World.registered_apply rfl).2 registered) (by simp)
      | unregistered | reply | unsent => exact went registered (by simp)
      | @cleanup ch' all =>
        refine went registered fun s member => ?_
        obtain ⟨c', chosen, rfl⟩ := List.mem_map.1 member
        refine ⟨rfl, ?_, by simp⟩
        rintro ⟨⟩
        have here := (owned.of_values (all.subset chosen)).2
        rw [missed.channel] at here
        exact (spared _ (List.mem_cons_self ..)).2 (here ▸ rfl)
      | @unregister c' free member all =>
        have known := (wellformed.members _ c' member).1
        refine went ((World.registered_unregisterConsumer wellformed known choice.messages c).2 ⟨?_, registered⟩)
          (by simp [Section.closes])
        rintro rfl
        exact (spared _ (List.mem_cons_self ..)).1 rfl
      | _ => exact absurd (closes _ (List.mem_cons_self ..)) (by simp [Section.closes])
    | dispatch ofDispatcher => contradiction
  · have still : ∀ choice, label ≠ .run k choice := fun choice same => runs ⟨choice, same⟩
    have todo : w'.todo k = w.todo k := todo_of_engaged still engaged stepped
    exact ⟨(registered_of_other wellformed owned still stepped own).2 missed.registered, own, channel, named,
      todo ▸ missed.closes, todo ▸ missed.spared⟩

/-- A reply that comes next can be written. -/
private theorem exists_replies {requested before : World} (asked : w.step? (.request k env) = some requested)
    (during : (broker.startingAt requested).Reachable (Engaged k) before) (pending : before.todo k = [.reply frame]) :
    ∃ w', w.Replies k env frame w' ∧ before.Aligned w' ∧ w'.toStore = before.toStore := by
  have ran : before.runSection k {} (.reply frame) =
      some (before.modifyConnection k fun conn => { conn with wire := conn.wire ++ [frame] }, []) := rfl
  obtain ⟨stepped, -⟩ := World.steps_section pending ran
  exact ⟨_, ⟨requested, before, [], {}, asked, during, pending, rfl, stepped⟩, World.aligned_of_reply pending stepped⟩

/-- `HandleQueueBind` confirms a binding that it has not made. -/
private theorem exists_groundless_bind {queue exchange key : String} (alive : w.connected k = true)
    (idle : w.todo k = [])
    (decodes : env.malformed = false) (asked : env.request = .queueBind queue exchange key)
    (opened : env.channelID ∈ w.channelsOf k) (missing : ¬ (exchange ∈ w.exchanges ∧ queue ∈ w.queues)) :
    ∃ w', w.Replies k env ⟨env.header, .queueBindOK⟩ w' ∧ w'.exchanges = w.exchanges ∧ w'.queues = w.queues := by
  obtain ⟨ch, found⟩ := Option.isSome_iff_exists.1 (AList.lookup_isSome.2 opened)
  have found : (w.connection k).channels.lookup env.channelID = some ch := found
  let sections : List Section := [.bindQueue exchange queue key, .reply ⟨env.header, .queueBindOK⟩]
  have requested : w.step? (.request k env) = some (w.setTodo k sections) := by
    have handled : w.handle k env = (w, sections) := by
      simp only [World.handle, asked, found, Model.route, decodes, Bool.false_eq_true, if_false, sections]
    unfold World.connected at alive
    unfold World.todo at idle
    simp only [World.step?, alive, idle, and_self, if_true, handled]
  have todo : (w.setTodo k sections).todo k = sections := by
    rw [w.todo_setTodo (World.inside_of_live alive), Function.update_self]
  cases targets : w.bindTargets exchange queue with
  | ok target =>
    obtain ⟨known, declared⟩ := World.bindTargets_ok targets
    exact absurd ⟨AList.lookup_isSome.1 (known ▸ rfl), AList.lookup_isSome.1 (declared ▸ rfl)⟩ missing
  | error error =>
    have ran : (w.setTodo k sections).runSection k {} (.bindQueue exchange queue key) =
        some (w.setTodo k sections, []) := by
      have same : (w.setTodo k sections).bindTargets exchange queue = .error error := targets
      simp only [World.runSection, same]
    obtain ⟨refused, left⟩ := World.steps_section todo ran
    have engaged : Engaged k (w.setTodo k sections) (.run k {}) := rfl
    obtain ⟨w', replies, aligned, -⟩ := exists_replies requested (.step .init engaged refused) left
    exact ⟨w', replies, aligned.exchanges, aligned.queues⟩

/-- Once the dispatchers have left their locks, a connection gets to the reply it has pending. -/
private theorem exists_reply_next {requested : World} {sections : List Section}
    (reached : broker.Reachable anyStep requested)
    (todo : requested.todo k = sections ++ [.reply frame]) :
    ∃ before, (broker.startingAt requested).Reachable (Engaged k) before ∧ before.todo k = [.reply frame] := by
  obtain ⟨free, released, unlocked⟩ := World.exists_unlocked (wellformed_of_reachable reached)
  have waits : free.todo k = sections ++ [.reply frame] := by
    refine released.invariant (P := fun v => v.todo k = sections ++ [.reply frame]) todo ?_
    intro source target label _ waits dispatches stepped
    cases World.steps_of_step stepped with
    | dispatch _ _ rests => rw [rests.todo, waits]
    | accept | request | disconnect | run => contradiction
  have inside : k < free.connection.size := by
    cases sections with
    | nil => exact World.inside_of_pending waits
    | cons => exact World.inside_of_pending waits
  obtain ⟨choices, before, ran, -, -, left⟩ := finishes_all (fun s _ => s.finishes) inside unlocked waits
  have first : (broker.startingAt requested).Reachable (Engaged k) free :=
    released.mono fun _ label dispatches => by cases label <;> first | contradiction | rfl
  have second : (broker.startingAt free).Reachable (Engaged k) before := by
    refine .of_run (fun label member _ => ?_) ran
    obtain ⟨choice, -, rfl⟩ := List.mem_map.1 member
    rfl
  exact ⟨before, first.continued second, left⟩

/-- `ChannelClose` leaves a consumer registered whose channel is not the one in the map. -/
private theorem exists_groundless_close (reached : broker.Reachable anyStep w) (alive : w.connected k = true)
    (idle : w.todo k = [])
    (asked : env.request = .channelClose) (registered : w.registered c) (own : w.owner c = k)
    (named : (w.channel (w.consumer c).channel).id = env.channelID)
    (elsewhere : (w.channelsOf k).lookup env.channelID ≠ some (w.consumer c).channel) :
    ∃ w', w.Replies k env ⟨env.header, .channelCloseOK env.channelID⟩ w' ∧ w'.registered c ∧ w'.owner c = k ∧
      (w'.channel (w'.consumer c).channel).id = env.channelID := by
  let sections : List Section := (((w.connection k).channels.lookup env.channelID).map Section.cleanup).toList
  let closed := w.modifyConnection k fun conn => { conn with channels := conn.channels.erase env.channelID }
  let requested := closed.setTodo k (sections ++ [.reply ⟨env.header, .channelCloseOK env.channelID⟩])
  have stepped : w.step? (.request k env) = some requested := by
    have handled : w.handle k env = (closed, sections ++ [.reply ⟨env.header, .channelCloseOK env.channelID⟩]) := by
      simp only [World.handle, asked, sections, closed]
    unfold World.connected at alive
    unfold World.todo at idle
    simp only [World.step?, alive, idle, and_self, if_true, handled, requested]
  have arrived := reached.next (.request k env) stepped
  have inside : k < w.connection.size := World.inside_of_live alive
  have todo : requested.todo k = sections ++ [.reply ⟨env.header, .channelCloseOK env.channelID⟩] := by
    rw [closed.todo_setTodo inside, Function.update_self]
  have starts : Missed requested k env.channelID (w.consumer c).channel c := by
    refine ⟨registered, own, rfl, named, fun s member => ?_, fun s member => ?_⟩
    · rcases List.mem_append.1 (todo ▸ member) with cleanup | last
      · obtain ⟨ch, -, rfl⟩ := Option.map_eq_some_iff.1 (Option.mem_toList.1 cleanup)
        exact .inl rfl
      · exact .inr ⟨_, List.mem_singleton.1 last⟩
    · rcases List.mem_append.1 (todo ▸ member) with cleanup | last
      · obtain ⟨ch, found, rfl⟩ := Option.map_eq_some_iff.1 (Option.mem_toList.1 cleanup)
        refine ⟨by simp, ?_⟩
        rintro ⟨⟩
        exact elsewhere found
      · rw [List.mem_singleton.1 last]
        simp
  obtain ⟨before, during, left⟩ := exists_reply_next arrived todo
  have missed : Missed before k env.channelID (w.consumer c).channel c := by
    refine during.invariant (P := fun v => Missed v k env.channelID (w.consumer c).channel c) starts ?_
    intro source target label reached missed engaged stepped
    have reached := arrived.continued reached.any
    exact missed.step (wellformed_of_reachable reached) (owned_of_reachable reached) engaged stepped
  obtain ⟨w', replies, aligned, store⟩ := exists_replies stepped during left
  refine ⟨w', replies, ?_⟩
  rw [World.registered, World.owner, store, aligned.channel]
  refine ⟨missed.registered, missed.own, ?_⟩
  rw [missed.channel]
  exact missed.id

/-- Every reply to a request is the truth, exactly when the request is one of those that the state bears out. -/
theorem replies_truthful_iff (reached : broker.Reachable anyStep w) (alive : w.connected k = true)
    (idle : w.todo k = [])
    (decodes : env.malformed = false) :
    (∀ frame w', w.Replies k env frame w' → w'.Truthful k env frame.payload) ↔ w.Grounded k env := by
  constructor
  · intro truthful
    unfold World.Grounded
    cases asked : env.request with
    | queueBind queue exchange key =>
      intro opened
      by_contra missing
      obtain ⟨w', replies, exchanges, queues⟩ := exists_groundless_bind alive idle decodes asked opened missing
      obtain ⟨queue', exchange', key', asked', known, q, declared, -⟩ := truthful _ w' replies
      cases asked.symm.trans asked'
      rw [exchanges] at known
      rw [queues] at declared
      exact missing ⟨known, AList.lookup_isSome.1 (declared ▸ rfl)⟩
    | channelClose =>
      intro c registered own named
      by_contra elsewhere
      obtain ⟨w', replies, registered, own, named⟩ :=
        exists_groundless_close reached alive idle asked registered own named elsewhere
      exact (truthful _ w' replies).2.2 c registered own named
    | _ => trivial
  · rintro grounded frame w' ⟨requested, before, rest, choice, asked, during, pending, -, stepped⟩
    have arrived := reached.next (.request k env) asked
    have outline := outline_of_reachable arrived (outline_of_request reached decodes grounded asked) during
    rw [pending] at outline
    exact truthful_of_outline outline (arrived.continued during.any) pending stepped

/-- A queue that exists is bound to an exchange that exists, under a second key. -/
theorem replies_truthful_second_key :
    let w := broker.replay anyStep topology
    ∀ frame w', w.Replies 0 ⟨1, 7, false, .queueBind "q" "ex" "other"⟩ frame w' →
      w'.Truthful 0 ⟨1, 7, false, .queueBind "q" "ex" "other"⟩ frame.payload := by
  intro w
  have known : "ex" ∈ w.exchanges ∧ "q" ∈ w.queues := by decide +kernel
  exact (replies_truthful_iff (.of_replay _) (by decide +kernel) (by decide +kernel) rfl).2 fun _ => known

/-- A queue that was not declared is bound, and the reply says that messages will reach it. -/
theorem untruthful_bind_ok :
    ¬ ∀ w, broker.Reachable anyStep w → ∀ k env, w.connected k = true → w.todo k = [] → env.malformed = false →
      ∀ frame w', w.Replies k env frame w' → w'.Truthful k env frame.payload := by
  intro truthful
  let w := broker.replay anyStep topology
  let env : Envelope := ⟨1, 7, false, .queueBind "none" "ex" "key"⟩
  have missing : ¬ ("ex" ∈ w.exchanges ∧ "none" ∈ w.queues) := by decide +kernel
  have opened : (1 : UInt16) ∈ w.channelsOf 0 := by decide +kernel
  obtain ⟨w', replies, exchanges, queues⟩ :=
    exists_groundless_bind (w := w) (k := 0) (by decide +kernel) (by decide +kernel)
      (show env.malformed = false from rfl) rfl
      opened missing
  obtain ⟨queue, exchange, key, asked, -, q, declared, -⟩ :=
    truthful w (.of_replay _) 0 env (by decide +kernel) (by decide +kernel) rfl _ w' replies
  cases asked
  have undeclared : w.queues.lookup "none" = none := by decide +kernel
  rw [queues, undeclared] at declared
  exact Option.some_ne_none q declared.symm

end GolangMQ.Model
