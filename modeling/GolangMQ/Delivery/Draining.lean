import GolangMQ.Delivery.Quiescence

/-! # What a dispatcher hands out before it sleeps

While no handler runs, each dispatcher works on its own: it takes messages from the head of its queue as long as
there is a message and a consumer with room. Which consumer gets which message depends on the iteration order of a
map, but how many messages go out does not. `Handing` is the invariant of the loop: the list of what has been
handed to whom since it started. The loop ends because moves end; it is only stopped by a write that does not return,
so writes to the consumers of the queue have to.
-/

namespace GolangMQ.Model

open Machine

/-- How many more messages the consumer may have in flight. -/
def Consumer.room (c : Consumer) : ℕ := (c.prefetch - c.inflight).toNat

private theorem Consumer.full_iff_room (c : Consumer) : c.Full ↔ c.room = 0 := by
  unfold Full room
  omega

/-- How many messages the consumers of a queue have room for. -/
def Store.room (s : Store) (q : QueueRef) : ℕ := ∑ c ∈ (s.queue q).consumers, (s.consumer c).room

/-- The entry of the log for a message that goes to a consumer. -/
def World.delivery (w : World) (entry : ConsumerRef × Message) : ConsumerRef × Deliver :=
  (entry.1, entry.2.deliver (w.consumer entry.1).tag)

/-- What the dispatcher waits for at this place is used up. -/
def World.Lacks (w : World) (q : QueueRef) : WaitSite → Prop
  | .noMessage => (w.queue q).messages = []
  | .noConsumer => ∀ c ∈ (w.queue q).consumers, (w.consumer c).Full

/-- What the dispatcher of a queue knows where it stands, while no handler runs. -/
def World.Sees (w : World) (q : QueueRef) : Dispatcher → Prop
  | .top | .parked _ true => True
  | .scanning passed => ∀ c ∈ passed, (w.consumer c).Full
  | .selected c => c ∈ (w.queue q).consumers ∧ ¬ (w.consumer c).Full
  | .waiting site | .parked site false => w.Lacks q site
  | .writing c _ => c ∈ (w.queue q).consumers
  | .failed .. => False

/-- From `w` to `v` the dispatcher of `q` has handed out these messages, the last of which it may be writing. -/
structure Handing (w v : World) (q : QueueRef) (handed : List (ConsumerRef × Message)) : Prop where
  messages : (w.queue q).messages = handed.map Prod.snd ++ (v.queue q).messages
  consumers : (v.queue q).consumers = (w.queue q).consumers
  receivers : ∀ entry ∈ handed, entry.1 ∈ (w.queue q).consumers
  delivered : (v.queue q).log.delivered ++ ((v.queue q).dispatcher.delivery.map w.delivery).toList =
    (w.queue q).log.delivered ++ handed.map w.delivery
  identity : ∀ c ∈ (w.queue q).consumers, (v.consumer c).identity = (w.consumer c).identity
  inflight : ∀ c ∈ (w.queue q).consumers,
    (v.consumer c).inflight = (w.consumer c).inflight + (handed.map Prod.fst).count c
  within : ∀ c ∈ (w.queue q).consumers, (handed.map Prod.fst).count c ≤ (w.consumer c).room
  sees : v.Sees q (v.queue q).dispatcher

namespace Handing

variable {w v v' : World} {label : Label} {q : QueueRef} {handed : List (ConsumerRef × Message)} {c : ConsumerRef}
  {returns : ConnectionRef → Prop}

/-- A dispatcher that has just started or has been woken has handed out nothing. -/
theorem start (roused : (w.queue q).dispatcher = .top ∨ ∃ site, (w.queue q).dispatcher = .parked site true) :
    Handing w w q [] := by
  have nothing : (w.queue q).dispatcher.delivery = none ∧ w.Sees q (w.queue q).dispatcher := by
    rcases roused with top | ⟨site, woken⟩
    · rw [top]
      exact ⟨rfl, trivial⟩
    · rw [woken]
      exact ⟨rfl, trivial⟩
  exact {
    messages := rfl
    consumers := rfl
    receivers := by simp
    delivered := by simp [nothing.1]
    identity := fun _ _ => rfl
    inflight := by simp
    within := by simp
    sees := nothing.2 }

/-- A step that leaves the queue and its consumers alone. -/
theorem of_same (handing : Handing w v q handed) (queue : v'.queue q = v.queue q)
    (consumer : ∀ c ∈ (v.queue q).consumers, v'.consumer c = v.consumer c) (wellformed : Wellformed v) :
    Handing w v' q handed := by
  have mine (c : ConsumerRef) (member : c ∈ (w.queue q).consumers) : v'.consumer c = v.consumer c :=
    consumer c (handing.consumers ▸ member)
  refine ⟨queue ▸ handing.messages, queue ▸ handing.consumers, handing.receivers, queue ▸ handing.delivered,
    fun c member => mine c member ▸ handing.identity c member,
    fun c member => mine c member ▸ handing.inflight c member, handing.within, ?_⟩
  have lacks (site : WaitSite) (before : v.Lacks q site) : v'.Lacks q site := by
    cases site with
    | noMessage => exact (congrArg Queue.messages queue).trans before
    | noConsumer =>
      intro c member
      rw [queue] at member
      exact consumer c member ▸ before c member
  have sees := handing.sees
  have fits := wellformed.phases q
  rw [queue]
  cases stands : (v.queue q).dispatcher with
  | top => trivial
  | scanning passed =>
    rw [stands] at sees fits
    intro c seen
    rw [consumer c (fits.2 c seen)]
    exact sees c seen
  | selected c =>
    rw [stands] at sees
    exact ⟨queue ▸ sees.1, consumer c sees.1 ▸ sees.2⟩
  | waiting site =>
    rw [stands] at sees
    exact lacks site sees
  | parked site woken =>
    rw [stands] at sees
    cases woken with
    | true => trivial
    | false => exact lacks site sees
  | writing c msg =>
    rw [stands] at sees
    simp only [World.Sees, queue]
    exact sees
  | failed =>
    rw [stands] at sees
    exact sees.elim

/-- The dispatcher moves on with nothing in its hands. -/
theorem moved (handing : Handing w v q handed) {phase : Dispatcher}
    (store : v'.toStore = v.toStore.apply (.dispatcher q phase)) (inside : q < v.queue.size)
    (empty : (v.queue q).dispatcher.delivery = none) (empty' : phase.delivery = none) (sees : v'.Sees q phase) :
    Handing w v' q handed := by
  have queue := queue_dispatcher store inside
  have consumer : v'.consumer = v.consumer := by rw [store]; rfl
  refine ⟨?_, ?_, handing.receivers, ?_, ?_, ?_, handing.within, ?_⟩
  · rw [queue]
    exact handing.messages
  · rw [queue]
    exact handing.consumers
  · have before := handing.delivered
    rw [empty] at before
    rw [queue]
    dsimp only
    rw [empty']
    exact before
  · rw [consumer]
    exact handing.identity
  · rw [consumer]
    exact handing.inflight
  · rw [queue]
    exact sees

private theorem tag (handing : Handing w v q handed) (member : c ∈ (w.queue q).consumers) :
    (v.consumer c).tag = (w.consumer c).tag :=
  congrArg (·.1) (handing.identity c member)

private theorem owner (handing : Handing w v q handed) (channel : v.channel = w.channel)
    (member : c ∈ (w.queue q).consumers) :
    v.owner c = w.owner c := by
  have same : (v.consumer c).channel = (w.consumer c).channel := congrArg (·.2.2.1) (handing.identity c member)
  rw [World.owner, same, channel, World.owner]

private theorem prefetch (handing : Handing w v q handed) (member : c ∈ (w.queue q).consumers) :
    (v.consumer c).prefetch = (w.consumer c).prefetch :=
  congrArg (·.2.2.2) (handing.identity c member)

/-- The room of a consumer shrinks by what it has been handed. -/
theorem room (handing : Handing w v q handed) (member : c ∈ (w.queue q).consumers) :
    (v.consumer c).room + (handed.map Prod.fst).count c = (w.consumer c).room := by
  have within := handing.within c member
  have loads := handing.inflight c member
  have prefetch := handing.prefetch member
  unfold Consumer.room at within ⊢
  omega

/-- The head of the queue goes to the selected consumer. -/
theorem record (handing : Handing w v q handed) (wellformed : Wellformed v) {msg : Message} {rest : List Message}
    (store : v'.toStore = v.toStore.apply (.record q c msg)) (stands : (v.queue q).dispatcher = .selected c)
    (head : (v.queue q).messages = msg :: rest) : Handing w v' q (handed ++ [(c, msg)]) := by
  have selected := handing.sees
  rw [stands] at selected
  have member : c ∈ (w.queue q).consumers := handing.consumers ▸ selected.1
  have inside : c < v.consumer.size := (wellformed.members q c selected.1).1
  have queue : v'.queue q = (v.queue q).pop c msg := by
    rw [store]
    exact v.queue.cell_modify_self (·.pop c msg) (World.inside_of_phase stands (by simp))
  have receiver : v'.consumer c = (v.consumer c).record msg := by
    rw [store]
    exact v.consumer.cell_modify_self (·.record msg) inside
  have others (j : ConsumerRef) (other : j ≠ c) : v'.consumer j = v.consumer j := by
    rw [store]
    exact v.consumer.cell_modify_of_ne (·.record msg) other
  have counts (j : ConsumerRef) : ((handed ++ [(c, msg)]).map Prod.fst).count j =
      (handed.map Prod.fst).count j + if c = j then 1 else 0 := by
    rw [List.map_append, List.count_append]
    simp [List.count_singleton]
  constructor
  · rw [handing.messages, queue, head, List.map_append]
    simp [Queue.pop, head]
  · rw [queue]
    exact handing.consumers
  · intro entry handedOut
    rcases List.mem_append.1 handedOut with earlier | last
    · exact handing.receivers entry earlier
    · rw [List.mem_singleton.1 last]
      exact member
  · have before := handing.delivered
    rw [stands] at before
    rw [queue, List.map_append, ← List.append_assoc, ← before]
    simp [Queue.pop, Dispatcher.delivery]
  · intro j registered
    by_cases same : j = c
    · subst same
      rw [receiver]
      exact handing.identity j registered
    · rw [others j same]
      exact handing.identity j registered
  · intro j registered
    have loads := handing.inflight j registered
    rw [counts]
    by_cases same : j = c
    · subst same
      rw [receiver, if_pos rfl]
      simp only [Consumer.record, loads]
      omega
    · rw [others j same, if_neg (Ne.symm same)]
      exact loads
  · intro j registered
    have room := handing.room registered
    have free := (v.consumer c).full_iff_room.not.1 selected.2
    rw [counts]
    split
    · next same =>
      subst same
      omega
    · omega
  · have same : (v'.queue q).consumers = (v.queue q).consumers := by rw [queue]; rfl
    rw [queue]
    simp only [Queue.pop, World.Sees, same]
    exact selected.1

/-- The write to the consumer returns. -/
theorem written (handing : Handing w v q handed) {msg : Message}
    (store : v'.toStore = v.toStore.apply (.deliver q c msg)) (stands : (v.queue q).dispatcher = .writing c msg) :
    Handing w v' q handed := by
  have holds := handing.sees
  rw [stands] at holds
  have queue : v'.queue q = (v.queue q).deliver c (msg.deliver (v.consumer c).tag) := by
    rw [store]
    exact v.queue.cell_modify_self (·.deliver c (msg.deliver (v.consumer c).tag))
      (World.inside_of_phase stands (by simp))
  have consumer : v'.consumer = v.consumer := by rw [store]; rfl
  refine ⟨?_, ?_, handing.receivers, ?_, ?_, ?_, handing.within, ?_⟩
  · rw [queue]
    exact handing.messages
  · rw [queue]
    exact handing.consumers
  · have before := handing.delivered
    rw [stands] at before
    rw [queue, ← before, handing.tag (handing.consumers ▸ holds)]
    simp [Queue.deliver, Dispatcher.delivery, World.delivery]
  · rw [consumer]
    exact handing.identity
  · rw [consumer]
    exact handing.inflight
  · rw [queue]
    trivial

/-- Every step of the dispatchers keeps account of what has been handed out. -/
theorem step (handing : Handing w v q handed) (wellformed : Wellformed v) (idle : ∀ k, v.todo k = [])
    (works : v.Works returns label) (stepped : v.step? label = some v') :
    ∃ more, Handing w v' q (handed ++ more) := by
  obtain ⟨effect, store, happens⟩ := World.happens_of_step stepped
  have kept (next : Handing w v' q handed) : ∃ more, Handing w v' q (handed ++ more) :=
    ⟨[], (List.append_nil handed).symm ▸ next⟩
  by_cases other : v.toStore.target effect ≠ some q
  · have queue : v'.queue q = v.queue q := by
      rw [store]
      exact Store.queue_of_other other
    exact kept (handing.of_same queue (fun c => wellformed.consumer_of_other store happens other) wellformed)
  rw [not_not] at other
  have consumer (phase : Dispatcher) (same : effect = .dispatcher q phase) : v'.consumer = v.consumer := by
    rw [store, same]; rfl
  have sees := handing.sees
  have busy {k : ConnectionRef} {first : Section} {next : List Section} (advances : v.Advances v' k first next) :
      False := by
    obtain ⟨rest, pending, -⟩ := advances.todo
    exact List.cons_ne_nil _ _ (pending.symm.trans (idle k))
  cases happens with
  | @lock _ j stands =>
    obtain rfl := Option.some.inj other
    have empty : (v.queue j).dispatcher.delivery = none := by
      rcases stands with top | woken
      · rw [top]; rfl
      · rw [woken]; rfl
    refine kept (handing.moved store works empty ?_ ?_)
    · split <;> rfl
    · have queue := queue_dispatcher store works
      split
      · next none => exact (congrArg Queue.messages queue).trans none
      · simp [World.Sees]
  | @probe _ j c passed stands member =>
    obtain rfl := Option.some.inj other
    rw [stands] at sees
    refine kept (handing.moved store works (by rw [stands]; rfl) (by split <;> rfl) ?_)
    have queue := queue_dispatcher store works
    split
    · next free =>
      refine ⟨by rw [queue]; exact member, ?_⟩
      rw [consumer _ rfl, (v.consumer c).full_iff, free]
      simp
    · next taken =>
      intro j found
      rw [consumer _ rfl]
      rcases List.mem_cons.1 found with rfl | earlier
      · exact (v.consumer j).full_iff.2 (Bool.eq_false_of_not_eq_true taken)
      · exact sees j earlier
  | @exhausted _ j passed stands all =>
    obtain rfl := Option.some.inj other
    rw [stands] at sees
    refine kept (handing.moved store works (by rw [stands]; rfl) rfl ?_)
    have queue := queue_dispatcher store works
    intro c member
    rw [queue] at member
    rw [consumer _ rfl]
    exact sees c (List.mem_toFinset.1 (all ▸ member))
  | @wait _ j site stands =>
    obtain rfl := Option.some.inj other
    rw [stands] at sees
    refine kept (handing.moved store works (by rw [stands]; rfl) rfl ?_)
    have queue := queue_dispatcher store works
    cases site with
    | noMessage => exact (congrArg Queue.messages queue).trans sees
    | noConsumer =>
      intro c member
      rw [queue] at member
      rw [consumer _ rfl]
      exact sees c member
  | @resume _ j stands =>
    obtain rfl := Option.some.inj other
    exact kept (handing.moved store works (by rw [stands]; rfl) rfl trivial)
  | @record _ j c msg _ stands head =>
    obtain rfl := Option.some.inj other
    exact ⟨[(c, msg)], handing.record wellformed store stands head⟩
  | @written _ j c msg stands =>
    obtain rfl := Option.some.inj other
    exact kept (handing.written store stands)
  | @rollback _ j c msg stands =>
    obtain rfl := Option.some.inj other
    rw [stands] at sees
    exact sees.elim
  | accepted | requested | disconnected | failed => contradiction
  | quiet advances | newQueue advances | newConsumer _ advances | takeTag _ advances | enqueue _ advances
  | signal advances | registerConsumer _ advances | unregisterConsumer _ _ _ advances | ack _ _ _ advances
  | nack _ advances | requeue _ advances => exact (busy advances).elim

/-- Everything handed out is for consumers of the queue. -/
theorem length_eq (handing : Handing w v q handed) :
    handed.length = ∑ c ∈ (w.queue q).consumers, (handed.map Prod.fst).count c := by
  have registered : ∀ c ∈ (handed.map Prod.fst : Multiset ConsumerRef), c ∈ (w.queue q).consumers := by
    intro c member
    obtain ⟨entry, given, rfl⟩ := List.mem_map.1 (Multiset.mem_coe.1 member)
    exact handing.receivers entry given
  simpa using (Multiset.sum_count_eq_card registered).symm

private theorem length_le_room (handing : Handing w v q handed) : handed.length ≤ w.room q := by
  rw [handing.length_eq]
  exact Finset.sum_le_sum handing.within

/-- A dispatcher falls asleep when the messages or the room have been used up. -/
theorem length_of_asleep (handing : Handing w v q handed) {site : WaitSite}
    (asleep : (v.queue q).dispatcher = .parked site false) :
    handed.length = min (w.queue q).messages.length (w.room q) := by
  have room := handing.length_le_room
  have taken := congrArg List.length handing.messages
  rw [List.length_append, List.length_map] at taken
  have sees := handing.sees
  rw [asleep] at sees
  cases site with
  | noMessage =>
    have none : (v.queue q).messages = [] := sees
    rw [none, List.length_nil] at taken
    omega
  | noConsumer =>
    have all : handed.length = w.room q := by
      rw [handing.length_eq]
      refine Finset.sum_congr rfl fun c member => ?_
      have full := (v.consumer c).full_iff_room.1 (sees c (handing.consumers.symm ▸ member))
      have left := handing.room member
      omega
    omega

end Handing

variable {w v v' : World} {label : Label} {q : QueueRef} {returns : ConnectionRef → Prop}

/-- Only dispatchers have moved from `w` to `v`. -/
structure World.Alone (w v : World) : Prop where
  wellformed : Wellformed v
  idle : ∀ k, v.todo k = []
  channel : v.channel = w.channel
  queues : w.queue.size ≤ v.queue.size

private theorem World.Alone.step (alone : w.Alone v) (works : v.Works returns label)
    (stepped : v.step? label = some v') :
    w.Alone v' := by
  have more := alone.queues.trans (grows_of_step stepped).store.queues
  have wellformed := alone.wellformed.step stepped
  cases World.steps_of_step stepped with
  | dispatch _ aligned rests =>
    exact ⟨wellformed, fun k => (congrFun rests.todo k).trans (alone.idle k), aligned.channel.trans alone.channel, more⟩
  | run _ pending => exact absurd (pending.symm.trans (alone.idle _)) (List.cons_ne_nil _ _)
  | accept | request | disconnect => contradiction

theorem handing_of_reachable (reached : broker.Reachable anyStep w) (idle : ∀ k, w.todo k = [])
    (roused : (w.queue q).dispatcher = .top ∨ ∃ site, (w.queue q).dispatcher = .parked site true)
    (during : (broker.startingAt w).Reachable (World.Works returns) v) :
    w.Alone v ∧ ∃ handed, Handing w v q handed := by
  induction during with
  | init => exact ⟨⟨wellformed_of_reachable reached, idle, rfl, Nat.le_refl _⟩, [], .start roused⟩
  | step _ works stepped ih =>
    obtain ⟨alone, handed, handing⟩ := ih
    obtain ⟨more, handing'⟩ := handing.step alone.wellformed alone.idle works stepped
    exact ⟨alone.step works stepped, _, handing'⟩

/-- The dispatcher goes on until it sleeps, if writes to the consumers of its queue return. -/
theorem Handing.moves {handed : List (ConsumerRef × Message)} (handing : Handing w v q handed) (alone : w.Alone v)
    (declared : q < w.queue.size) (returning : ∀ c ∈ (w.queue q).consumers, returns (w.owner c)) :
    (v.queue q).dispatcher.asleep = true ∨ ∃ v', v.Moves returns v' := by
  cases awake : (v.queue q).dispatcher.asleep with
  | true => exact .inl rfl
  | false =>
    refine .inr (moves_of_awake alone.wellformed (declared.trans_le alone.queues) awake fun k writes => ?_)
    obtain ⟨c, msg, stands, rfl⟩ := World.mem_addressee.1 writes
    have sees := handing.sees
    rw [stands] at sees
    have member : c ∈ (w.queue q).consumers := handing.consumers ▸ sees
    rw [handing.owner alone.channel member]
    exact returning c member

/-- A dispatcher that starts while no handler runs, and whose consumers read what is written to them, comes to sleep,
however the dispatchers are scheduled. By then it has handed out, from the head of its queue and in order, as many
messages as there are and as its consumers have room for, each to a consumer that had room. The choice of
`selectConsumer` has no influence on their number. -/
theorem dispatcher_drains (returns : ConnectionRef → Prop) (reached : broker.Reachable anyStep w)
    (idle : ∀ k, w.todo k = []) (declared : q < w.queue.size)
    (roused : (w.queue q).dispatcher = .top ∨ ∃ site, (w.queue q).dispatcher = .parked site true)
    (returning : ∀ c ∈ (w.queue q).consumers, returns (w.owner c)) :
    Inevitable (World.Moves returns) (fun v => (v.queue q).dispatcher.asleep = true) w ∧
    ∀ v, (broker.startingAt w).Reachable (World.Works returns) v → (v.queue q).dispatcher.asleep = true →
      ∃ handed : List (ConsumerRef × Message),
        handed.length = min (w.queue q).messages.length (w.room q) ∧
        (w.queue q).messages = handed.map Prod.snd ++ (v.queue q).messages ∧
        (v.queue q).log.delivered = (w.queue q).log.delivered ++ handed.map w.delivery ∧
        ∀ c ∈ (w.queue q).consumers,
          (v.consumer c).inflight = (w.consumer c).inflight + (handed.map Prod.fst).count c ∧
            (handed.map Prod.fst).count c ≤ (w.consumer c).room := by
  constructor
  · refine .of_wellFounded (I := (broker.startingAt w).Reachable (World.Works returns)) (wellFounded_moves returns)
      ?_ ?_ .init
    · rintro before after during ⟨label, works, stepped⟩
      exact during.step works stepped
    · intro v during
      obtain ⟨alone, handed, handing⟩ := handing_of_reachable reached idle roused during
      exact handing.moves alone declared returning
  · intro v during asleep
    obtain ⟨-, handed, handing⟩ := handing_of_reachable reached idle roused during
    obtain ⟨site, parked⟩ := Dispatcher.asleep_iff.1 asleep
    refine ⟨handed, handing.length_of_asleep parked, handing.messages, ?_, fun c member =>
      ⟨handing.inflight c member, handing.within c member⟩⟩
    have delivered := handing.delivered
    rw [parked] at delivered
    simpa [Dispatcher.delivery] using delivered

/-- A consumer that may have ten messages in flight, and eleven messages that nobody has dispatched yet. -/
def backlog : World := broker.replay anyStep (topology ++ consuming ++ (List.replicate 11 (publishing [7])).flatten)

/-- The dispatcher alone, until it finds its only consumer full. -/
def drainedBacklog : World :=
  (broker.startingAt backlog).replay (World.Works fun _ => True)
    ((List.replicate 10 (dispatching 0 0 ++ [.written 0])).flatten ++ [.lock 0, .probe 0 0, .exhausted 0, .wait 0])

theorem dispatcher_drains_backlog :
    Inevitable (World.Moves fun _ => True) (fun v => (v.queue 0).dispatcher.asleep = true) backlog ∧
      (drainedBacklog.queue 0).messages.length = 1 ∧ ∃ handed : List (ConsumerRef × Message), handed.length = 10 ∧
      (drainedBacklog.queue 0).log.delivered = (backlog.queue 0).log.delivered ++ handed.map backlog.delivery := by
  have asleep : (drainedBacklog.queue 0).dispatcher.asleep = true := by decide +kernel
  have idle : ∀ k, backlog.todo k = [] :=
    backlog.connection.forall_cell (P := fun conn => conn.todo = []) rfl (by decide +kernel)
  have size : min (backlog.queue 0).messages.length (backlog.room 0) = 10 := by decide +kernel
  have declared : 0 < backlog.queue.size := by decide +kernel
  have fresh : (backlog.queue 0).dispatcher = .top := by decide +kernel
  have reached : broker.Reachable anyStep backlog := .of_replay _
  obtain ⟨sleeps, drained⟩ := dispatcher_drains (fun _ => True) reached idle declared (.inl fresh) fun _ _ => trivial
  obtain ⟨handed, count, -, delivered, -⟩ := drained drainedBacklog (.of_replay _) asleep
  exact ⟨sleeps, by decide +kernel, handed, count.trans size, delivered⟩

end GolangMQ.Model
