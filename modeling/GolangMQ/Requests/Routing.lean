import GolangMQ.Requests.Completion

/-! # Routing is the history of bindings

An exchange has its own maps of queue pointers, apart from `Broker.queues`. `Routed` ties them to the
history of the `BindQueue` calls that have succeeded: an exchange has a queue under a key and a name when
that binding is in the history, and the pointer is the one `Broker.queues` has for the name. What `Publish`
enqueues is then read off the history.
-/

namespace GolangMQ.Model

open Machine

/-- The names in a call of `BindQueue`. -/
structure Binding where
  exchange : String
  queue : String
  routingKey : String
deriving DecidableEq, Repr

/-- The call of `BindQueue` that a step completes; it has succeeded when it comes to `Exchange.bind`. -/
def World.binds (w : World) : Label → List Binding
  | .run k _ =>
    match w.todo k with
    | .bind e q routingKey :: _ => [⟨(w.exchange e).name, (w.queue q).name, routingKey⟩]
    | _ => []
  | _ => []

variable {w w' : World} {label : Label} {k : ConnectionRef} {choice : Choice} {first : Section}
  {next rest : List Section} {history : List Binding} {e : ExchangeRef} {q : QueueRef} {event : Publish}

namespace Exchange

/-- The queue that an exchange has for a key and a name. -/
def target (exchange : Exchange) (routingKey name : String) : Option QueueRef :=
  (exchange.bindings.lookup routingKey).bind (·.lookup name)

theorem target_bind (exchange : Exchange) (queue : QueueRef) (bound name routingKey key : String) :
    (exchange.bind queue bound routingKey).target key name =
      if key = routingKey ∧ name = bound then some queue else exchange.target key name := by
  unfold target bind
  by_cases same : key = routingKey
  · subst same
    rw [AList.lookup_insert, Option.bind_some]
    by_cases here : name = bound
    · subst here
      simp [AList.lookup_insert]
    · rw [AList.lookup_insert_ne here, if_neg fun both => here both.2]
      cases exchange.bindings.lookup key <;> rfl
  · rw [AList.lookup_insert_ne same, if_neg fun both => same both.1]

theorem mem_getQueues_iff (exchange : Exchange) (routingKey : String) :
    q ∈ exchange.getQueues routingKey ↔ ∃ name, exchange.target routingKey name = some q := by
  rw [mem_getQueues]
  constructor
  · rintro ⟨queues, found, member⟩
    obtain ⟨name, stored⟩ := AList.mem_values_iff.1 member
    exact ⟨name, Option.bind_eq_some_iff.2 ⟨queues, found, stored⟩⟩
  · rintro ⟨name, stored⟩
    obtain ⟨queues, found, stored⟩ := Option.bind_eq_some_iff.1 stored
    exact ⟨queues, found, AList.mem_values_iff.2 ⟨name, stored⟩⟩

/-- The loop over the bindings finds one map at most. -/
private theorem getQueues_eq (exchange : Exchange) (routingKey : String) :
    exchange.getQueues routingKey = ((exchange.bindings.lookup routingKey).map AList.values).getD [] := by
  obtain ⟨_, ⟨entries, distinct⟩⟩ := exchange
  unfold getQueues AList.lookup
  dsimp only
  induction entries with
  | nil => rfl
  | cons entry others ih =>
    obtain ⟨key, queues⟩ := entry
    obtain ⟨fresh, distinct⟩ := List.nodupKeys_cons.1 distinct
    rw [List.flatMap_cons]
    by_cases same : key = routingKey
    · subst same
      have none : others.flatMap (fun entry => if entry.1 = key then entry.2.values else []) = [] := by
        refine List.flatMap_eq_nil_iff.2 fun other member => if_neg ?_
        rintro rfl
        exact fresh (List.mem_keys_of_mem (s := other) member)
      rw [none, if_pos rfl, List.append_nil, List.dlookup_cons_eq]
      rfl
    · rw [if_neg same, List.nil_append, ih distinct, List.dlookup_cons_ne _ _ (Ne.symm same)]

end Exchange

/-- The exchanges stand for the history of bindings. -/
structure Routed (w : World) (history : List Binding) : Prop where
  queueNames : ∀ name q, w.queues.lookup name = some q → (w.queue q).name = name
  exchangeNames : ∀ name e, w.exchanges.lookup name = some e → e < w.exchange.size ∧ (w.exchange e).name = name
  exchanges : ∀ e < w.exchange.size, w.exchanges.lookup (w.exchange e).name = some e
  bound : ∀ e < w.exchange.size, ∀ key name q, (w.exchange e).target key name = some q ↔
    ⟨(w.exchange e).name, name, key⟩ ∈ history ∧ w.queues.lookup name = some q
  declared : ∀ binding ∈ history, binding.exchange ∈ w.exchanges ∧ binding.queue ∈ w.queues
  pending : ∀ k e q key, .bind e q key ∈ w.todo k → e < w.exchange.size

namespace Routed

private theorem init : Routed broker.init [] where
  queueNames _ _ found := absurd found (by simp [broker])
  exchangeNames _ _ found := absurd found (by simp [broker])
  exchanges _ inside := absurd inside (Nat.not_lt_zero _)
  bound _ inside := absurd inside (Nat.not_lt_zero _)
  declared _ member := absurd member List.not_mem_nil
  pending _ _ _ _ member := absurd member List.not_mem_nil

/-- A step that leaves the maps and the exchanges alone. -/
theorem kept (routed : Routed w history) (refs : Refs w) (stepped : w.step? label = some w')
    (queues : w'.queues = w.queues)
    (exchanges : w'.exchanges = w.exchanges) (exchange : w'.exchange = w.exchange)
    (pending : ∀ k e q key, .bind e q key ∈ w'.todo k → e < w.exchange.size) : Routed w' history := by
  have grows := World.grows_of_step stepped
  refine ⟨fun name q found => ?_, ?_, ?_, ?_, ?_, ?_⟩
  · rw [queues] at found
    rw [grows.store.name q (refs.queues name q found)]
    exact routed.queueNames name q found
  · rw [exchanges, exchange]
    exact routed.exchangeNames
  · rw [exchanges, exchange]
    exact routed.exchanges
  · rw [exchange, queues]
    exact routed.bound
  · rw [exchanges, queues]
    exact routed.declared
  · rw [exchange]
    exact pending

end Routed

/-- What a section leads to comes to `Exchange.bind` only from `BindQueue`, with an exchange that exists. -/
private theorem bind_of_runs (runs : Runs w k choice first w' next) {key : String} (member : .bind e q key ∈ next) :
    ∃ exchange queue, first = .bindQueue exchange queue key ∧ w.exchanges.lookup exchange = some e ∧
      w.queues.lookup queue = some q := by
  cases runs with
  | @bindQueue exchange queue _ _ _ known declared =>
    cases List.mem_singleton.1 member
    exact ⟨exchange, queue, rfl, known, declared⟩
  | @publishUnknown event report => cases report <;> simp at member
  | nack =>
    have spares := spares_afterNack w _ _ _ _ member
    contradiction
  | _ => simp at member

private theorem World.not_bind_handle (w : World) (k : ConnectionRef) (env : Envelope) (e : ExchangeRef) (q : QueueRef)
    (key : String) : .bind e q key ∉ (w.handle k env).2 := by
  intro member
  cases World.handled_of_mem member with
  | routed found routed => cases routed

theorem World.routing_handle (w : World) (k : ConnectionRef) (env : Envelope) : (w.handle k env).1.queues = w.queues ∧
    (w.handle k env).1.exchanges = w.exchanges ∧ (w.handle k env).1.exchange = w.exchange :=
  w.handle_cases k env (P := fun v _ => v.queues = w.queues ∧ v.exchanges = w.exchanges ∧ v.exchange = w.exchange)
    (fun _ _ => ⟨rfl, rfl, rfl⟩) (fun _ => ⟨rfl, rfl, rfl⟩) (fun _ => ⟨rfl, rfl, rfl⟩) fun _ _ => ⟨rfl, rfl, rfl⟩

/-- Whatever has been declared stays where it is. -/
theorem World.lookup_of_step (stepped : w.step? label = some w') :
    (∀ name q, w.queues.lookup name = some q → w'.queues.lookup name = some q) ∧
      ∀ name e, w.exchanges.lookup name = some e → w'.exchanges.lookup name = some e := by
  have kept (queues : w'.queues = w.queues) (exchanges : w'.exchanges = w.exchanges) :
      (∀ name q, w.queues.lookup name = some q → w'.queues.lookup name = some q) ∧
        ∀ name e, w.exchanges.lookup name = some e → w'.exchanges.lookup name = some e := by
    rw [queues, exchanges]
    exact ⟨fun _ _ found => found, fun _ _ found => found⟩
  cases steps_of_step stepped with
  | accept | disconnect => exact kept rfl rfl
  | @request k env =>
    obtain ⟨queues, exchanges, -⟩ := w.routing_handle k env
    exact kept queues exchanges
  | @run k choice first rest next middle inside waits runs rests =>
    cases runs with
    | @declareQueue name dlx key fresh =>
      refine ⟨fun name' q found => ?_, fun _ _ found => found⟩
      have other : name' ≠ name := by
        rintro rfl
        exact fresh (AList.lookup_isSome.1 (found ▸ rfl))
      exact (AList.lookup_insert_ne other).trans found
    | @declareExchange name fresh =>
      refine ⟨fun _ _ found => found, fun name' e found => ?_⟩
      have other : name' ≠ name := by
        rintro rfl
        exact fresh (AList.lookup_isSome.1 (found ▸ rfl))
      exact (AList.lookup_insert_ne other).trans found
    | _ => exact kept rfl rfl
  | dispatch ofDispatcher aligned => exact kept aligned.queues aligned.exchanges

/-- Every pending `Exchange.bind` has an exchange that exists. -/
theorem Routed.pending_step (routed : Routed w history) (stepped : w.step? label = some w') {j : ConnectionRef}
    {key : String}
    (member : .bind e q key ∈ w'.todo j) : e < w.exchange.size := by
  by_cases runs : ∃ choice, label = .run j choice
  · obtain ⟨choice, rfl⟩ := runs
    cases World.steps_of_step stepped with
    | @run _ _ first rest next middle inside pending runs rests =>
      rw [rests.todo_setTodo inside, Function.update_self] at member
      rcases List.mem_append.1 member with new | old
      · obtain ⟨exchange, queue, -, known, -⟩ := bind_of_runs runs new
        exact (routed.exchangeNames exchange e known).1
      · exact routed.pending j e q key (by rw [pending]; exact List.mem_cons_of_mem _ old)
    | dispatch ofDispatcher => contradiction
  · obtain ⟨effect, -, happens⟩ := World.happens_of_step stepped
    rcases World.todo_of_other happens (j := j) (fun choice same => runs ⟨choice, same⟩) with
      todo | ⟨env, -, todo⟩ | ⟨-, todo⟩
    · exact routed.pending j e q key (todo ▸ member)
    · rw [todo] at member
      exact absurd member (w.not_bind_handle j env e q key)
    · rw [todo] at member
      simp at member

namespace Routed

/-- `DeclareQueue` with a new name. -/
theorem declareQueue (routed : Routed w history) (refs : Refs w) (stepped : w.step? label = some w') {name : String}
    (fresh : name ∉ w.queues) (queues : w'.queues = w.queues.insert name w.queue.size)
    (new : (w'.queue w.queue.size).name = name) (exchanges : w'.exchanges = w.exchanges)
    (exchange : w'.exchange = w.exchange) : Routed w' history := by
  have grows := World.grows_of_step stepped
  refine ⟨fun name' q found => ?_, ?_, ?_, fun e inside key name' q => ?_, fun binding member => ?_,
    fun k e q key member => ?_⟩
  · rw [queues] at found
    by_cases same : name' = name
    · subst same
      rw [AList.lookup_insert] at found
      cases found
      exact new
    · rw [AList.lookup_insert_ne same] at found
      rw [grows.store.name q (refs.queues name' q found)]
      exact routed.queueNames name' q found
  · rw [exchanges, exchange]
    exact routed.exchangeNames
  · rw [exchanges, exchange]
    exact routed.exchanges
  · rw [exchange] at inside ⊢
    rw [routed.bound e inside key name' q, queues]
    refine and_congr_right fun member => ?_
    have other : name' ≠ name := by
      rintro rfl
      exact fresh (routed.declared _ member).2
    rw [AList.lookup_insert_ne other]
  · obtain ⟨known, bound⟩ := routed.declared binding member
    rw [exchanges, queues]
    exact ⟨known, (AList.mem_insert _).2 (.inr bound)⟩
  · rw [exchange]
    exact routed.pending_step stepped member

/-- `DeclareExchange` with a new name. -/
theorem declareExchange (routed : Routed w history) (refs : Refs w) (stepped : w.step? label = some w') {name : String}
    (fresh : name ∉ w.exchanges) (queues : w'.queues = w.queues)
    (exchanges : w'.exchanges = w.exchanges.insert name w.exchange.size)
    (exchange : w'.exchange = w.exchange.alloc { name }) : Routed w' history := by
  have grows := World.grows_of_step stepped
  have new : w'.exchange w.exchange.size = { name } := by
    rw [exchange]
    exact w.exchange.cell_alloc_self _
  have old (e : ExchangeRef) (inside : e < w.exchange.size) : w'.exchange e = w.exchange e := by
    rw [exchange]
    exact w.exchange.cell_alloc_of_ne _ (Nat.ne_of_lt inside)
  have split (e : ExchangeRef) (inside : e < w'.exchange.size) : e < w.exchange.size ∨ e = w.exchange.size := by
    rw [exchange] at inside
    exact Nat.lt_or_eq_of_le (Nat.lt_succ_iff.1 inside)
  have size : w'.exchange.size = w.exchange.size + 1 := by rw [exchange]; rfl
  refine ⟨fun name' q found => ?_, fun name' e found => ?_, fun e inside => ?_, fun e inside key name' q => ?_,
    fun binding member => ?_, fun k e q key member => ?_⟩
  · rw [queues] at found
    rw [grows.store.name q (refs.queues name' q found)]
    exact routed.queueNames name' q found
  · rw [exchanges] at found
    by_cases same : name' = name
    · subst same
      rw [AList.lookup_insert] at found
      cases found
      exact ⟨size ▸ Nat.lt_succ_self _, by rw [new]⟩
    · rw [AList.lookup_insert_ne same] at found
      obtain ⟨inside, named⟩ := routed.exchangeNames name' e found
      exact ⟨size ▸ Nat.lt_succ_of_lt inside, by rw [old e inside, named]⟩
  · rw [exchanges]
    rcases split e inside with inside | rfl
    · have other : (w.exchange e).name ≠ name := by
        rintro rfl
        exact fresh (AList.lookup_isSome.1 (by rw [routed.exchanges e inside]; rfl))
      rw [old e inside, AList.lookup_insert_ne other]
      exact routed.exchanges e inside
    · rw [new, AList.lookup_insert]
  · rw [queues]
    rcases split e inside with inside | rfl
    · rw [old e inside]
      exact routed.bound e inside key name' q
    · rw [new]
      refine iff_of_false (by simp [Exchange.target]) fun ⟨member, _⟩ => fresh (routed.declared _ member).1
  · obtain ⟨known, bound⟩ := routed.declared binding member
    rw [exchanges, queues]
    exact ⟨(AList.mem_insert _).2 (.inr known), bound⟩
  · rw [size]
    exact Nat.lt_succ_of_lt (routed.pending_step stepped member)

/-- `Exchange.bind`. -/
theorem bind (routed : Routed w history) (refs : Refs w) (named : Named w) (stepped : w.step? label = some w')
    {key : String}
    (inside : e < w.exchange.size) (known : q < w.queue.size) (queues : w'.queues = w.queues)
    (exchanges : w'.exchanges = w.exchanges)
    (exchange : w'.exchange = w.exchange.modify e (·.bind q (w.queue q).name key)) :
    Routed w' (history ++ [⟨(w.exchange e).name, (w.queue q).name, key⟩]) := by
  have grows := World.grows_of_step stepped
  have names (e' : ExchangeRef) : (w'.exchange e').name = (w.exchange e').name := by
    rw [exchange]
    exact w.exchange.observe_modify Exchange.name e (·.bind q (w.queue q).name key) rfl e'
  have size : w'.exchange.size = w.exchange.size := by rw [exchange]; rfl
  refine ⟨fun name q found => ?_, fun name e found => ?_, fun e inside => ?_, fun e' inside' key' name q' => ?_,
    fun binding member => ?_, fun k e q key member => ?_⟩
  · rw [queues] at found
    rw [grows.store.name q (refs.queues name q found)]
    exact routed.queueNames name q found
  · rw [exchanges] at found
    rw [size, names]
    exact routed.exchangeNames name e found
  · rw [size] at inside
    rw [exchanges, names]
    exact routed.exchanges e inside
  · rw [size] at inside'
    rw [names, queues, List.mem_append, List.mem_singleton]
    by_cases same : e' = e
    · subst same
      rw [exchange, w.exchange.cell_modify_self _ inside, Exchange.target_bind, Binding.mk.injEq]
      by_cases here : key' = key ∧ name = (w.queue q).name
      · obtain ⟨rfl, rfl⟩ := here
        rw [if_pos ⟨rfl, rfl⟩, named q known]
        simp
      · rw [if_neg here, routed.bound e' inside' key' name q']
        simp only [true_and, and_comm (a := name = _), here, or_false]
    · have other : (w.exchange e').name ≠ (w.exchange e).name := by
        intro equal
        have found := routed.exchanges e' inside'
        rw [equal, routed.exchanges e inside] at found
        exact same (Option.some.inj found).symm
      rw [exchange, w.exchange.cell_modify_of_ne _ same, routed.bound e' inside' key' name q']
      simp [other]
  · rw [exchanges, queues]
    rcases List.mem_append.1 member with old | new
    · exact routed.declared binding old
    · rw [List.mem_singleton.1 new]
      exact ⟨AList.lookup_isSome.1 (by rw [routed.exchanges e inside]; rfl),
        AList.lookup_isSome.1 (by rw [named q known]; rfl)⟩
  · rw [size]
    exact routed.pending_step stepped member

private theorem step (routed : Routed w history) (refs : Refs w) (named : Named w) (stepped : w.step? label = some w') :
    Routed w' (history ++ w.binds label) := by
  have pending {j : ConnectionRef} {e : ExchangeRef} {q : QueueRef} {key : String}
    (member : .bind e q key ∈ w'.todo j) :=
    routed.pending_step stepped member
  have plain (quiet : w.binds label = []) (queues : w'.queues = w.queues) (exchanges : w'.exchanges = w.exchanges)
      (exchange : w'.exchange = w.exchange) : Routed w' (history ++ w.binds label) := by
    rw [quiet, List.append_nil]
    exact routed.kept refs stepped queues exchanges exchange fun _ _ _ _ => pending
  cases World.steps_of_step stepped with
  | accept | disconnect => exact plain rfl rfl rfl rfl
  | @request k env =>
    obtain ⟨queues, exchanges, exchange⟩ := w.routing_handle k env
    exact plain rfl queues exchanges exchange
  | @run k choice first rest next middle inside waits runs rests =>
    cases runs with
    | @declareQueue name dlx key fresh =>
      rw [World.binds, waits, List.append_nil]
      refine routed.declareQueue refs stepped fresh rfl ?_ rfl rfl
      exact congrArg Queue.name (w.queue.cell_alloc_self _)
    | @declareExchange name fresh =>
      rw [World.binds, waits, List.append_nil]
      exact routed.declareExchange refs stepped fresh rfl rfl rfl
    | @bind e q key =>
      rw [World.binds, waits]
      have head : .bind e q key ∈ w.todo k := by rw [waits]; exact List.mem_cons_self ..
      exact routed.bind refs named stepped (routed.pending k e q key head)
        ((refs.pending k _ head).queues q (by simp)) rfl rfl rfl
    | _ => exact plain (by rw [World.binds, waits]) rfl rfl rfl
  | dispatch ofDispatcher aligned =>
    refine plain ?_ aligned.queues aligned.exchanges aligned.exchange
    cases label <;> first | contradiction | rfl

end Routed

/-- The broker with the history of the bindings made so far. -/
def bindingBroker : Machine (World × List Binding) Label := broker.recording World.binds

theorem routed_of_reachable (reached : bindingBroker.Reachable anyStep (w, history)) : Routed w history := by
  refine reached.invariant (P := fun state => Routed state.1 state.2) .init ?_
  intro source target label before routed _ stepped
  obtain ⟨next, moved, rfl⟩ := Option.map_eq_some_iff.1 stepped
  have reached := before.of_recording
  exact routed.step (wellformed_of_reachable reached).toRefs (named_of_reachable reached) moved

/-- Every state has a history. -/
theorem exists_history (reached : broker.Reachable anyStep w) :
    ∃ history, bindingBroker.Reachable anyStep (w, history) := by
  have reached : (broker.startingAt broker.init).Reachable anyStep w := reached
  exact reached.recorded World.binds []

/-- What `Publish` does to one queue. -/
def Queue.accept (queue : Queue) (entry : Entry) : Queue := (queue.takeTag.enqueue entry).signal

@[simp] theorem Queue.messages_accept (queue : Queue) (entry : Entry) :
    (queue.accept entry).messages = queue.messages ++ [entry.message] := rfl

@[simp] theorem Queue.name_accept (queue : Queue) (entry : Entry) : (queue.accept entry).name = queue.name := rfl

/-- Each of these queues has accepted the event, and the others are as they were. -/
structure World.Accepts (w w' : World) (refs : List QueueRef) (event : Publish) : Prop where
  accepted : ∀ q ∈ refs, ∃ entry : Entry, entry.message = w.stamped q event ∧ w'.queue q = (w.queue q).accept entry
  others : ∀ q ∉ refs, w'.queue q = w.queue q

private theorem World.Accepts.messages {refs : List QueueRef} (accepts : w.Accepts w' refs event) (q : QueueRef) :
    (w'.queue q).messages = (w.queue q).messages ++ if q ∈ refs then [w.stamped q event] else [] := by
  by_cases member : q ∈ refs
  · obtain ⟨entry, stamped, accepted⟩ := accepts.accepted q member
    rw [if_pos member, accepted, Queue.messages_accept, stamped]
  · rw [if_neg member, List.append_nil, accepts.others q member]

/-- One round of the loop of `Publish`. -/
private theorem World.serves_takeTag (serves : w.Serves k w') (pending : w.todo k = .takeTag q event :: rest)
    (inside : q < w.queue.size) :
    ∃ middle : World, middle.Serves k w' ∧ middle.todo k = rest ∧ middle.queue.size = w.queue.size ∧
      w.Accepts middle [q] event ∧ ∃ enqueued, middle.metrics = { w.metrics with enqueued } := by
  obtain ⟨_, _, _, runs, todo, serves⟩ := serves.cons_inv pending
  cases runs with
  | takeTag =>
    obtain ⟨_, _, _, runs, todo, serves⟩ := serves.cons_inv todo
    cases runs with
    | enqueue =>
      obtain ⟨_, _, _, runs, todo, serves⟩ := serves.cons_inv todo
      cases runs with
      | signal =>
        let call := ((w.apply (.takeTag q)).setTodo k ([.enqueue q (w.stamped q event)] ++ rest)).currentCall k
        let tagged := w.queue.modify q Queue.takeTag
        let appended := tagged.modify q (·.enqueue ⟨k, call, w.stamped q event⟩)
        refine ⟨_, serves, todo, rfl, ⟨fun p here => ?_, fun other elsewhere => ?_⟩, _, rfl⟩
        · obtain rfl := List.mem_singleton.1 here
          have first : tagged p = (w.queue p).takeTag := w.queue.cell_modify_self _ inside
          have second : appended p = (tagged p).enqueue ⟨k, call, w.stamped p event⟩ := tagged.cell_modify_self _ inside
          have third : appended.modify p Queue.signal p = (appended p).signal := appended.cell_modify_self _ inside
          rw [second, first] at third
          exact ⟨⟨k, call, w.stamped p event⟩, rfl, third⟩
        · have differs : other ≠ q := fun same => elsewhere (List.mem_singleton.2 same)
          have first : tagged other = w.queue other := w.queue.cell_modify_of_ne _ differs
          have second : appended other = tagged other := tagged.cell_modify_of_ne _ differs
          exact (appended.cell_modify_of_ne _ differs).trans (second.trans first)

/-- The loop of `Publish` over the queues that an exchange has for a key. -/
private theorem World.serves_takeTags {refs : List QueueRef} (serves : w.Serves k w')
    (pending : w.todo k = refs.map (Section.takeTag · event) ++ rest) (once : refs.Nodup)
    (inside : ∀ q ∈ refs, q < w.queue.size) :
    ∃ middle : World, middle.Serves k w' ∧ middle.todo k = rest ∧ w.Accepts middle refs event ∧
      ∃ enqueued, middle.metrics = { w.metrics with enqueued } := by
  induction refs generalizing w with
  | nil => exact ⟨w, serves, pending, ⟨fun q none => absurd none List.not_mem_nil, fun q _ => rfl⟩, _, rfl⟩
  | cons first others ih =>
    obtain ⟨absent, once⟩ := List.nodup_cons.1 once
    obtain ⟨next, serves, todo, size, accepts, _, counted⟩ :=
      World.serves_takeTag serves pending (inside first (List.mem_cons_self ..))
    obtain ⟨middle, serves, todo, later, _, counted'⟩ :=
      ih serves todo once fun q member => size ▸ inside q (List.mem_cons_of_mem _ member)
    rw [counted] at counted'
    refine ⟨middle, serves, todo, ⟨fun q member => ?_, fun q absent => ?_⟩, _, counted'⟩
    · rcases List.mem_cons.1 member with rfl | old
      · obtain ⟨entry, stamped, accepted⟩ := accepts.accepted q (List.mem_singleton_self q)
        exact ⟨entry, stamped, (later.others q absent).trans accepted⟩
      · have same := accepts.others q fun here => absent (List.mem_singleton.1 here ▸ old)
        obtain ⟨entry, stamped, accepted⟩ := later.accepted q old
        rw [World.stamped, same] at stamped
        exact ⟨entry, stamped, same ▸ accepted⟩
    · obtain ⟨differs, absent⟩ := not_or.1 (mt List.mem_cons.2 absent)
      rw [later.others q absent, accepts.others q fun here => differs (List.mem_singleton.1 here)]

/-- `Publish` to a declared exchange, without interruption. -/
theorem World.serves_publish {report : Option Header} (serves : w.Serves k w')
    (pending : w.todo k = .publish event report :: rest) (declared : w.exchanges.lookup event.exchange = some e)
    (once : ((w.exchange e).getQueues event.routingKey).Nodup)
    (inside : ∀ q ∈ (w.exchange e).getQueues event.routingKey, q < w.queue.size) :
    ∃ middle : World, middle.Serves k w' ∧ middle.todo k = rest ∧
      w.Accepts middle ((w.exchange e).getQueues event.routingKey) event ∧
      ∃ enqueued, middle.metrics = { w.metrics with
        published := bump w.metrics.published event.exchange
        publishUnroutable := if (w.exchange e).getQueues event.routingKey = [] then
            bump w.metrics.publishUnroutable event.exchange
          else w.metrics.publishUnroutable
        enqueued } := by
  obtain ⟨_, _, _, runs, todo, serves⟩ := serves.cons_inv pending
  cases runs with
  | publishUnknown missing =>
    rw [declared] at missing
    contradiction
  | @publish _ _ e' found =>
    obtain rfl : e = e' := Option.some.inj (declared.symm.trans found)
    obtain ⟨_, _, _, runs, todo, serves⟩ := serves.cons_inv todo
    cases runs with
    | unroutable none =>
      have none : (w.exchange e).getQueues event.routingKey = [] := none
      refine ⟨_, serves, todo, ⟨fun q member => ?_, fun _ _ => rfl⟩, w.metrics.enqueued, ?_⟩
      · rw [none] at member
        exact absurd member List.not_mem_nil
      · rw [if_pos none]
        rfl
    | @route _ _ chosen all =>
      have all : List.Perm _ ((w.exchange e).getQueues event.routingKey) := all
      obtain ⟨middle, serves, todo, accepts, enqueued, counted⟩ := World.serves_takeTags serves todo
        (all.nodup_iff.2 once) fun q member => inside q (all.mem_iff.1 member)
      refine ⟨middle, serves, todo, ⟨fun q member => ?_, fun q absent => ?_⟩, enqueued, counted.trans ?_⟩
      · exact accepts.accepted q (all.mem_iff.2 member)
      · exact accepts.others q (mt all.mem_iff.1 absent)
      · have some : (w.exchange e).getQueues event.routingKey ≠ [] := fun none =>
          chosen (List.perm_nil.1 (none ▸ all))
        rw [if_neg some]
        rfl

/-- An exchange has every queue once. -/
theorem Routed.nodup_getQueues (routed : Routed w history) (inside : e < w.exchange.size) (routingKey : String) :
    ((w.exchange e).getQueues routingKey).Nodup := by
  rw [Exchange.getQueues_eq]
  cases found : (w.exchange e).bindings.lookup routingKey with
  | none => exact List.nodup_nil
  | some queues =>
    have keyed : AList.KeyedBy (fun q => (w.queue q).name) queues := .of_lookup fun name q stored => by
      have target : (w.exchange e).target routingKey name = some q := by rw [Exchange.target, found]; exact stored
      exact routed.queueNames name q ((routed.bound e inside routingKey name q).1 target).2
    exact keyed.nodup_values

/-- `Publish` to a declared exchange enqueues on the queues that have been bound to it, and on no other. -/
theorem Routed.serves_publish (routed : Routed w history) (wellformed : Wellformed w) (named : Named w)
    {report : Option Header} (serves : w.Serves k w') (pending : w.todo k = [.publish event report])
    (declared : event.exchange ∈ w.exchanges) (inside : q < w.queue.size) :
    (w'.queue q).messages = (w.queue q).messages ++
      if ⟨event.exchange, (w.queue q).name, event.routingKey⟩ ∈ history then [w.stamped q event] else [] := by
  obtain ⟨e, found⟩ := Option.isSome_iff_exists.1 (AList.lookup_isSome.2 declared)
  obtain ⟨known, name⟩ := routed.exchangeNames _ e found
  have bound : q ∈ (w.exchange e).getQueues event.routingKey ↔
      ⟨event.exchange, (w.queue q).name, event.routingKey⟩ ∈ history := by
    rw [Exchange.mem_getQueues_iff, ← name]
    constructor
    · rintro ⟨queue, target⟩
      obtain ⟨member, found⟩ := (routed.bound e known event.routingKey queue q).1 target
      rwa [routed.queueNames queue q found]
    · intro member
      exact ⟨_, (routed.bound e known event.routingKey _ q).2 ⟨member, named q inside⟩⟩
  obtain ⟨middle, serves, todo, accepts, -⟩ := World.serves_publish serves pending found
    (routed.nodup_getQueues known _) (wellformed.bindings e event.routingKey)
  rw [serves.nil_inv todo, accepts.messages q]
  simp only [bound]

/-- `DeclareQueue` and `DeclareExchange`. -/
def Section.declares : Section → Bool
  | .declareQueue .. | .declareExchange _ => true
  | _ => false

/-- Routing in a state, given the bindings made so far. -/
structure World.Routes (w : World) (history : List Binding) : Prop where
  /-- `BindQueue` comes to the exchange and the queue of these names, or fails for want of one. -/
  binds : ∀ k choice exchange queue key rest, w.todo k = .bindQueue exchange queue key :: rest →
    ∃ w', w.step? (.run k choice) = some w' ∧
      ((∃ e q, (w.exchange e).name = exchange ∧ (w.queue q).name = queue ∧ w'.todo k = .bind e q key :: rest) ∨
        (exchange ∉ w.exchanges ∨ queue ∉ w.queues) ∧ w'.todo k = rest)
  /-- `Publish` on a declared exchange returns, and enqueues one message on each queue bound to the key. -/
  publishes : ∀ k event report, w.todo k = [.publish event report] → event.exchange ∈ w.exchanges →
    (k < w.connection.size → w.Unlocked → ∃ w', w.Serves k w') ∧
      ∀ w', w.Serves k w' → ∀ q < w.queue.size, (w'.queue q).messages = (w.queue q).messages ++
        if ⟨event.exchange, (w.queue q).name, event.routingKey⟩ ∈ history then [w.stamped q event] else []
  /-- `Publish` on an undeclared exchange returns the error and enqueues nothing. -/
  refuses : ∀ k choice event report rest, w.todo k = .publish event report :: rest → event.exchange ∉ w.exchanges →
    ∃ w', w.step? (.run k choice) = some w' ∧ w'.toStore = w.toStore ∧ w'.todo k =
      (report.map fun header =>
        Section.reply ⟨header, .error (.broker (.publishExchangeNotFound event.exchange))⟩).toList ++ rest
  /-- Declaring keeps every queue, every exchange and both maps. -/
  redeclares : ∀ k choice first rest, w.todo k = first :: rest → first.declares = true →
    ∃ w', w.step? (.run k choice) = some w' ∧ (∀ q < w.queue.size, w'.queue q = w.queue q) ∧
      (∀ e < w.exchange.size, w'.exchange e = w.exchange e) ∧
      (∀ name q, w.queues.lookup name = some q → w'.queues.lookup name = some q) ∧
      ∀ name e, w.exchanges.lookup name = some e → w'.exchanges.lookup name = some e
  /-- A binding leads to the queue that has its name. -/
  agrees : ∀ exchange e, w.exchanges.lookup exchange = some e → ∀ key queues name q,
    (w.exchange e).bindings.lookup key = some queues → queues.lookup name = some q → w.queues.lookup name = some q

theorem World.steps_section (pending : w.todo k = first :: rest) (ran : w.runSection k choice first = some (w', next)) :
    w.step? (.run k choice) = some (w'.setTodo k (next ++ rest)) ∧
      (w'.setTodo k (next ++ rest)).todo k = next ++ rest := by
  have stepped : w.step? (.run k choice) = some (w'.setTodo k (next ++ rest)) := by
    unfold World.todo at pending
    simp only [World.step?, pending, ran, Option.map_some]
  obtain ⟨_, _, _, _, _, _, _, inside⟩ := run_inv stepped
  refine ⟨stepped, ?_⟩
  rw [(rests_of_runSection ran).todo_setTodo inside, Function.update_self]

theorem World.missing_of_bindTargets {exchange queue : String} {error : BrokerError}
    (refused : w.bindTargets exchange queue = .error error) : exchange ∉ w.exchanges ∨ queue ∉ w.queues := by
  unfold World.bindTargets at refused
  split at refused <;> cases refused
  · next missing => exact .inl (AList.lookup_eq_none.1 missing)
  · next missing => exact .inr (AList.lookup_eq_none.1 missing)

/-- Declaring a name that is taken changes nothing; a new one gets a new object. -/
private theorem World.steps_declare (pending : w.todo k = first :: rest)
    (declares : first.declares = true) :
    ∃ w', w.step? (.run k choice) = some w' ∧ (∀ q < w.queue.size, w'.queue q = w.queue q) ∧
      (∀ e < w.exchange.size, w'.exchange e = w.exchange e) ∧
      (∀ name q, w.queues.lookup name = some q → w'.queues.lookup name = some q) ∧
      ∀ name e, w.exchanges.lookup name = some e → w'.exchanges.lookup name = some e := by
  obtain ⟨⟨middle, next⟩, ran⟩ : ∃ ran, w.runSection k choice first = some ran := by
    cases first <;> first | contradiction | exact ⟨_, rfl⟩
  obtain ⟨stepped, -⟩ := World.steps_section pending ran
  obtain ⟨queues, exchanges⟩ := World.lookup_of_step stepped
  refine ⟨_, stepped, fun q inside => ?_, fun e inside => ?_, queues, exchanges⟩
  · cases runs_of_runSection ran with
    | declareQueue => exact w.queue.cell_alloc_of_ne _ (Nat.ne_of_lt inside)
    | redeclareQueue | redeclareExchange | declareExchange => rfl
    | _ => contradiction
  · cases runs_of_runSection ran with
    | declareExchange => exact w.exchange.cell_alloc_of_ne _ (Nat.ne_of_lt inside)
    | redeclareQueue | redeclareExchange | declareQueue => rfl
    | _ => contradiction

/-- Routing is exactly the history of bindings. -/
theorem routing_is_history (reached : bindingBroker.Reachable anyStep (w, history)) : w.Routes history := by
  have routed := routed_of_reachable reached
  have forgotten := reached.of_recording
  have wellformed := wellformed_of_reachable forgotten
  have named := named_of_reachable forgotten
  refine ⟨fun k choice exchange queue key rest pending => ?_, fun k event report pending declared => ⟨?_, ?_⟩,
    fun k choice event report rest pending missing => ?_, fun k choice first rest pending declares => ?_, ?_⟩
  · cases found : w.bindTargets exchange queue with
    | error error =>
      have ran : w.runSection k choice (.bindQueue exchange queue key) = some (w, []) := by
        simp only [World.runSection, found]
      obtain ⟨stepped, todo⟩ := World.steps_section pending ran
      exact ⟨_, stepped, .inr ⟨World.missing_of_bindTargets found, todo⟩⟩
    | ok targets =>
      obtain ⟨e, q⟩ := targets
      have ran : w.runSection k choice (.bindQueue exchange queue key) = some (w, [.bind e q key]) := by
        simp only [World.runSection, found]
      obtain ⟨stepped, todo⟩ := World.steps_section pending ran
      obtain ⟨known, declared⟩ := World.bindTargets_ok found
      exact ⟨_, stepped, .inl ⟨e, q, (routed.exchangeNames exchange e known).2,
        routed.queueNames queue q declared, todo⟩⟩
  · exact fun inside unlocked => World.exists_serves inside unlocked
  · exact fun w' serves q inside => routed.serves_publish wellformed named serves pending declared inside
  · have missing := AList.lookup_eq_none.2 missing
    obtain ⟨⟨middle, next⟩, ran⟩ : ∃ ran, w.runSection k choice (.publish event report) = some ran := by
      simp only [World.runSection]
      split <;> exact ⟨_, rfl⟩
    obtain ⟨stepped, todo⟩ := World.steps_section pending ran
    cases runs_of_runSection ran with
    | publishUnknown => exact ⟨_, stepped, rfl, todo⟩
    | publish found =>
      rw [missing] at found
      contradiction
  · exact World.steps_declare pending declares
  · intro exchange e found key queues name q stored bound
    refine ((routed.bound e (routed.exchangeNames exchange e found).1 key name q).1 ?_).2
    rw [Exchange.target, stored]
    exact bound

/-- A message is to be published on that exchange. -/
def requested : List Label := topology ++ [.request 0 ⟨1, 0, false, .publish ⟨"ex", "key", [7]⟩⟩]

theorem routing_is_history_of_topology :
    let state := bindingBroker.replay anyStep requested
    state.2 = [⟨"ex", "q", "key"⟩] ∧ state.1.todo 0 = [.publish ⟨"ex", "key", [7]⟩ (some ⟨1, 0⟩)] ∧
      state.1.Routes state.2 := by
  have reached : bindingBroker.Reachable anyStep (bindingBroker.replay anyStep requested) := .of_replay _
  exact ⟨by decide +kernel, by decide +kernel, routing_is_history reached⟩

end GolangMQ.Model
