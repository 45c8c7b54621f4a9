import GolangMQ.Machine.Worklists
import GolangMQ.Requests.Provenance

/-! # What requests entitle the broker to do

Whatever a handler does, a request asked for it. A `Budget` makes that a bound: each request grants an amount, each
pending section costs some of it, and running a section spends what it costs or passes it on to the sections it
leads to. In every state, what has been spent and what is still pending stay within what has been granted. A budget
may be about a queue that is yet to be declared and bound, and `ok` is what is known of it in hindsight.

The first use is the `uint16` counter of delivery tags. A `Publish` takes one tag of each queue it routes to, and a
dead letter is published again; nothing else takes a tag. A queue is reached by way of the exchanges it is bound to.
-/

namespace GolangMQ.Model

open Machine

/-- Requests grant, pending sections cost, and the state of the queues shows what has been spent. -/
structure Budget (ok : World → List (ConnectionRef × Envelope) → Prop) (spent : Store → ℕ)
    (cost : Store → Section → ℕ) (grant : Envelope → ℕ) : Prop where
  earlier : ∀ {w w' : World} {label : Label} {asked : List (ConnectionRef × Envelope)}, w.step? label = some w' →
    ok w' (asked ++ w.asks label) → ok w asked
  start : spent broker.init.toStore = 0
  handled : ∀ (w : World) (k : ConnectionRef) (env : Envelope),
    ((w.handle k env).2.map (cost w.toStore)).sum ≤ grant env
  teardown : ∀ s, cost s .teardown = 0
  kept : ∀ {w w' : World} {label : Label}, broker.Reachable anyStep w → w.step? label = some w' →
    ∀ k, ∀ s ∈ w.todo k, cost w'.toStore s ≤ cost w.toStore s
  ran : ∀ {w w' : World} {asked : List (ConnectionRef × Envelope)} {k : ConnectionRef} {choice : Choice}
    {first : Section} {next : List Section}, askingBroker.Reachable anyStep (w, asked) → ok w asked →
      first ∈ w.todo k → Runs w k choice first w' next →
      spent w'.toStore + (next.map (cost w'.toStore)).sum ≤ spent w.toStore + cost w.toStore first
  dispatched : ∀ {w w' : World} {label : Label}, broker.Reachable anyStep w → label.ofDispatcher = true →
    w.step? label = some w' → spent w'.toStore ≤ spent w.toStore

namespace Budget

variable {ok : World → List (ConnectionRef × Envelope) → Prop} {spent : Store → ℕ} {cost : Store → Section → ℕ}
  {grant : Envelope → ℕ} {w w' : World} {label : Label} {asked : List (ConnectionRef × Envelope)}

/-- What is pending when the broker is in this state. -/
def pending (cost : Store → Section → ℕ) (w : World) : ℕ :=
  Worklists.price (cost w.toStore) w.todo w.connection.size

/-- One step spends no more than has been granted. -/
theorem step (budget : Budget ok spent cost grant) (recorded : askingBroker.Reachable anyStep (w, asked))
    (fits : ok w asked) (stepped : w.step? label = some w') :
    spent w'.toStore + pending cost w' ≤
      spent w.toStore + pending cost w + ((w.asks label).map fun ask => grant ask.2).sum := by
  have reached : broker.Reachable anyStep w := recorded.of_recording
  cases World.steps_of_step stepped with
  | accept =>
    obtain ⟨effect, store, happens⟩ := World.happens_of_step stepped
    cases happens with
    | accepted size todo =>
      have idle : w.todo w.connection.size = [] := by
        rw [World.todo, w.connection.beyond _ (Nat.le_refl _)]
        rfl
      rw [store, pending, size, todo, store, Store.apply, Worklists.price_succ _ idle]
      exact Nat.le_add_right _ _
  | @request k env alive idle =>
    obtain ⟨rests, kept, -⟩ := w.handle_spec k env
    have inside := World.inside_of_live alive
    have started := Worklists.price_start (cost w.toStore) inside idle (w.handle k env).2
    have granted := budget.handled w k env
    have after : pending cost ((w.handle k env).1.setTodo k (w.handle k env).2) =
        Worklists.price (cost w.toStore) (Function.update w.todo k (w.handle k env).2) w.connection.size := by
      rw [pending, rests.todo_setTodo inside]
      exact congrArg₂ (fun s n => Worklists.price (cost s) _ n) kept rests.size
    have unspent : spent ((w.handle k env).1.setTodo k (w.handle k env).2).toStore = spent w.toStore :=
      congrArg spent kept
    simp only [World.asks, List.map_cons, List.map_nil, List.sum_cons, List.sum_nil, Nat.add_zero]
    rw [after, unspent, started, pending]
    omega
  | @disconnect k alive idle =>
    have inside := World.inside_of_live alive
    have started := Worklists.price_start (cost w.toStore) inside idle [.teardown]
    have after : pending cost (w.setTodo k [.teardown]) =
        Worklists.price (cost w.toStore) (Function.update w.todo k [.teardown]) w.connection.size := by
      rw [pending, World.todo_setTodo w inside]
      rfl
    simp only [List.map_cons, List.map_nil, List.sum_cons, List.sum_nil, budget.teardown] at started
    simp only [World.asks, List.map_nil, List.sum_nil, Nat.add_zero]
    rw [after, started, pending]
    exact Nat.le_refl _
  | @run k choice first rest next middle inside head runs rests =>
    have paid := budget.ran recorded fits (head ▸ List.mem_cons_self ..) runs
    have taken := Worklists.price_take (cost w.toStore) inside head
    have pushed := Worklists.price_push (cost middle.toStore) w.todo inside next rest
    have after : pending cost (middle.setTodo k (next ++ rest)) =
        Worklists.price (cost middle.toStore) (Function.update w.todo k (next ++ rest)) w.connection.size := by
      rw [pending, rests.todo_setTodo inside]
      exact congrArg (Worklists.price (cost middle.toStore) _) rests.size
    -- The sections that stay cost no more than they did.
    have stay : Worklists.price (cost middle.toStore) (Function.update w.todo k rest) w.connection.size ≤
        Worklists.price (cost w.toStore) (Function.update w.todo k rest) w.connection.size := by
      refine Worklists.price_le fun j _ s member => budget.kept reached stepped j s ?_
      by_cases same : j = k
      · subst same
        rw [Function.update_self] at member
        exact head ▸ List.mem_cons_of_mem _ member
      · rwa [Function.update_of_ne same] at member
    have stored : (middle.setTodo k (next ++ rest)).toStore = middle.toStore := rfl
    simp only [World.asks, List.map_nil, List.sum_nil, Nat.add_zero]
    rw [after, pending, stored]
    omega
  | dispatch dispatches aligned rests =>
    have paid := budget.dispatched reached dispatches stepped
    have stay : Worklists.price (cost w'.toStore) w.todo w.connection.size ≤ pending cost w :=
      Worklists.price_le fun k _ s member => budget.kept reached stepped k s member
    have silent : w.asks label = [] := by cases label <;> first | contradiction | rfl
    have after : pending cost w' = Worklists.price (cost w'.toStore) w.todo w.connection.size := by
      rw [pending, rests.todo, rests.size]
    rw [silent, after, List.map_nil, List.sum_nil]
    omega

/-- What has been spent stays within what has been granted. -/
theorem within (budget : Budget ok spent cost grant) (reached : askingBroker.Reachable anyStep (w, asked))
    (fits : ok w asked) : spent w.toStore + pending cost w ≤ (asked.map fun ask => grant ask.2).sum := by
  refine reached.invariant (P := fun state => ok state.1 state.2 →
    spent state.1.toStore + pending cost state.1 ≤ (state.2.map fun ask => grant ask.2).sum) ?_ ?_ fits
  · intro _
    have nothing : spent broker.init.toStore + pending cost broker.init = 0 := budget.start
    exact nothing.le
  · rintro ⟨source, earlier⟩ ⟨target, later⟩ label before held _ stepped fits
    obtain ⟨next, moved, same⟩ := Option.map_eq_some_iff.1 stepped
    obtain ⟨rfl, rfl⟩ := Prod.mk.inj same
    have fits : ok source earlier := budget.earlier moved fits
    have held := held fits
    have step := budget.step before fits moved
    rw [List.map_append, List.sum_append]
    dsimp only at held step ⊢
    omega

end Budget

/-- A grant of one for some of the requests amounts to their number. -/
private theorem sum_grants {α : Type*} (granted : α → Bool) (asked : List α) :
    (asked.map fun ask => if granted ask then 1 else 0).sum = asked.countP granted := by
  induction asked with
  | nil => rfl
  | cons ask rest ih =>
    rw [List.map_cons, List.sum_cons, ih, List.countP_cons]
    omega

section Tags

variable {w : World} {q : QueueRef}

/-- The requests that can make the broker take a tag: a publish to an exchange that reaches the queue, and, if dead
letters reach it, a nack without requeue. -/
def Envelope.takesTag (reaches : String → Bool) (letters : Bool) (env : Envelope) : Bool :=
  match env.request with
  | .publish event => !env.malformed && reaches event.exchange
  | .nack _ requeue => !env.malformed && letters && requeue == some false
  | _ => false

/-- How many tags of the queue a section can come to take. -/
def Section.takes (q : QueueRef) (reaches : String → Bool) (letters : Bool) : Section → ℕ
  | .publish event _ | .route _ event => if reaches event.exchange then 1 else 0
  | .takeTag p _ => if p = q then 1 else 0
  | .nackRange _ _ back | .nackScan _ _ back => if letters && !back then 1 else 0
  | _ => 0

/-- The queue is reached by way of these exchanges only, by dead letters or not. -/
structure Reached (w : World) (asked : List (ConnectionRef × Envelope)) (q : QueueRef) (name : String)
    (reaches : String → Bool) (letters : Bool) : Prop where
  named : q < w.queue.size → (w.queue q).name = name
  bound : ∀ exchange routingKey, Binds asked name exchange routingKey → reaches exchange
  letters : letters = false → ∀ queue dlx routingKey, Declares asked queue dlx routingKey → dlx ≠ "" → ¬ reaches dlx

private theorem Store.tagged_apply (s : Store) {effect : Effect} (other : effect ≠ .takeTag q) :
    ((s.apply effect).queue q).log.tagged ≤ (s.queue q).log.tagged := by
  have changed := s.onQueue effect q
  generalize (s.apply effect).queue q = queue at changed ⊢
  cases changed with
  | newQueue => exact Nat.zero_le _
  | takeTag => exact absurd rfl other
  | _ => exact Nat.le_refl _

private theorem Store.tagged_takeTag (s : Store) (p q : QueueRef) :
    ((s.apply (.takeTag p)).queue q).log.tagged ≤ (s.queue q).log.tagged + if p = q then 1 else 0 := by
  by_cases same : p = q
  · subst same
    rw [if_pos rfl]
    have changed := s.onQueue (.takeTag p) p
    generalize (s.apply (.takeTag p)).queue p = queue at changed ⊢
    cases changed with
    | same => exact Nat.le_succ _
    | takeTag => exact Nat.le_refl _
  · rw [if_neg same]
    exact s.tagged_apply fun taken => same (Effect.takeTag.inj taken)

/-- Whatever has been bound, an exchange routes to a queue once. -/
theorem nodup_getQueues_of_reachable (reached : broker.Reachable anyStep w) (e : ExchangeRef) (routingKey : String) :
    ((w.exchange e).getQueues routingKey).Nodup := by
  obtain ⟨history, recorded⟩ := exists_history reached
  by_cases inside : e < w.exchange.size
  · exact (routed_of_reachable recorded).nodup_getQueues inside routingKey
  · rw [w.exchange.beyond e (Nat.le_of_not_lt inside)]
    exact List.nodup_nil

variable {name : String} {reaches : String → Bool} {letters : Bool}

private theorem takes_handle (w : World) (k : ConnectionRef) (env : Envelope) :
    ((w.handle k env).2.map (Section.takes q reaches letters)).sum ≤ if env.takesTag reaches letters then 1 else 0 := by
  refine w.handle_cases k env (P := fun _ sections =>
    (sections.map (Section.takes q reaches letters)).sum ≤ if env.takesTag reaches letters then 1 else 0) ?_ ?_ ?_ ?_
  · exact fun _ _ => Nat.zero_le _
  · intro _
    cases (w.connection k).channels.lookup env.channelID <;> exact Nat.zero_le _
  · exact fun _ => Nat.zero_le _
  · intro ch _
    cases malformed : env.malformed with
    | true => cases request : env.request <;> simp [route, request, malformed, Section.takes]
    | false =>
      cases request : env.request with
      | nack tag requeue =>
        -- A nack that does not say so requeues.
        rcases requeue with - | back
        · simp [route, request, malformed, Section.takes]
        · cases back <;> simp [route, request, malformed, Section.takes, Envelope.takesTag]
      | _ => simp [route, request, malformed, Section.takes, Envelope.takesTag]

/-- A dead letter goes to the dead-letter exchange that a client has declared. -/
private theorem takes_afterNack {asked : List (ConnectionRef × Envelope)} {c : ConsumerRef}
    (recorded : askingBroker.Reachable anyStep (w, asked)) (reached : Reached w asked q name reaches letters)
    (known : c < w.consumer.size) (msg : Message) (back : Bool) :
    ((w.afterNack c msg back).map (Section.takes q reaches letters)).sum ≤ if letters && !back then 1 else 0 := by
  unfold World.afterNack
  cases back with
  | true => simp [Section.takes]
  | false =>
    by_cases dropped : (w.queue (w.consumer c).queue).dlx = ""
    · simp [dropped, Section.takes]
    · cases lettered : letters with
      | true =>
        simp only [dropped, Section.takes, Bool.false_eq_true, if_false, List.cons_append, List.nil_append,
          List.map_cons, List.map_nil, List.sum_cons, List.sum_nil, Bool.not_false, Bool.and_true, if_true]
        split <;> omega
      | false =>
        have inside := (wellformed_of_reachable recorded.of_recording).queueOf c known
        have declared := (accounted_of_reachable recorded).queues _ inside
        have unreached := reached.letters lettered _ _ _ declared dropped
        simp [dropped, Section.takes, World.deadLetter, unreached]

/-- Requests pay for the tags of a queue. -/
private theorem tagBudget (q : QueueRef) (name : String) (reaches : String → Bool) (letters : Bool) :
    Budget (fun w asked => Reached w asked q name reaches letters) (fun s => (s.queue q).log.tagged)
      (fun _ => Section.takes q reaches letters) fun env => if env.takesTag reaches letters then 1 else 0 where
  earlier {w w' label asked} stepped reached := by
    have grows := (World.grows_of_step stepped).store
    refine ⟨fun inside => ?_, fun exchange key binds => reached.bound exchange key (binds.mono _),
      fun none queue dlx key declares => reached.letters none queue dlx key (declares.mono _)⟩
    rw [← grows.name q inside]
    exact reached.named (inside.trans_le grows.queues)
  start := rfl
  handled w k env := takes_handle w k env
  teardown _ := rfl
  kept _ _ _ _ _ := Nat.le_refl _
  dispatched {w w' label} _ dispatches stepped := by
    obtain ⟨effect, store, happens⟩ := World.happens_of_step stepped
    rw [store]
    refine w.toStore.tagged_apply ?_
    rintro rfl
    cases happens
    contradiction
  ran {w w' asked k choice first next} recorded reached pending runs := by
    have leads : ∀ s ∈ next, Leads first s := fun _ => leads_of_runs runs
    have accounted := accounted_of_reachable recorded
    have wellformed : Wellformed w := wellformed_of_reachable recorded.of_recording
    have known := wellformed.pending k first pending
    cases runs with
    | @publishUnknown _ report => cases report <;> exact Nat.le_add_right _ _
    | @route e event chosen all =>
      have once : (choice.refs.map fun p => if p = q then 1 else 0).sum = choice.refs.count q := by
        simpa only [beq_iff_eq, List.count] using sum_grants (· == q) choice.refs
      have distinct := all.nodup_iff.2 (nodup_getQueues_of_reachable recorded.of_recording e event.routingKey)
      rw [List.map_map]
      refine Nat.add_le_add_left (once.le.trans ?_) _
      by_cases member : q ∈ choice.refs
      · have routed : e < w.exchange.size ∧ (w.exchange e).name = event.exchange := accounted.sections k _ pending
        have target := all.mem_iff.1 member
        have binds := accounted.bindings e event.routingKey q target
        rw [reached.named (wellformed.bindings e _ q target), routed.2] at binds
        simp only [Section.takes, reached.bound _ _ binds, if_true]
        exact List.nodup_iff_count_le_one.1 distinct q
      · rw [List.count_eq_zero.2 member]
        exact Nat.zero_le _
    | @takeTag p event => exact w.toStore.tagged_takeTag p q
    | @nack c rest tag back msg =>
      have same : ((w.settleNack c msg tag back).queue q).log.tagged ≤ (w.queue q).log.tagged :=
        w.toStore.tagged_apply (by simp)
      exact Nat.add_le_add same (takes_afterNack recorded reached (known.consumers c (by simp)) msg back)
    | enqueue | signal | consume | register | ackQueue | requeue | declareQueue | unregister =>
      refine Nat.add_le_add (w.toStore.tagged_apply ?_) (Nat.le_refl _)
      simp
    | cleanup | teardown =>
      refine Nat.add_le_add_left (Nat.le_of_eq (Worklists.sum_cost_eq_zero _ fun s member => ?_)) _
      cases leads s member <;> rfl
    | publish | nackRange | nackNext => exact Nat.le_refl _
    | _ => exact Nat.le_add_right _ _

/-- A queue takes no more tags than clients have sent requests that can take one. -/
theorem tagged_le_asked {asked : List (ConnectionRef × Envelope)} (recorded : askingBroker.Reachable anyStep (w, asked))
    (reached : Reached w asked q name reaches letters) :
    (w.queue q).log.tagged ≤ asked.countP fun ask => ask.2.takesTag reaches letters := by
  have within := (tagBudget q name reaches letters).within recorded reached
  rw [sum_grants fun ask : ConnectionRef × Envelope => ask.2.takesTag reaches letters] at within
  exact (Nat.le_add_right _ _).trans within

end Tags

end GolangMQ.Model
