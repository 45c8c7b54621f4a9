import GolangMQ.Requests.Handling

/-! # Handlers return

A section waits for nothing but `Queue.mu`, and leads to finitely many sections that are simpler than it
is. So the goroutine of a connection gets through whatever it has pending, by some choice of the iteration
orders, in every state in which no dispatcher is inside its lock. Dispatchers leave their locks by themselves.
-/

namespace GolangMQ.Model

open Machine

/-- Every dispatcher is outside its lock. -/
def World.Unlocked (w : World) : Prop := ∀ q, w.lockFree q

variable {w w' : World} {k : ConnectionRef} {choice : Choice} {first s : Section} {next rest sections : List Section}

theorem World.unlocked_of_declared (free : ∀ q < w.queue.size, w.lockFree q) : w.Unlocked := fun q =>
  w.queue.forall_cell (P := fun queue : Queue => queue.dispatcher.holdsLock = false) rfl free q

/-- The effects that move a dispatcher. -/
def Effect.dispatches : Effect → Bool
  | .dispatcher .. | .record .. | .deliver .. | .rollback .. => true
  | _ => false

private theorem World.Unlocked.apply (unlocked : w.Unlocked) {effect : Effect} (still : effect.dispatches = false) :
    (w.apply effect).Unlocked := by
  intro q
  have changed := w.toStore.onQueue effect q
  unfold World.lockFree
  dsimp only [World.apply]
  generalize (w.toStore.apply effect).queue q = queue at changed ⊢
  have before : (w.queue q).dispatcher.holdsLock = false := unlocked q
  cases changed with
  | newQueue => rfl
  | signal =>
    unfold Queue.signal
    dsimp only
    split
    · rfl
    · exact before
  | dispatcher | record | deliver | rollback => contradiction
  | _ => exact before

theorem World.Unlocked.runs (unlocked : w.Unlocked) (runs : Runs w k choice first w' next) : w'.Unlocked := by
  cases runs with
  | takeTag | enqueue | signal | consume | register | ackQueue | nack | requeue | declareQueue | unregister =>
    exact unlocked.apply rfl
  | _ => exact unlocked

/-- Connection `k` can run until it has `rest` left to do. -/
def World.Arrives (w : World) (k : ConnectionRef) (rest : List Section) : Prop :=
  ∃ (choices : List Choice) (w' : World), broker.run? w (choices.map (Label.run k)) = some w' ∧
    k < w'.connection.size ∧ w'.Unlocked ∧ w'.todo k = rest

/-- The goroutine of connection `k` gets through the section. -/
def Section.Finishes (k : ConnectionRef) (s : Section) : Prop :=
  ∀ (w : World) (rest : List Section), k < w.connection.size → w.Unlocked → w.todo k = s :: rest → w.Arrives k rest

/-- One section after the other. -/
theorem finishes_all (all : ∀ s ∈ sections, s.Finishes k) (inside : k < w.connection.size) (unlocked : w.Unlocked)
    (pending : w.todo k = sections ++ rest) : w.Arrives k rest := by
  induction sections generalizing w with
  | nil => exact ⟨[], w, rfl, inside, unlocked, pending⟩
  | cons first others ih =>
    obtain ⟨choices, middle, ran, inside, unlocked, pending⟩ :=
      all first (List.mem_cons_self ..) w (others ++ rest) inside unlocked pending
    obtain ⟨later, w', ran', final⟩ :=
      ih (fun s member => all s (List.mem_cons_of_mem _ member)) inside unlocked pending
    refine ⟨choices ++ later, w', ?_, final⟩
    rw [List.map_append, run?_append, ran]
    exact ran'

/-- A section that can run, and leads to sections that finish, finishes. -/
theorem Section.Finishes.of_leads (runs : ∀ w : World, w.Unlocked → ∃ choice, (w.runSection k choice s).isSome)
    (leads : ∀ {w w' : World} {choice : Choice} {next : List Section}, Runs w k choice s w' next →
      ∀ t ∈ next, t.Finishes k) :
    s.Finishes k := by
  intro w rest inside unlocked pending
  obtain ⟨choice, ran⟩ := runs w unlocked
  obtain ⟨⟨middle, next⟩, ran⟩ := Option.isSome_iff_exists.1 ran
  have rests := World.rests_of_runSection ran
  have stepped : w.step? (.run k choice) = some (middle.setTodo k (next ++ rest)) := by
    unfold World.todo at pending
    simp only [World.step?, pending, ran, Option.map_some]
  have still : k < (middle.setTodo k (next ++ rest)).connection.size := by
    rw [World.setTodo, World.modifyConnection, Heap.size_modify, rests.size]
    exact inside
  have todo : (middle.setTodo k (next ++ rest)).todo k = next ++ rest := by
    rw [rests.todo_setTodo inside, Function.update_self]
  have runs := runs_of_runSection ran
  have free : middle.Unlocked := unlocked.runs runs
  obtain ⟨choices, w', later, final⟩ := finishes_all (leads runs) still free todo
  exact ⟨choice :: choices, w', Option.bind_eq_some_iff.2 ⟨_, stepped, later⟩, final⟩

namespace Section

private theorem finishes_signal (q : QueueRef) : (signal q).Finishes k :=
  .of_leads (fun _ _ => ⟨{}, rfl⟩) fun runs => by cases runs; simp

private theorem finishes_reply (frame : Frame) : (reply frame).Finishes k :=
  .of_leads (fun _ _ => ⟨{}, rfl⟩) fun runs => by cases runs <;> simp

private theorem finishes_requeue (q : QueueRef) (msg : Message) : (requeue q msg).Finishes k :=
  .of_leads (fun w unlocked => ⟨{}, by simp [World.runSection, unlocked q]⟩) fun runs => by cases runs; simp

private theorem finishes_enqueue (q : QueueRef) (msg : Message) : (enqueue q msg).Finishes k := by
  refine .of_leads (fun w unlocked => ⟨{}, by simp [World.runSection, unlocked q]⟩) fun runs => ?_
  cases runs
  simpa using finishes_signal q

private theorem finishes_takeTag (q : QueueRef) (event : Publish) : (takeTag q event).Finishes k := by
  refine .of_leads (fun w unlocked => ⟨{}, by simp [World.runSection, unlocked q]⟩) fun runs => ?_
  cases runs
  simpa using finishes_enqueue q _

private theorem finishes_route (e : ExchangeRef) (event : Publish) : (route e event).Finishes k := by
  refine .of_leads (fun w _ => ⟨{ refs := (w.exchange e).getQueues event.routingKey }, by simp [World.runSection]⟩)
    fun runs => ?_
  cases runs with
  | unroutable => simp
  | route => simpa using fun q _ => finishes_takeTag q event

private theorem finishes_publish (event : Publish) (report : Option Header) : (publish event report).Finishes k := by
  refine .of_leads (fun w _ => ⟨{}, ?_⟩) fun runs => ?_
  · simp only [World.runSection]
    split <;> rfl
  · cases runs with
    | publishUnknown => simpa using fun header _ => finishes_reply _
    | publish => simpa using finishes_route _ event

private theorem finishes_register (c : ConsumerRef) : (register c).Finishes k := by
  refine .of_leads (fun w unlocked => ⟨{}, by simp [World.runSection, unlocked (w.consumer c).queue]⟩) fun runs => ?_
  cases runs
  simpa using finishes_signal _

private theorem finishes_attach (c : ConsumerRef) (header : Header) : (attach c header).Finishes k := by
  refine .of_leads (fun _ _ => ⟨{}, rfl⟩) fun runs => ?_
  cases runs
  simpa using finishes_reply _

private theorem finishes_consume (ch : ChannelRef) (header : Header) (queue tag : String) :
    (consume ch header queue tag).Finishes k := by
  refine .of_leads (fun w _ => ⟨{}, ?_⟩) fun runs => ?_
  · simp only [World.runSection]
    split <;> rfl
  · cases runs with
    | consumeRefused => simpa using finishes_reply _
    | consume => simpa using ⟨finishes_register _, finishes_attach _ _⟩

private theorem finishes_ackQueue (q : QueueRef) (tag : UInt16) : (ackQueue q tag).Finishes k := by
  refine .of_leads (fun w unlocked => ⟨{ refs := (w.queue q).consumers.toList }, ?_⟩) fun runs => ?_
  · have all : Ranges (w.queue q).consumers.toList (w.queue q).consumers :=
      ⟨Finset.nodup_toList _, Finset.toList_toFinset _⟩
    simp only [World.runSection, unlocked q, all, and_self, if_true]
    split <;> rfl
  · cases runs with
    | ackGone => simp
    | ackQueue => simpa using finishes_signal q

private theorem finishes_ack (queue : String) (tag : UInt16) : (ack queue tag).Finishes k := by
  refine .of_leads (fun w _ => ⟨{}, ?_⟩) fun runs => ?_
  · simp only [World.runSection]
    split <;> rfl
  · cases runs with
    | ackUnnamed => simp
    | ackNamed => simpa using finishes_ackQueue _ tag

private theorem finishes_ackScan (consumers : List ConsumerRef) (tag : UInt16) :
    (ackScan consumers tag).Finishes k := by
  induction consumers with
  | nil => exact .of_leads (fun _ _ => ⟨{}, rfl⟩) fun runs => by cases runs; simp
  | cons c others ih =>
    refine .of_leads (fun w _ => ⟨{}, ?_⟩) fun runs => ?_
    · simp only [World.runSection]
      split <;> rfl
    · cases runs with
      | ackFound => simpa using finishes_ack _ tag
      | ackNext => simpa using ih

private theorem finishes_afterNack (w : World) (c : ConsumerRef) (msg : Message) (requeues : Bool) :
    ∀ t ∈ w.afterNack c msg requeues, t.Finishes k := by
  intro t member
  rcases mem_afterNack member with rfl | rfl | rfl
  · exact finishes_requeue _ msg
  · exact finishes_publish _ none
  · exact finishes_signal _

private theorem finishes_nackScan (consumers : List ConsumerRef) (tag : UInt16) (requeues : Bool) :
    (nackScan consumers tag requeues).Finishes k := by
  induction consumers with
  | nil => exact .of_leads (fun _ _ => ⟨{}, rfl⟩) fun runs => by cases runs; simp
  | cons c others ih =>
    refine .of_leads (fun w _ => ⟨{}, ?_⟩) fun runs => ?_
    · simp only [World.runSection]
      split <;> rfl
    · cases runs with
      | nackNext => simpa using ih
      | nack => exact finishes_afterNack _ c _ requeues

private theorem finishes_unregister (c : ConsumerRef) : (unregister c).Finishes k := by
  refine .of_leads (fun w unlocked => ⟨{ messages := (w.consumer c).pendingMessages.values }, ?_⟩) fun runs => ?_
  · simp only [World.runSection, unlocked (w.consumer c).queue, not_true_eq_false, if_false, List.Perm.refl, if_true]
    split <;> rfl
  · cases runs with
    | unregistered => simp
    | unregister => simpa using finishes_signal _

private theorem finishes_cleanup (ch : ChannelRef) : (cleanup ch).Finishes k := by
  refine .of_leads (fun w _ => ⟨{ refs := (w.channel ch).consumers.values }, by simp [World.runSection]⟩) fun runs => ?_
  cases runs
  simpa using fun c _ => finishes_unregister c

private theorem finishes_depart : depart.Finishes k := .of_leads (fun _ _ => ⟨{}, rfl⟩) fun runs => by cases runs; simp

/-- Every section finishes. -/
theorem finishes (s : Section) : s.Finishes k := by
  cases s with
  | publish event report => exact finishes_publish event report
  | route e event => exact finishes_route e event
  | takeTag q event => exact finishes_takeTag q event
  | enqueue q msg => exact finishes_enqueue q msg
  | signal q => exact finishes_signal q
  | consume ch header queue tag => exact finishes_consume ch header queue tag
  | register c => exact finishes_register c
  | attach c header => exact finishes_attach c header
  | ackRange ch tag =>
    refine .of_leads (fun w _ => ⟨{ refs := (w.channel ch).consumers.values }, by simp [World.runSection]⟩)
      fun runs => ?_
    cases runs
    simpa using finishes_ackScan _ tag
  | ackScan consumers tag => exact finishes_ackScan consumers tag
  | ack queue tag => exact finishes_ack queue tag
  | ackQueue q tag => exact finishes_ackQueue q tag
  | nackRange ch tag requeues =>
    refine .of_leads (fun w _ => ⟨{ refs := (w.channel ch).consumers.values }, by simp [World.runSection]⟩)
      fun runs => ?_
    cases runs
    simpa using finishes_nackScan _ tag requeues
  | nackScan consumers tag requeues => exact finishes_nackScan consumers tag requeues
  | requeue q msg => exact finishes_requeue q msg
  | declareQueue | declareExchange | bind =>
    exact .of_leads (fun _ _ => ⟨{}, rfl⟩) fun runs => by cases runs <;> simp
  | bindQueue exchange queue routingKey =>
    refine .of_leads (fun w _ => ⟨{}, ?_⟩) fun runs => ?_
    · simp only [World.runSection]
      split <;> rfl
    · cases runs with
      | bindRefused => simp
      | bindQueue => simpa using Finishes.of_leads (fun _ _ => ⟨{}, rfl⟩) fun runs => by cases runs; simp
  | cleanup ch => exact finishes_cleanup ch
  | unregister c => exact finishes_unregister c
  | reply frame => exact finishes_reply frame
  | teardown =>
    refine .of_leads (fun w _ => ⟨{ refs := (w.connection k).channels.values }, by simp [World.runSection]⟩)
      fun runs => ?_
    cases runs
    intro t member
    rcases List.mem_append.1 member with cleanup | last
    · obtain ⟨ch, -, rfl⟩ := List.mem_map.1 cleanup
      exact finishes_cleanup ch
    · rw [List.mem_singleton.1 last]
      exact finishes_depart
  | depart => exact finishes_depart

end Section

/-- Whatever a connection has pending can be run to the end. -/
theorem World.exists_serves (inside : k < w.connection.size) (unlocked : w.Unlocked) : ∃ w', w.Serves k w' := by
  have all : ∀ s ∈ w.todo k, s.Finishes k := fun s _ => s.finishes
  obtain ⟨choices, w', ran, -, -, idle⟩ := finishes_all all inside unlocked (List.append_nil _).symm
  exact ⟨w', choices, ran, idle⟩

/-- Every envelope can be handled to the end once no dispatcher is inside its lock. -/
theorem World.exists_handles (env : Envelope) (alive : w.connected k = true) (idle : w.todo k = [])
    (unlocked : w.Unlocked) : ∃ w', w.Handles k env w' := by
  obtain ⟨rests, store, -⟩ := w.handle_spec k env
  have inside : k < ((w.handle k env).1.setTodo k (w.handle k env).2).connection.size := by
    have size : ((w.handle k env).1.setTodo k (w.handle k env).2).connection.size = w.connection.size := rests.size
    rw [size]
    exact inside_of_live alive
  have free : ((w.handle k env).1.setTodo k (w.handle k env).2).Unlocked := by
    intro q
    have same : ((w.handle k env).1.setTodo k (w.handle k env).2).toStore = w.toStore := store
    rw [lockFree, same]
    exact unlocked q
  obtain ⟨w', serves⟩ := exists_serves inside free
  exact ⟨w', .intro alive idle serves⟩

/-- Nobody but dispatchers moves. -/
def OnlyDispatchers (_ : World) (label : Label) : Prop := label.ofDispatcher = true

/-- The dispatcher of queue `q` can leave its lock, and the others stay where they are. -/
def World.Releases (w : World) (q : QueueRef) : Prop :=
  ∃ v, (broker.startingAt w).Reachable OnlyDispatchers v ∧ Wellformed v ∧ v.lockFree q ∧ v.queue.size = w.queue.size ∧
    ∀ other, w.lockFree other → v.lockFree other

namespace World.Releases

variable {q : QueueRef} {label : Label}

private theorem of_free (wellformed : Wellformed w) (free : w.lockFree q) : w.Releases q :=
  ⟨w, .init, wellformed, free, rfl, fun _ free => free⟩

/-- One step of the dispatcher, and then the rest. -/
theorem of_step (dispatches : label.ofDispatcher = true) (stepped : w.step? label = some w')
    (size : w'.queue.size = w.queue.size) (others : ∀ other ≠ q, w'.queue other = w.queue other)
    (held : ¬ w.lockFree q) (releases : w'.Releases q) : w.Releases q := by
  obtain ⟨v, reached, wellformed, free, size', kept⟩ := releases
  have first : (broker.startingAt w).Reachable OnlyDispatchers w' := .step .init dispatches stepped
  refine ⟨v, first.continued reached, wellformed, free, size'.trans size, fun other before => kept other ?_⟩
  have elsewhere : other ≠ q := by
    rintro rfl
    exact held before
  unfold World.lockFree
  rw [others other elsewhere]
  exact before

/-- A step to another phase. -/
theorem of_phase {phase : Dispatcher} (dispatches : label.ofDispatcher = true) (held : ¬ w.lockFree q)
    (stepped : w.step? label = some (w.apply (.dispatcher q phase)))
    (releases : (w.apply (.dispatcher q phase)).Releases q) :
    w.Releases q := by
  refine .of_step dispatches stepped rfl (fun other elsewhere => ?_) held releases
  exact w.queue.cell_modify_of_ne ({ · with dispatcher := phase }) elsewhere

end World.Releases

section Releases

variable {q : QueueRef} {phase : Dispatcher}

private theorem World.dispatcher_apply (stands : (w.queue q).dispatcher = phase) (moved : phase ≠ .top)
    (later : Dispatcher) :
    (w.apply (.dispatcher q later)).queue q = { w.queue q with dispatcher := later } :=
  w.queue.cell_modify_self ({ · with dispatcher := later }) (inside_of_phase stands moved)

private theorem World.held_of_phase (stands : (w.queue q).dispatcher = phase) (holds : phase.holdsLock = true) :
    ¬ w.lockFree q := by
  unfold World.lockFree
  rw [stands, holds]
  exact Bool.noConfusion

private theorem releases_of_waiting (wellformed : Wellformed w) {site : WaitSite}
    (stands : (w.queue q).dispatcher = .waiting site) :
    w.Releases q := by
  have stepped : w.step? (.wait q) = some (w.apply (.dispatcher q (.parked site false))) := by
    simp only [World.step?, stands]
  refine .of_phase rfl (World.held_of_phase stands rfl) stepped (.of_free (wellformed.step stepped) ?_)
  rw [World.lockFree, World.dispatcher_apply stands (by simp)]
  rfl

private theorem releases_of_selected (wellformed : Wellformed w) {c : ConsumerRef}
    (stands : (w.queue q).dispatcher = .selected c) :
    w.Releases q := by
  obtain ⟨msg, others, messages⟩ := List.exists_cons_of_ne_nil (wellformed.phase stands).1
  have stepped : w.step? (.record q) = some (w.apply (.record q c msg)) := by
    simp only [World.step?, stands, messages]
  refine .of_step rfl stepped rfl (fun other elsewhere => ?_) (World.held_of_phase stands rfl)
    (.of_free (wellformed.step stepped) ?_)
  · exact w.queue.cell_modify_of_ne (·.pop c msg) elsewhere
  · have popped : (w.apply (.record q c msg)).queue q = (w.queue q).pop c msg :=
      w.queue.cell_modify_self (·.pop c msg) (World.inside_of_phase stands (by simp))
    rw [World.lockFree, popped]
    rfl

/-- The scan ends: it visits each consumer once. -/
private theorem releases_of_scanning (n : ℕ) : ∀ (w : World) (passed : List ConsumerRef), Wellformed w →
    (w.queue q).dispatcher = .scanning passed → ((w.queue q).consumers \ passed.toFinset).card = n → w.Releases q := by
  induction n with
  | zero =>
    intro w passed wellformed stands none
    have all : passed.toFinset = (w.queue q).consumers := by
      refine Finset.Subset.antisymm (fun c member => (wellformed.phase stands).2 c (List.mem_toFinset.1 member)) ?_
      exact Finset.sdiff_eq_empty_iff_subset.1 (Finset.card_eq_zero.1 none)
    have stepped : w.step? (.exhausted q) = some (w.apply (.dispatcher q (.waiting .noConsumer))) := by
      simp only [World.step?, stands, all, if_true]
    have waits : ((w.apply (.dispatcher q (.waiting .noConsumer))).queue q).dispatcher = .waiting .noConsumer := by
      rw [World.dispatcher_apply stands (by simp)]
    exact .of_phase rfl (World.held_of_phase stands rfl) stepped (releases_of_waiting (wellformed.step stepped) waits)
  | succ n ih =>
    intro w passed wellformed stands left
    obtain ⟨c, member⟩ : ((w.queue q).consumers \ passed.toFinset).Nonempty := by
      rw [← Finset.card_pos, left]
      exact n.succ_pos
    obtain ⟨registered, fresh⟩ := Finset.mem_sdiff.1 member
    have fresh : c ∉ passed := fun seen => fresh (List.mem_toFinset.2 seen)
    have stepped : w.step? (.probe q c) =
        some (w.apply (.dispatcher q (if (w.consumer c).free then .selected c else .scanning (c :: passed)))) := by
      simp only [World.step?, stands, registered, fresh, not_false_eq_true, and_self, if_true]
    refine .of_phase rfl (World.held_of_phase stands rfl) stepped ?_
    have later := wellformed.step stepped
    have moved := World.dispatcher_apply (w := w) stands (by simp)
      (if (w.consumer c).free then .selected c else .scanning (c :: passed))
    by_cases free : (w.consumer c).free = true
    · exact releases_of_selected later (by rw [moved, if_pos free])
    · refine ih _ (c :: passed) later (by rw [moved, if_neg free]) ?_
      rw [moved]
      have fewer : (w.queue q).consumers \ (c :: passed).toFinset =
          ((w.queue q).consumers \ passed.toFinset).erase c := by
        rw [List.toFinset_cons, Finset.sdiff_insert]
      rw [fewer, Finset.card_erase_of_mem member, left]
      rfl

private theorem releases_of_wellformed (wellformed : Wellformed w) (q : QueueRef) : w.Releases q := by
  cases stands : (w.queue q).dispatcher with
  | scanning passed => exact releases_of_scanning _ w passed wellformed stands rfl
  | selected c => exact releases_of_selected wellformed stands
  | waiting site => exact releases_of_waiting wellformed stands
  | top | parked | writing | failed =>
    refine .of_free wellformed ?_
    rw [World.lockFree, stands]
    rfl

/-- One dispatcher after the other leaves its lock. -/
theorem World.exists_unlocked (wellformed : Wellformed w) :
    ∃ v, (broker.startingAt w).Reachable OnlyDispatchers v ∧ v.Unlocked := by
  have each (n : ℕ) : ∃ v, (broker.startingAt w).Reachable OnlyDispatchers v ∧ Wellformed v ∧
      v.queue.size = w.queue.size ∧ ∀ q < n, v.lockFree q := by
    induction n with
    | zero => exact ⟨w, .init, wellformed, rfl, fun q none => absurd none (Nat.not_lt_zero q)⟩
    | succ n ih =>
      obtain ⟨v, reached, wellformed, size, free⟩ := ih
      obtain ⟨v', later, wellformed', free', size', kept⟩ := releases_of_wellformed wellformed n
      refine ⟨v', reached.continued later, wellformed', size'.trans size, fun q below => ?_⟩
      rcases Nat.lt_succ_iff_lt_or_eq.1 below with below | rfl
      · exact kept q (free q below)
      · exact free'
  obtain ⟨v, reached, -, size, free⟩ := each w.queue.size
  exact ⟨v, reached, World.unlocked_of_declared fun q inside => free q (size ▸ inside)⟩

end Releases

end GolangMQ.Model
