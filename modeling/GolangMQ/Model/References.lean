import GolangMQ.Model.Effects
import GolangMQ.Model.Steps

/-! # References stay inside the heaps

A reference that was valid when a goroutine put it into a local variable, a map or a binding is valid
for good, since objects are only ever added. `Refs` collects the places from which a step takes
references; every state of every run satisfies it.
-/

namespace GolangMQ.Model

namespace Exchange

theorem mem_getQueues {e : Exchange} {routingKey : String} {q : QueueRef} :
    q ∈ e.getQueues routingKey ↔ ∃ queues, e.bindings.lookup routingKey = some queues ∧ q ∈ queues.values := by
  simp only [getQueues, List.mem_flatMap]
  constructor
  · rintro ⟨⟨key, queues⟩, entry, member⟩
    split_ifs at member with same
    · obtain rfl : key = routingKey := same
      exact ⟨queues, AList.mem_lookup_iff.mpr entry, member⟩
    · exact absurd member List.not_mem_nil
  · rintro ⟨queues, found, member⟩
    exact ⟨⟨routingKey, queues⟩, AList.mem_lookup_iff.mp found, by rwa [if_pos rfl]⟩

/-- A binding adds its queue at most. -/
private theorem mem_getQueues_bind {e : Exchange} {queue q : QueueRef} {name routingKey key : String}
    (member : q ∈ (e.bind queue name routingKey).getQueues key) : q = queue ∨ q ∈ e.getQueues key := by
  obtain ⟨queues, found, member⟩ := mem_getQueues.mp member
  by_cases same : key = routingKey
  · subst same
    rw [bind, AList.lookup_insert, Option.some.injEq] at found
    subst found
    rcases AList.mem_values_insert member with new | old
    · exact .inl new
    · cases stored : e.bindings.lookup key with
      | none => simp [stored] at old
      | some queues => exact .inr (mem_getQueues.mpr ⟨queues, stored, by simpa [stored] using old⟩)
  · rw [bind, AList.lookup_insert_ne same] at found
    exact .inr (mem_getQueues.mpr ⟨queues, found, member⟩)

end Exchange

/-- The queues a pending section refers to. -/
@[simp] def Section.queueRefs : Section → List QueueRef
  | .takeTag q _ | .enqueue q _ | .signal q | .ackQueue q _ | .requeue q _ | .bind _ q _ => [q]
  | _ => []

/-- The consumers a pending section refers to. -/
@[simp] def Section.consumerRefs : Section → List ConsumerRef
  | .register c | .attach c _ | .unregister c => [c]
  | .ackScan consumers _ | .nackScan consumers _ _ => consumers
  | _ => []

/-- The references of a pending section are inside the heaps. -/
structure Section.Known (s : Store) (pending : Section) : Prop where
  queues : ∀ q ∈ pending.queueRefs, q < s.queue.size
  consumers : ∀ c ∈ pending.consumerRefs, c < s.consumer.size

private theorem Section.known_iff {s : Store} {pending : Section} :
    pending.Known s ↔
      (∀ q ∈ pending.queueRefs, q < s.queue.size) ∧ ∀ c ∈ pending.consumerRefs, c < s.consumer.size :=
  ⟨fun known => ⟨known.queues, known.consumers⟩, fun known => ⟨known.1, known.2⟩⟩

private theorem Section.Known.mono {s s' : Store} {pending : Section} (known : pending.Known s)
    (extends_ : s.Extends s') : pending.Known s' :=
  ⟨fun q member => (known.queues q member).trans_le extends_.queues,
    fun c member => (known.consumers c member).trans_le extends_.consumers⟩

/-- The references that maps, bindings, objects and local variables hold are inside the heaps, and a
queue's consumers are consumers of that queue. -/
structure Refs (w : World) : Prop where
  queues : ∀ name q, w.queues.lookup name = some q → q < w.queue.size
  bindings : ∀ e routingKey, ∀ q ∈ (w.exchange e).getQueues routingKey, q < w.queue.size
  queueOf : ∀ c < w.consumer.size, (w.consumer c).queue < w.queue.size
  channels : ∀ ch, ∀ c ∈ (w.channel ch).consumers.values, c < w.consumer.size
  members : ∀ q, ∀ c ∈ (w.queue q).consumers, c < w.consumer.size ∧ (w.consumer c).queue = q
  pending : ∀ k, ∀ s ∈ w.todo k, s.Known w.toStore

namespace Refs

variable {w w' : World} {label : Label} {effect : Effect} {k : ConnectionRef}

theorem init : Refs {} where
  queues _ _ found := absurd found (by simp)
  bindings _ _ _ found := absurd found (by simp [Exchange.getQueues, default])
  queueOf _ inside := absurd inside (Nat.not_lt_zero _)
  channels _ _ found := absurd found (by simp [default])
  members _ _ found := absurd found (by simp [default])
  pending _ _ found := absurd found (by simp [World.todo, default])

private theorem queueOf_step (refs : Refs w) (store : w'.toStore = w.toStore.apply effect)
    (happens : Happens w label w' effect) :
    ∀ c < w'.consumer.size, (w'.consumer c).queue < w'.queue.size := by
  have extension := w.toStore.extends_apply effect
  rw [← store] at extension
  intro c inside
  by_cases old : c < w.consumer.size
  · rw [extension.queue old]
    exact (refs.queueOf c old).trans_le extension.queues
  · -- A consumer that was not there before is the one `NewConsumer` has just made.
    cases happens with
    | newConsumer declared advances =>
      rw [store] at inside ⊢
      obtain rfl : c = w.consumer.size := Nat.le_antisymm (Nat.lt_succ_iff.mp inside) (Nat.le_of_not_lt old)
      simp only [Store.apply, Heap.cell_alloc_self]
      exact refs.queues _ _ declared
    | _ =>
      rw [store] at inside
      exact absurd inside old

private theorem members_step (refs : Refs w) (store : w'.toStore = w.toStore.apply effect)
    (happens : Happens w label w' effect) :
    ∀ q, ∀ c ∈ (w'.queue q).consumers, c < w'.consumer.size ∧ (w'.consumer c).queue = q := by
  have extension := w.toStore.extends_apply effect
  rw [← store] at extension
  intro q c member
  have known : c < w.consumer.size ∧ (w.consumer c).queue = q := by
    rw [store] at member
    rcases Store.mem_consumers_apply member with old | ⟨rfl, rfl⟩
    · exact refs.members q c old
    · cases happens with
      | registerConsumer free advances =>
        obtain ⟨rest, pending, -⟩ := advances.todo
        have known := refs.pending _ _ (pending ▸ List.mem_cons_self ..)
        exact ⟨known.consumers c (by simp [Section.consumerRefs]), rfl⟩
  exact ⟨known.1.trans_le extension.consumers, (extension.queue known.1).trans known.2⟩

/-- The maps of a world are inside the heaps of another one. -/
structure Maps (w : World) (s : Store) : Prop where
  queues : ∀ name q, w.queues.lookup name = some q → q < s.queue.size
  bindings : ∀ e routingKey, ∀ q ∈ (w.exchange e).getQueues routingKey, q < s.queue.size
  channels : ∀ ch, ∀ c ∈ (w.channel ch).consumers.values, c < s.consumer.size

private theorem maps (refs : Refs w) {s : Store} (extension : w.toStore.Extends s) : Maps w s where
  queues name q found := (refs.queues name q found).trans_le extension.queues
  bindings e routingKey q member := (refs.bindings e routingKey q member).trans_le extension.queues
  channels ch c member := (refs.channels ch c member).trans_le extension.consumers

/-- Only declarations, `Exchange.bind` and the end of `RegisterConsumer` change the maps. -/
theorem maps_of_runSection {choice : Choice} {first : Section} {next : List Section} (refs : Refs w)
    (known : first.Known w.toStore) (ran : w.runSection k choice first = some (w', next))
    (extension : w.toStore.Extends w'.toStore) : Maps w' w'.toStore := by
  have kept := refs.maps extension
  cases first with
  | declareQueue name dlx dlxRoutingKey =>
    simp only [World.runSection, World.declareQueue] at ran
    split at ran <;> cases ran
    · exact kept
    · refine ⟨fun other q found => ?_, kept.bindings, kept.channels⟩
      by_cases same : other = name
      · subst same
        rw [AList.lookup_insert, Option.some.injEq] at found
        exact found ▸ Nat.lt_succ_self _
      · rw [AList.lookup_insert_ne same] at found
        exact kept.queues other q found
  | declareExchange name =>
    simp only [World.runSection, World.declareExchange] at ran
    split at ran <;> cases ran
    · exact kept
    · refine ⟨kept.queues, fun e routingKey q member => ?_, kept.channels⟩
      have fresh := w.exchange.observe_alloc (Exchange.getQueues · routingKey) { name } rfl e
      exact kept.bindings e routingKey q (fresh ▸ member)
  | bind e q routingKey =>
    cases ran
    refine ⟨kept.queues, fun e' key q' member => ?_, kept.channels⟩
    rcases w.exchange.cell_modify_eq_or e (·.bind q (w.queue q).name routingKey) e' with same | ⟨rfl, new⟩
    · rw [World.bind, World.modifyExchange, same] at member
      exact kept.bindings e' key q' member
    · rw [World.bind, World.modifyExchange, new] at member
      rcases Exchange.mem_getQueues_bind member with rfl | old
      · exact known.queues _ (by simp)
      · exact kept.bindings _ key q' old
  | attach c header =>
    cases ran
    refine ⟨kept.queues, kept.bindings, fun ch c' member => ?_⟩
    rcases w.channel.cell_modify_eq_or (w.consumer c).channel
      (fun channel => { channel with consumers := channel.consumers.insert (w.consumer c).tag c }) ch
      with same | ⟨rfl, new⟩
    · simp only [World.attach, World.modifyChannel, World.count] at member
      rw [same] at member
      exact kept.channels ch c' member
    · simp only [World.attach, World.modifyChannel, World.count] at member
      rw [new] at member
      rcases AList.mem_values_insert member with rfl | old
      · exact known.consumers _ (by simp)
      · exact kept.channels _ c' old
  | consume ch header queue tag =>
    simp only [World.runSection] at ran
    split at ran
    · cases ran
      exact kept
    · next made =>
      obtain ⟨q, -, rfl⟩ := World.newConsumer_ok made
      cases ran
      exact ⟨kept.queues, kept.bindings, kept.channels⟩
  | _ =>
    simp only [World.runSection] at ran
    repeat' split at ran
    all_goals first | contradiction | (cases ran; exact ⟨kept.queues, kept.bindings, kept.channels⟩)

/-- The sections a section leads to take their references from it, from the maps, or from the heap. -/
theorem known_of_runSection {choice : Choice} {first : Section} {next : List Section} (refs : Refs w)
    (known : first.Known w.toStore) (ran : w.runSection k choice first = some (w', next))
    (extension : w.toStore.Extends w'.toStore) : ∀ pending ∈ next, pending.Known w'.toStore := by
  rw [Section.known_iff] at known
  cases first with
  | publish event report =>
    simp only [World.runSection] at ran
    split at ran <;> cases ran
    · cases report <;> simp [Section.known_iff]
    · simp [Section.known_iff]
  | route e event =>
    simp only [World.runSection] at ran
    split at ran <;> cases ran
    next perm =>
      intro pending member
      obtain ⟨q, chosen, rfl⟩ := List.mem_map.mp member
      have inside := refs.bindings e event.routingKey q (perm.subset chosen)
      simpa [Section.known_iff] using inside.trans_le extension.queues
  | consume ch header queue tag =>
    simp only [World.runSection] at ran
    split at ran
    · cases ran
      simp [Section.known_iff]
    · next made =>
      obtain ⟨q, -, rfl⟩ := World.newConsumer_ok made
      cases ran
      simp [Section.known_iff, World.apply, Store.apply]
  | ackRange ch tag | nackRange ch tag requeue | cleanup ch =>
    simp only [World.runSection] at ran
    split at ran <;> cases ran
    next perm =>
      have inside : ∀ c ∈ choice.refs, c < w.consumer.size := fun c chosen =>
        refs.channels ch c (perm.subset chosen)
      simpa [Section.known_iff] using inside
  | ack name tag =>
    simp only [World.runSection] at ran
    split at ran <;> cases ran
    · simp
    · next q found => simpa [Section.known_iff] using refs.queues name q found
  | takeTag q event | enqueue q msg =>
    simp only [World.runSection] at ran
    split at ran <;> cases ran
    have inside : q < w.queue.size := by simpa using known
    simpa [Section.known_iff] using inside.trans_le extension.queues
  | register c =>
    simp only [World.runSection] at ran
    split at ran <;> cases ran
    have inside : c < w.consumer.size := by simpa using known
    simpa [Section.known_iff] using (refs.queueOf c inside).trans_le extension.queues
  | ackScan consumers tag =>
    cases consumers with
    | nil =>
      cases ran
      simp
    | cons c others =>
      simp only [World.runSection] at ran
      have inside : c < w.consumer.size ∧ ∀ c ∈ others, c < w.consumer.size := by simpa using known
      split at ran <;> cases ran
      · simp [Section.known_iff]
      · simpa [Section.known_iff] using inside.2
  | ackQueue q tag =>
    simp only [World.runSection] at ran
    have inside : q < w.queue.size := by simpa using known
    split at ran
    · split at ran <;> cases ran
      · simp
      · simpa [Section.known_iff] using inside.trans_le extension.queues
    · contradiction
  | nackScan consumers tag requeue =>
    cases consumers with
    | nil =>
      cases ran
      simp
    | cons c others =>
      simp only [World.runSection] at ran
      have inside : c < w.consumer.size ∧ ∀ c ∈ others, c < w.consumer.size := by simpa using known
      split at ran <;> cases ran
      · simpa [Section.known_iff] using inside.2
      · have valid := (refs.queueOf c inside.1).trans_le extension.queues
        intro pending member
        rcases mem_afterNack (w := w) (c := c) member with rfl | rfl | rfl
        · simpa [Section.known_iff] using valid
        · simp [Section.known_iff]
        · simpa [Section.known_iff] using valid
  | bindQueue exchange queue routingKey =>
    simp only [World.runSection] at ran
    split at ran <;> cases ran
    · simp
    · next e q found =>
      have declared : w.queues.lookup queue = some q := by
        unfold World.bindTargets at found
        split at found <;> cases found
        assumption
      simpa [Section.known_iff] using refs.queues queue q declared
  | unregister c =>
    have inside : c < w.consumer.size := by simpa using known
    simp only [World.runSection] at ran
    split_ifs at ran <;> cases ran
    · simpa [Section.known_iff] using (refs.queueOf c inside).trans_le extension.queues
    · simp
  | teardown =>
    simp only [World.runSection] at ran
    split at ran <;> cases ran
    intro pending member
    rcases List.mem_append.mp member with cleanup | last
    · obtain ⟨ch, -, rfl⟩ := List.mem_map.mp cleanup
      simp [Section.known_iff]
    · rw [List.mem_singleton.mp last]
      simp [Section.known_iff]
  | requeue q msg =>
    simp only [World.runSection] at ran
    split at ran <;> cases ran
    simp
  | signal | attach | declareQueue | declareExchange | bind | reply | depart =>
    cases ran
    simp [Section.known_iff]

/-- Handling an envelope takes no reference to a queue or a consumer into a local variable. -/
theorem known_of_handle (w : World) (k : ConnectionRef) (env : Envelope) (s : Store) :
    ∀ pending ∈ (w.handle k env).2, pending.Known s := by
  intro pending member
  cases World.handled_of_mem member with
  | routed found routed => cases routed <;> simp [Section.known_iff]
  | _ => simp [Section.known_iff]

private theorem maps_of_handle (refs : Refs w) (k : ConnectionRef) (env : Envelope) :
    Maps (w.handle k env).1 (w.handle k env).1.toStore := by
  have kept := refs.maps (.refl _)
  refine w.handle_cases k env (P := fun w' _ => Maps w' w'.toStore)
    (fun id _ => ?_) (fun _ => ?_) (fun _ => kept) (fun _ _ => kept)
  · refine ⟨kept.queues, kept.bindings, fun ch c member => kept.channels ch c ?_⟩
    exact w.channel.observe_alloc (Channel.consumers · |>.values) { id, conn := k } rfl ch ▸ member
  · exact ⟨kept.queues, kept.bindings, kept.channels⟩

/-- References stay inside the heaps along every step. -/
theorem step (refs : Refs w) (stepped : w.step? label = some w') : Refs w' := by
  obtain ⟨effect, store, happens⟩ := World.happens_of_step stepped
  have extension := w.toStore.extends_apply effect
  rw [← store] at extension
  have old : ∀ j, ∀ pending ∈ w.todo j, pending.Known w'.toStore := fun j pending member =>
    (refs.pending j pending member).mono extension
  have updated (k : ConnectionRef) {sections : List Section} (new : ∀ s ∈ sections, s.Known w'.toStore) :
      ∀ j, ∀ s ∈ Function.update w.todo k sections j, s.Known w'.toStore :=
    (Function.forall_update_iff w.todo fun _ pending => ∀ s ∈ pending, s.Known w'.toStore).2 ⟨new, fun j _ => old j⟩
  have assemble (maps : Maps w' w'.toStore) (pending : ∀ j, ∀ s ∈ w'.todo j, s.Known w'.toStore) : Refs w' :=
    ⟨maps.queues, maps.bindings, refs.queueOf_step store happens, maps.channels,
      refs.members_step store happens, pending⟩
  have kept := refs.maps extension
  cases label with
  | accept =>
    cases happens with
    | accepted size todo =>
      cases stepped
      exact assemble ⟨kept.queues, kept.bindings, kept.channels⟩ (todo ▸ old)
  | request k env =>
    cases happens with
    | requested size inside idle todo =>
      have maps := refs.maps_of_handle k env
      simp only [World.step?] at stepped
      split_ifs at stepped
      cases stepped
      exact assemble ⟨maps.queues, maps.bindings, maps.channels⟩ (todo ▸ updated k (known_of_handle w k env _))
  | disconnect k =>
    cases happens with
    | disconnected size inside idle todo =>
      simp only [World.step?] at stepped
      split_ifs at stepped
      cases stepped
      exact assemble ⟨kept.queues, kept.bindings, kept.channels⟩
        (todo ▸ updated k (by simp [Section.known_iff]))
  | run k choice =>
    obtain ⟨first, rest, middle, next, pending, ran, rfl, inside⟩ := World.run_inv stepped
    have waiting (s : Section) (member : s ∈ first :: rest) : s ∈ w.todo k := pending ▸ member
    have known := refs.pending k first (waiting first (List.mem_cons_self ..))
    have maps := refs.maps_of_runSection known ran extension
    obtain ⟨rest', pending', todo⟩ := (World.Advances.of_runSection pending ran).todo
    obtain ⟨-, rfl⟩ := List.cons.inj (pending'.symm.trans pending)
    refine assemble ⟨maps.queues, maps.bindings, maps.channels⟩ (todo ▸ updated k ?_)
    intro s member
    rcases List.mem_append.mp member with new | later
    · exact refs.known_of_runSection known ran extension s new
    · exact old k s (waiting s (List.mem_cons_of_mem _ later))
  | lock | probe | exhausted | record | wait | resume | written | failed | rollback =>
    have rests : w.Rests w' := by cases happens; assumption
    refine assemble ?_ (rests.todo ▸ old)
    simp only [World.step?] at stepped
    repeat' split at stepped
    all_goals first | contradiction | (cases stepped; exact ⟨kept.queues, kept.bindings, kept.channels⟩)

end Refs

section Known

variable {w w' : World} {k : ConnectionRef} {first : Section} {next : List Section}

theorem World.Advances.knownQueue (advances : w.Advances w' k first next) (refs : Refs w) {q : QueueRef}
    (refers : q ∈ first.queueRefs) : q < w.queue.size := by
  obtain ⟨rest, pending, -⟩ := advances.todo
  exact (refs.pending k first (pending ▸ List.mem_cons_self ..)).queues q refers

theorem World.Advances.knownConsumer (advances : w.Advances w' k first next) (refs : Refs w) {c : ConsumerRef}
    (refers : c ∈ first.consumerRefs) : c < w.consumer.size := by
  obtain ⟨rest, pending, -⟩ := advances.todo
  exact (refs.pending k first (pending ▸ List.mem_cons_self ..)).consumers c refers

end Known

end GolangMQ.Model
