import GolangMQ.Model.Sections

/-! # Who owns a channel and a consumer

A channel belongs to the connection that opened it, a consumer to the channel it was made for. Both are
set once. The maps of a connection and of a channel hold their own objects under the objects' own names,
and the goroutine of a connection works with the channels and consumers of that connection only.
-/

namespace GolangMQ.Model

/-- The channels a pending section refers to. -/
@[simp] def Section.channelRefs : Section → List ChannelRef
  | .consume ch _ _ _ | .ackRange ch _ | .nackRange ch _ _ | .cleanup ch => [ch]
  | _ => []

namespace World

/-- The connection whose channel a consumer was made for. -/
def owner (w : World) (c : ConsumerRef) : ConnectionRef := (w.channel (w.consumer c).channel).conn

/-- Objects have been added at most, and keep what identifies them. -/
structure Grows (w w' : World) : Prop where
  store : w.toStore.Extends w'.toStore
  channels : w.channel.size ≤ w'.channel.size
  identity : ∀ ch < w.channel.size, (w'.channel ch).id = (w.channel ch).id ∧ (w'.channel ch).conn = (w.channel ch).conn

end World

variable {w w' : World} {label : Label} {k : ConnectionRef} {choice : Choice} {first : Section} {next : List Section}

namespace World

theorem grows_of_step (stepped : w.step? label = some w') : w.Grows w' := by
  obtain ⟨effect, store, -⟩ := happens_of_step stepped
  have extension := w.toStore.extends_apply effect
  rw [← store] at extension
  cases tables_of_step stepped with
  | kept channel | accepted channel | closed _ _ _ channel | departed _ channel =>
    exact ⟨extension, by rw [channel], fun ch _ => by rw [channel]; exact ⟨rfl, rfl⟩⟩
  | opened _ _ _ channel =>
    refine ⟨extension, by rw [channel]; exact Nat.le_succ _, fun ch inside => ?_⟩
    rw [channel, w.channel.cell_alloc_of_ne _ (Nat.ne_of_lt inside)]
    exact ⟨rfl, rfl⟩
  | @attached k choice c header rest _ pending channel =>
    refine ⟨extension, by rw [channel]; exact Nat.le_refl _, fun ch _ => ?_⟩
    rw [channel]
    exact ⟨w.channel.observe_modify Channel.id _ (·.attach (w.consumer c).tag c) rfl ch,
      w.channel.observe_modify Channel.conn _ (·.attach (w.consumer c).tag c) rfl ch⟩

end World

private theorem World.connections_of_step (stepped : w.step? label = some w') :
    w.connection.size ≤ w'.connection.size := by
  obtain ⟨effect, -, happens⟩ := happens_of_step stepped
  cases happens with
  | accepted size => exact size ▸ Nat.le_succ _
  | requested size | disconnected size => exact size.ge
  | lock _ rests | probe _ _ rests | exhausted _ _ rests | wait _ rests | resume _ rests | record _ _ rests
  | written _ rests | failed _ rests | rollback _ rests => exact rests.size.ge
  | quiet advances | newQueue advances | newConsumer _ advances | takeTag _ advances | enqueue _ advances
  | signal advances | registerConsumer _ advances | unregisterConsumer _ _ _ advances | ack _ _ _ advances
  | nack _ advances | requeue _ advances => exact advances.size.ge

/-- A channel belongs to a connection that has been accepted. -/
theorem conn_inside_of_reachable {ok : World → Label → Prop} (reached : broker.Reachable ok w) :
    ∀ ch < w.channel.size, (w.channel ch).conn < w.connection.size := by
  refine reached.invariant (P := fun w => ∀ ch < w.channel.size, (w.channel ch).conn < w.connection.size)
    (fun _ inside => absurd inside (Nat.not_lt_zero _)) ?_
  intro source target label _ known _ stepped ch inside
  have grows := World.grows_of_step stepped
  have more := World.connections_of_step stepped
  by_cases old : ch < source.channel.size
  · rw [(grows.identity ch old).2]
    exact (known ch old).trans_le more
  · cases World.tables_of_step stepped with
    | kept channel | accepted channel | closed _ _ _ channel | attached _ channel | departed _ channel =>
      rw [channel] at inside
      exact absurd inside old
    | opened _ alive _ channel =>
      rw [channel] at inside ⊢
      obtain rfl : ch = source.channel.size := Nat.le_antisymm (Nat.lt_succ_iff.1 inside) (Nat.le_of_not_lt old)
      rw [source.channel.cell_alloc_self]
      exact (World.inside_of_live alive).trans_le more

/-- The channels and consumers of a pending section belong to connection `k`. -/
structure Section.OwnedBy (w : World) (k : ConnectionRef) (pending : Section) : Prop where
  channels : ∀ ch ∈ pending.channelRefs, ch < w.channel.size ∧ (w.channel ch).conn = k
  consumers : ∀ c ∈ pending.consumerRefs, c < w.consumer.size ∧ w.owner c = k

private theorem Section.ownedBy_iff {pending : Section} :
    pending.OwnedBy w k ↔ (∀ ch ∈ pending.channelRefs, ch < w.channel.size ∧ (w.channel ch).conn = k) ∧
      ∀ c ∈ pending.consumerRefs, c < w.consumer.size ∧ w.owner c = k :=
  ⟨fun owned => ⟨owned.channels, owned.consumers⟩, fun owned => ⟨owned.1, owned.2⟩⟩

/-- Maps hold their own objects, and goroutines work on the objects of their connection. -/
structure Owned (w : World) : Prop where
  opened : ∀ k id ch, (w.channelsOf k).lookup id = some ch →
    ch < w.channel.size ∧ (w.channel ch).id = id ∧ (w.channel ch).conn = k
  attached : ∀ ch tag c, (w.channel ch).consumers.lookup tag = some c →
    c < w.consumer.size ∧ (w.consumer c).tag = tag ∧ (w.consumer c).channel = ch
  channelOf : ∀ c < w.consumer.size, (w.consumer c).channel < w.channel.size
  sections : ∀ k, ∀ pending ∈ w.todo k, pending.OwnedBy w k

namespace Owned

private theorem init : Owned broker.init where
  opened _ _ _ found := absurd found (by simp [broker, World.channelsOf, default])
  attached _ _ _ found := absurd found (by simp [broker, default])
  channelOf _ inside := absurd inside (Nat.not_lt_zero _)
  sections _ _ member := absurd member List.not_mem_nil

theorem of_values (owned : Owned w) {ch : ChannelRef} {c : ConsumerRef}
    (member : c ∈ (w.channel ch).consumers.values) : c < w.consumer.size ∧ (w.consumer c).channel = ch := by
  obtain ⟨tag, found⟩ := AList.mem_values_iff.1 member
  obtain ⟨inside, -, channel⟩ := owned.attached ch tag c found
  exact ⟨inside, channel⟩

private theorem owner_of_values (owned : Owned w) {ch : ChannelRef} {c : ConsumerRef}
    (member : c ∈ (w.channel ch).consumers.values) : c < w.consumer.size ∧ w.owner c = (w.channel ch).conn := by
  obtain ⟨inside, channel⟩ := owned.of_values member
  exact ⟨inside, by rw [World.owner, channel]⟩

theorem owner_step (owned : Owned w) (grows : w.Grows w') {c : ConsumerRef} (inside : c < w.consumer.size) :
    w'.owner c = w.owner c := by
  rw [World.owner, grows.store.channel inside]
  exact (grows.identity _ (owned.channelOf c inside)).2

private theorem ownedBy_mono (owned : Owned w) (grows : w.Grows w') {pending : Section} (mine : pending.OwnedBy w k) :
    pending.OwnedBy w' k where
  channels ch member := by
    obtain ⟨inside, conn⟩ := mine.channels ch member
    exact ⟨inside.trans_le grows.channels, (grows.identity ch inside).2.trans conn⟩
  consumers c member := by
    obtain ⟨inside, own⟩ := mine.consumers c member
    exact ⟨inside.trans_le grows.store.consumers, (owned.owner_step grows inside).trans own⟩

/-- The sections a section leads to work on what it works on, or on a new consumer of its channel. -/
theorem ownedBy_of_runs (owned : Owned w) (mine : first.OwnedBy w k) (runs : Runs w k choice first w' next)
    (grows : w.Grows w') : ∀ pending ∈ next, pending.OwnedBy w' k := by
  have from_before (before : ∀ pending ∈ next, pending.OwnedBy w k) : ∀ pending ∈ next, pending.OwnedBy w' k :=
    fun pending member => owned.ownedBy_mono grows (before pending member)
  cases runs with
  | @consume ch header queue tag q declared fresh =>
    obtain ⟨inside, conn⟩ := mine.channels ch (by simp)
    have new : (w.apply (.newConsumer (w.consumerTag ch tag) q ch)).consumer w.consumer.size =
        { tag := w.consumerTag ch tag, queue := q, channel := ch } := w.consumer.cell_alloc_self _
    have own : w.consumer.size < (w.apply (.newConsumer (w.consumerTag ch tag) q ch)).consumer.size ∧
        (w.apply (.newConsumer (w.consumerTag ch tag) q ch)).owner w.consumer.size = k :=
      ⟨Nat.lt_succ_self _, by rw [World.owner, new]; exact conn⟩
    simpa [Section.ownedBy_iff] using own
  | @ackRange ch _ all | @nackRange ch _ _ all | @cleanup ch all =>
    obtain ⟨-, conn⟩ := mine.channels ch (by simp)
    refine from_before ?_
    have inside : ∀ c ∈ choice.refs, c < w.consumer.size ∧ w.owner c = k := fun c chosen => by
      rw [← conn]
      exact owned.owner_of_values (all.subset chosen)
    simpa [Section.ownedBy_iff] using inside
  | ackNext | nackNext =>
    refine from_before ?_
    rintro pending member
    rw [List.mem_singleton.1 member]
    exact ⟨by simp, fun c later => mine.consumers c (List.mem_cons_of_mem _ later)⟩
  | teardown all =>
    have inside : ∀ ch ∈ choice.refs, ch < w.channel.size ∧ (w.channel ch).conn = k := fun ch chosen => by
      obtain ⟨id, found⟩ := AList.mem_values_iff.1 (all.subset chosen)
      obtain ⟨inside, -, conn⟩ := owned.opened k id ch found
      exact ⟨inside, conn⟩
    refine from_before fun pending member => ?_
    rcases List.mem_append.1 member with cleanup | last
    · obtain ⟨ch, chosen, rfl⟩ := List.mem_map.1 cleanup
      simpa [Section.ownedBy_iff] using inside ch chosen
    · rw [List.mem_singleton.1 last]
      simp [Section.ownedBy_iff]
  | route =>
    refine from_before fun pending member => ?_
    obtain ⟨q, -, rfl⟩ := List.mem_map.1 member
    simp [Section.ownedBy_iff]
  | publishUnknown =>
    refine from_before fun pending member => ?_
    obtain ⟨header, -, rfl⟩ := Option.map_eq_some_iff.1 (Option.mem_toList.1 member)
    simp [Section.ownedBy_iff]
  | nack =>
    refine from_before fun pending member => ?_
    rcases mem_afterNack member with rfl | rfl | rfl <;> simp [Section.ownedBy_iff]
  | _ =>
    refine from_before ?_
    simp [Section.ownedBy_iff]

/-- Handling an envelope starts with the channel it is for. -/
theorem ownedBy_handle (owned : Owned w) (k : ConnectionRef) (env : Envelope) :
    ∀ pending ∈ (w.handle k env).2, pending.OwnedBy w k := by
  intro pending member
  cases World.handled_of_mem member with
  | cleanup found =>
    obtain ⟨inside, -, conn⟩ := owned.opened k _ _ found
    simp [Section.ownedBy_iff, inside, conn]
  | routed found routed =>
    obtain ⟨inside, -, conn⟩ := owned.opened k _ _ found
    cases routed <;> simp [Section.ownedBy_iff, inside, conn]
  | _ => simp [Section.ownedBy_iff]

private theorem channelOf_step (owned : Owned w) (stepped : w.step? label = some w') :
    ∀ c < w'.consumer.size, (w'.consumer c).channel < w'.channel.size := by
  have grows := World.grows_of_step stepped
  obtain ⟨effect, store, happens⟩ := World.happens_of_step stepped
  intro c inside
  by_cases old : c < w.consumer.size
  · rw [grows.store.channel old]
    exact (owned.channelOf c old).trans_le grows.channels
  · cases happens with
    | newConsumer declared advances =>
      obtain ⟨rest, pending, -⟩ := advances.todo
      have mine := owned.sections _ _ (pending ▸ List.mem_cons_self ..)
      rw [store] at inside ⊢
      obtain rfl : c = w.consumer.size := Nat.le_antisymm (Nat.lt_succ_iff.mp inside) (Nat.le_of_not_lt old)
      simp only [Store.apply, Heap.cell_alloc_self]
      exact (mine.channels _ (by simp)).1.trans_le grows.channels
    | _ =>
      rw [store] at inside
      exact absurd inside old

private theorem opened_step (owned : Owned w) (stepped : w.step? label = some w') :
    ∀ k id ch, (w'.channelsOf k).lookup id = some ch →
      ch < w'.channel.size ∧ (w'.channel ch).id = id ∧ (w'.channel ch).conn = k := by
  have grows := World.grows_of_step stepped
  have old {k : ConnectionRef} {id : UInt16} {ch : ChannelRef} (found : (w.channelsOf k).lookup id = some ch) :
      ch < w'.channel.size ∧ (w'.channel ch).id = id ∧ (w'.channel ch).conn = k := by
    obtain ⟨inside, named, conn⟩ := owned.opened k id ch found
    have same := grows.identity ch inside
    exact ⟨inside.trans_le grows.channels, same.1.trans named, same.2.trans conn⟩
  intro k id ch found
  cases World.tables_of_step stepped with
  | kept _ channelsOf | accepted _ channelsOf | attached _ _ channelsOf | departed _ _ channelsOf =>
    rw [channelsOf] at found
    exact old found
  | @opened k' env id' _ asked alive idle channel channelsOf =>
    rw [channelsOf, Function.update_apply] at found
    split_ifs at found with same
    · by_cases here : id = id'
      · subst here same
        obtain rfl : w.channel.size = ch := by simpa using found
        rw [channel, Heap.cell_alloc_self]
        exact ⟨Nat.lt_succ_self _, rfl, rfl⟩
      · rw [AList.lookup_insert_ne here] at found
        exact old (same ▸ found)
    · exact old found
  | @closed k' env _ asked alive idle channel channelsOf =>
    rw [channelsOf, Function.update_apply] at found
    split_ifs at found with same
    · by_cases here : id = env.channelID
      · rw [here, AList.lookup_erase] at found
        contradiction
      · rw [AList.lookup_erase_ne here] at found
        exact old (same ▸ found)
    · exact old found

private theorem attached_step (owned : Owned w) (stepped : w.step? label = some w') :
    ∀ ch tag c, (w'.channel ch).consumers.lookup tag = some c →
      c < w'.consumer.size ∧ (w'.consumer c).tag = tag ∧ (w'.consumer c).channel = ch := by
  have grows := World.grows_of_step stepped
  have old {ch : ChannelRef} {tag : String} {c : ConsumerRef} (found : (w.channel ch).consumers.lookup tag = some c) :
      c < w'.consumer.size ∧ (w'.consumer c).tag = tag ∧ (w'.consumer c).channel = ch := by
    obtain ⟨inside, named, channel⟩ := owned.attached ch tag c found
    exact ⟨inside.trans_le grows.store.consumers, (grows.store.tag inside).trans named,
      (grows.store.channel inside).trans channel⟩
  intro ch tag c found
  cases World.tables_of_step stepped with
  | kept channel | accepted channel | closed _ _ _ channel | departed _ channel =>
    rw [channel] at found
    exact old found
  | @opened k env id _ asked alive idle channel =>
    rw [channel, w.channel.observe_alloc Channel.consumers { id, conn := k } rfl] at found
    exact old found
  | @attached k choice c' header rest _ pending channel =>
    rw [channel] at found
    rcases w.channel.cell_modify_eq_or (w.consumer c').channel (·.attach (w.consumer c').tag c') ch with
      kept | ⟨here, written⟩
    · rw [kept] at found
      exact old found
    · rw [written, Channel.attach] at found
      by_cases same : tag = (w.consumer c').tag
      · subst same
        obtain rfl : c' = c := by simpa using found
        have mine := (owned.sections k _ (pending ▸ List.mem_cons_self ..)).consumers c' (by simp)
        exact ⟨mine.1.trans_le grows.store.consumers, grows.store.tag mine.1,
          (grows.store.channel mine.1).trans here.symm⟩
      · rw [AList.lookup_insert_ne same] at found
        exact old found

private theorem sections_step (owned : Owned w) (stepped : w.step? label = some w') :
    ∀ k, ∀ pending ∈ w'.todo k, pending.OwnedBy w' k := by
  have grows := World.grows_of_step stepped
  have old : ∀ k, ∀ pending ∈ w.todo k, pending.OwnedBy w' k := fun k pending member =>
    owned.ownedBy_mono grows (owned.sections k pending member)
  have updated (k : ConnectionRef) {sections : List Section} (new : ∀ s ∈ sections, s.OwnedBy w' k) :
      ∀ j, ∀ s ∈ Function.update w.todo k sections j, s.OwnedBy w' j :=
    (Function.forall_update_iff w.todo fun j pending => ∀ s ∈ pending, s.OwnedBy w' j).2 ⟨new, fun j _ => old j⟩
  cases World.steps_of_step stepped with
  | accept =>
    intro k pending member
    refine old k pending ?_
    rw [World.todo, ← w.connection.observe_alloc Connection.todo { live := true } rfl k]
    exact member
  | @request k env alive idle =>
    obtain ⟨rests, -, -⟩ := w.handle_spec k env
    rw [rests.todo_setTodo (World.inside_of_live alive)]
    exact updated k fun pending member => owned.ownedBy_mono grows (owned.ownedBy_handle k env pending member)
  | @disconnect k alive idle =>
    rw [(World.Rests.refl w).todo_setTodo (World.inside_of_live alive)]
    exact updated k (by simp [Section.ownedBy_iff])
  | @run k choice first rest next middle inside pending runs rests =>
    rw [rests.todo_setTodo inside]
    refine updated k fun s member => ?_
    have waiting (s : Section) (member : s ∈ first :: rest) : s ∈ w.todo k := pending ▸ member
    rcases List.mem_append.1 member with new | later
    · have mine := owned.sections k first (waiting first (List.mem_cons_self ..))
      have ran := owned.ownedBy_of_runs mine runs ⟨grows.store, grows.channels, grows.identity⟩ s new
      exact ⟨ran.channels, ran.consumers⟩
    · exact old k s (waiting s (List.mem_cons_of_mem _ later))
  | dispatch dispatches aligned rests => exact rests.todo ▸ old

theorem step (owned : Owned w) (stepped : w.step? label = some w') : Owned w' :=
  ⟨owned.opened_step stepped, owned.attached_step stepped, owned.channelOf_step stepped, owned.sections_step stepped⟩

end Owned

theorem owned_of_reachable {ok : World → Label → Prop} (reached : broker.Reachable ok w) : Owned w :=
  reached.invariant Owned.init fun _ owned _ stepped => owned.step stepped

/-- Every queue is in `Broker.queues` under its own name. -/
def Named (w : World) : Prop := ∀ q < w.queue.size, w.queues.lookup (w.queue q).name = some q

theorem Store.size_apply {s : Store} {effect : Effect} (other : ∀ name dlx key, effect ≠ .newQueue name dlx key) :
    (s.apply effect).queue.size = s.queue.size := by
  cases effect with
  | newQueue name dlx key => exact absurd rfl (other name dlx key)
  | _ => rfl

private theorem World.queues_handle (w : World) (k : ConnectionRef) (env : Envelope) :
    (w.handle k env).1.queues = w.queues :=
  w.handle_cases k env (P := fun w' _ => w'.queues = w.queues) (fun _ _ => rfl) (fun _ => rfl) (fun _ => rfl)
    fun _ _ => rfl

private theorem Named.step (named : Named w) (stepped : w.step? label = some w') : Named w' := by
  have extension := (World.grows_of_step stepped).store
  have keeps (queues : w'.queues = w.queues) (size : w'.queue.size = w.queue.size) : Named w' := by
    intro q inside
    rw [size] at inside
    rw [extension.name q inside, queues]
    exact named q inside
  cases World.steps_of_step stepped with
  | accept | disconnect => exact keeps rfl rfl
  | @request k env =>
    refine keeps (w.queues_handle k env) ?_
    have store := (w.handle_spec k env).2.1
    exact congrArg (·.queue.size) store
  | @run k choice first rest next middle inside pending runs =>
    cases runs with
    | @declareQueue name dlx key fresh =>
      intro q inside
      by_cases old : q < w.queue.size
      · rw [extension.name q old]
        have other : (w.queue q).name ≠ name := by
          rintro rfl
          exact fresh (AList.lookup_isSome.1 (by rw [named q old]; rfl))
        exact (AList.lookup_insert_ne other).trans (named q old)
      · obtain rfl : q = w.queue.size := Nat.le_antisymm (Nat.lt_succ_iff.mp inside) (Nat.le_of_not_lt old)
        have new : ((w.queue.alloc { name, dlx, dlxRoutingKey := key }) w.queue.size).name = name :=
          congrArg Queue.name (w.queue.cell_alloc_self _)
        exact (congrArg (fun n => (w.queues.insert name w.queue.size).lookup n) new).trans (AList.lookup_insert ..)
    | _ => exact keeps rfl rfl
  | dispatch ofDispatcher aligned =>
    refine keeps aligned.queues ?_
    obtain ⟨effect, store, happens⟩ := World.happens_of_step stepped
    rw [store]
    refine Store.size_apply ?_
    rintro name dlx key rfl
    cases happens
    contradiction

theorem named_of_reachable {ok : World → Label → Prop} (reached : broker.Reachable ok w) : Named w :=
  reached.invariant (P := Named) (fun _ inside => absurd inside (Nat.not_lt_zero _)) fun _ named _ stepped =>
    named.step stepped

end GolangMQ.Model
