import GolangMQ.Requests.Settlement

/-! # The registries of queues, channels and connections

A consumer is registered in the map of its queue and in the map of its channel, and the channel in the
map of its connection. The goroutine of the connection keeps the three in step: between two requests a
queue's map holds exactly the consumers of the open channels. While a request is handled they differ by
what is still on its list of errands, so the invariant speaks about that list. `ChannelOpen` does not look
whether the id is taken: the consumers of a channel it replaces stay registered for ever.
-/

namespace GolangMQ.Model

open Machine

namespace World

/-- Some queue has the consumer in its map. -/
def registered (w : World) (c : ConsumerRef) : Prop := ∃ q, c ∈ (w.queue q).consumers

/-- The consumer's channel has it under its tag. -/
def attached (w : World) (c : ConsumerRef) : Prop :=
  (w.channel (w.consumer c).channel).consumers.lookup (w.consumer c).tag = some c

/-- The channel is in the map of its connection, and the connection is live. -/
def opened (w : World) (ch : ChannelRef) : Prop :=
  (w.channelsOf (w.channel ch).conn).lookup (w.channel ch).id = some ch ∧ w.connected (w.channel ch).conn = true

end World

/-- What a step does to the maps of the queues. -/
inductive Roster (w : World) : Label → World → Prop
  | kept {label : Label} {w' : World} (same : ∀ c, w'.registered c ↔ w.registered c) : Roster w label w'
  | joined {k : ConnectionRef} {choice : Choice} {c : ConsumerRef} {rest : List Section} {w' : World}
      (pending : w.todo k = .register c :: rest) (joined : ∀ c', w'.registered c' ↔ c' = c ∨ w.registered c') :
      Roster w (.run k choice) w'
  | left {k : ConnectionRef} {choice : Choice} {c : ConsumerRef} {rest : List Section} {w' : World}
      (pending : w.todo k = .unregister c :: rest) (left : ∀ c', w'.registered c' ↔ c' ≠ c ∧ w.registered c') :
      Roster w (.run k choice) w'

variable {w w' : World} {label : Label} {k : ConnectionRef} {choice : Choice} {first : Section}
  {next rest left : List Section} {c : ConsumerRef} {ch : ChannelRef}

/-- The effects that change the map of a queue. -/
def Effect.enrols : Effect → Bool
  | .registerConsumer _ | .unregisterConsumer .. => true
  | _ => false

private theorem Store.consumers_apply (s : Store) {effect : Effect} (enrols : effect.enrols = false) (q : QueueRef) :
    ((s.apply effect).queue q).consumers = (s.queue q).consumers := by
  have changed := s.onQueue effect q
  generalize (s.apply effect).queue q = queue at changed ⊢
  cases changed with
  | newQueue =>
    rw [s.queue.beyond _ (Nat.le_refl _)]
    rfl
  | registerConsumer | unregisterConsumer => contradiction
  | _ => rfl

theorem World.registered_iff (wellformed : Wellformed w) :
    w.registered c ↔ c ∈ (w.queue (w.consumer c).queue).consumers := by
  refine ⟨fun ⟨q, member⟩ => ?_, fun member => ⟨_, member⟩⟩
  rw [(wellformed.members q c member).2]
  exact member

theorem World.registered_inside (wellformed : Wellformed w) (registered : w.registered c) : c < w.consumer.size := by
  obtain ⟨q, member⟩ := registered
  exact (wellformed.members q c member).1

private theorem World.registered_modify {q : QueueRef} {f : Queue → Queue} (inside : q < w.queue.size)
    (written : w'.queue = w.queue.modify q f) :
    w'.registered c ↔ c ∈ (f (w.queue q)).consumers ∨ ∃ other ≠ q, c ∈ (w.queue other).consumers := by
  constructor
  · rintro ⟨q', member⟩
    rw [written] at member
    by_cases same : q' = q
    · rw [same, w.queue.cell_modify_self f inside] at member
      exact .inl member
    · rw [w.queue.cell_modify_of_ne f same] at member
      exact .inr ⟨q', same, member⟩
  · rintro (here | ⟨q', other, member⟩)
    · exact ⟨q, by rwa [written, w.queue.cell_modify_self f inside]⟩
    · exact ⟨q', by rwa [written, w.queue.cell_modify_of_ne f other]⟩

theorem World.registered_apply {effect : Effect} (enrols : effect.enrols = false) :
    (w.apply effect).registered c ↔ w.registered c := by
  unfold registered
  simp only [World.apply, w.toStore.consumers_apply enrols]

theorem World.registered_registerConsumer (wellformed : Wellformed w) (inside : c < w.consumer.size)
    (c' : ConsumerRef) :
    (w.apply (.registerConsumer c)).registered c' ↔ c' = c ∨ w.registered c' := by
  refine (registered_modify (f := (·.registerConsumer c)) (wellformed.queueOf c inside) rfl).trans ⟨?_, ?_⟩
  · rintro (here | ⟨q, -, member⟩)
    · exact (Finset.mem_insert.1 here).imp_right fun old => ⟨_, old⟩
    · exact .inr ⟨q, member⟩
  · rintro (rfl | ⟨q, member⟩)
    · exact .inl (Finset.mem_insert_self ..)
    · by_cases same : q = (w.consumer c).queue
      · exact .inl (Finset.mem_insert_of_mem (same ▸ member))
      · exact .inr ⟨q, same, member⟩

theorem World.registered_unregisterConsumer (wellformed : Wellformed w) (inside : c < w.consumer.size)
    (order : List Message) (c' : ConsumerRef) :
    (w.apply (.unregisterConsumer c order)).registered c' ↔ c' ≠ c ∧ w.registered c' := by
  refine (registered_modify (f := (·.unregisterConsumer c order)) (wellformed.queueOf c inside) rfl).trans ⟨?_, ?_⟩
  · rintro (here | ⟨q, other, member⟩)
    · exact ⟨(Finset.mem_erase.1 here).1, _, (Finset.mem_erase.1 here).2⟩
    · refine ⟨?_, q, member⟩
      rintro rfl
      exact other (wellformed.members q c' member).2.symm
  · rintro ⟨other, q, member⟩
    by_cases same : q = (w.consumer c).queue
    · exact .inl (Finset.mem_erase_of_ne_of_mem other (same ▸ member))
    · exact .inr ⟨q, same, member⟩

theorem World.roster_of_step (wellformed : Wellformed w) (stepped : w.step? label = some w') : Roster w label w' := by
  obtain ⟨effect, store, happens⟩ := happens_of_step stepped
  have now (c : ConsumerRef) : w'.registered c ↔ (w.apply effect).registered c := by
    unfold registered
    rw [store]
    rfl
  cases happens with
  | @registerConsumer _ k choice c free advances =>
    obtain ⟨rest, pending, -⟩ := advances.todo
    have inside := advances.knownConsumer wellformed.toRefs (c := c) (by simp)
    exact .joined pending fun c' => (now c').trans (registered_registerConsumer wellformed inside c')
  | @unregisterConsumer _ k choice c free member all advances =>
    obtain ⟨rest, pending, -⟩ := advances.todo
    have inside := advances.knownConsumer wellformed.toRefs (c := c) (by simp)
    exact .left pending fun c' => (now c').trans (registered_unregisterConsumer wellformed inside _ c')
  | _ => exact .kept fun c => (now c).trans (registered_apply rfl)

/-- Whoever a channel has under some tag was there before the step. -/
theorem Owned.attached_before (owned : Owned w) (stepped : w.step? label = some w') {tag : String}
    (found : (w'.channel ch).consumers.lookup tag = some c) : c < w.consumer.size := by
  have before (old : (w.channel ch).consumers.lookup tag = some c) : c < w.consumer.size :=
    (owned.attached ch tag c old).1
  cases World.tables_of_step stepped with
  | kept channel | accepted channel | closed _ _ _ channel | departed _ channel => exact before (channel ▸ found)
  | @opened j env id _ asked alive idle channel =>
    by_cases same : ch = w.channel.size
    · rw [channel, same, w.channel.cell_alloc_self] at found
      contradiction
    · rw [channel, w.channel.cell_alloc_of_ne _ same] at found
      exact before found
  | @attached j choice c' header rest _ pending channel =>
    rw [channel] at found
    rcases w.channel.cell_modify_eq_or (w.consumer c').channel (·.attach (w.consumer c').tag c') ch with
      same | ⟨-, same⟩
    · exact before (same ▸ found)
    · rw [same] at found
      by_cases here : tag = (w.consumer c').tag
      · rw [here, Channel.attach, AList.lookup_insert] at found
        cases found
        exact ((owned.sections j _ (pending ▸ List.mem_cons_self ..)).consumers c (by simp)).1
      · exact before ((AList.lookup_insert_ne here).symm.trans found)

/-- A channel attaches a consumer under a tag that is free, so nobody else loses its place. -/
theorem attached_of_attach (owned : Owned w) (mine : c < w.consumer.size) (grows : w.Grows w')
    (fresh : (w.consumer c).tag ∉ (w.channel (w.consumer c).channel).consumers)
    (channel : w'.channel = w.channel.modify (w.consumer c).channel (·.attach (w.consumer c).tag c))
    {c' : ConsumerRef} (inside : c' < w.consumer.size) : w'.attached c' ↔ c' = c ∨ w.attached c' := by
  unfold World.attached
  rw [grows.store.channel inside, grows.store.tag inside, channel]
  by_cases here : (w.consumer c').channel = (w.consumer c).channel
  · rw [here, w.channel.cell_modify_self _ (owned.channelOf c mine)]
    by_cases tag : (w.consumer c').tag = (w.consumer c).tag
    · rw [tag, Channel.attach, AList.lookup_insert, AList.lookup_eq_none.2 fresh]
      simp [eq_comm]
    · have other : c' ≠ c := by
        rintro rfl
        exact tag rfl
      rw [Channel.attach, AList.lookup_insert_ne tag]
      simp [other]
  · have other : c' ≠ c := by
      rintro rfl
      exact here rfl
    rw [w.channel.cell_modify_of_ne _ here]
    simp [other]

/-- The sections the registries depend on. -/
def Section.errand : Section → Bool
  | .consume .. | .register _ | .attach .. | .cleanup _ | .unregister _ | .teardown | .depart => true
  | _ => false

/-- Those of `HandleConsume`. -/
def Section.joins : Section → Bool
  | .consume .. | .register _ | .attach .. => true
  | _ => false

/-- What a goroutine still has to do to the registries. -/
def World.errands (w : World) (k : ConnectionRef) : List Section := (w.todo k).filter Section.errand

/-- Where `HandleConsume` stands. -/
inductive Joining (w : World) : List Section → Prop
  | none {errands : List Section} (quiet : ∀ s ∈ errands, s.joins = false) : Joining w errands
  | consume {ch : ChannelRef} {header : Header} {queue tag : String} (opened : w.opened ch) :
      Joining w [.consume ch header queue tag]
  | register {c : ConsumerRef} {header : Header} (opened : w.opened (w.consumer c).channel)
      (fresh : (w.consumer c).tag ∉ (w.channel (w.consumer c).channel).consumers) :
      Joining w [.register c, .attach c header]
  | attach {c : ConsumerRef} {header : Header} (opened : w.opened (w.consumer c).channel)
      (fresh : (w.consumer c).tag ∉ (w.channel (w.consumer c).channel).consumers) (registered : w.registered c) :
      Joining w [.attach c header]

/-- The registries of connection `k` agree up to its errands: a registered consumer is in the map of an open
channel or about to be, or it is about to be unregistered; and a channel that is being cleaned up is no longer open,
unless its connection ends. -/
structure Agrees (w : World) (k : ConnectionRef) (errands : List Section) : Prop where
  joining : Joining w errands
  covered : ∀ c, w.owner c = k → w.registered c → (∃ header, .attach c header ∈ errands) ∨
    w.attached c ∧ (.unregister c ∈ errands ∨ .cleanup (w.consumer c).channel ∈ errands ∨
      w.opened (w.consumer c).channel ∧ .depart ∉ errands)
  present : ∀ c, w.owner c = k → w.attached c → w.opened (w.consumer c).channel → .depart ∉ errands → w.registered c
  leaving : ∀ c, .unregister c ∈ errands → w.opened (w.consumer c).channel → .depart ∈ errands
  closing : ∀ ch, .cleanup ch ∈ errands → w.opened ch → .depart ∈ errands

/-- What concerns connection `k` is as it was. -/
structure World.Undisturbed (w w' : World) (k : ConnectionRef) : Prop where
  registered : ∀ c, w'.owner c = k → (w'.registered c ↔ w.registered c)
  channel : ∀ ch < w.channel.size, (w.channel ch).conn = k → w'.channel ch = w.channel ch
  channelsOf : w'.channelsOf k = w.channelsOf k
  connected : w'.connected k = w.connected k

private theorem World.Undisturbed.opened_iff (undisturbed : w.Undisturbed w' k) (inside : ch < w.channel.size)
    (conn : (w.channel ch).conn = k) : w'.opened ch ↔ w.opened ch := by
  unfold World.opened
  rw [undisturbed.channel ch inside conn, conn, undisturbed.channelsOf, undisturbed.connected]

theorem World.Grows.attached_iff (grows : w.Grows w') (inside : c < w.consumer.size)
    (same : w'.channel (w.consumer c).channel = w.channel (w.consumer c).channel) : w'.attached c ↔ w.attached c := by
  unfold World.attached
  rw [grows.store.channel inside, grows.store.tag inside, same]

/-- A step that leaves alone what concerns a connection keeps its registries in agreement. -/
theorem Agrees.transfer (agrees : Agrees w k left) (wellformed : Wellformed w) (owned : Owned w)
    (mine : ∀ s ∈ left, s.OwnedBy w k) (stepped : w.step? label = some w') (undisturbed : w.Undisturbed w' k) :
    Agrees w' k left := by
  have grows := World.grows_of_step stepped
  have transport (c : ConsumerRef) (inside : c < w.consumer.size) (own : w.owner c = k) :
      (w'.attached c ↔ w.attached c) ∧ (w'.opened (w'.consumer c).channel ↔ w.opened (w.consumer c).channel) := by
    have known := owned.channelOf c inside
    refine ⟨grows.attached_iff inside (undisturbed.channel _ known own), ?_⟩
    rw [grows.store.channel inside]
    exact undisturbed.opened_iff known own
  have owns (c : ConsumerRef) (inside : c < w.consumer.size) (own : w'.owner c = k) : w.owner c = k :=
    (owned.owner_step grows inside).symm.trans own
  refine ⟨?_, fun c own registered => ?_, fun c own attached opened stays => ?_, fun c pending opened => ?_,
    fun ch pending opened => ?_⟩
  · cases agrees.joining with
    | none quiet => exact .none quiet
    | @consume ch header queue tag opened =>
      obtain ⟨inside, conn⟩ := (mine _ (List.mem_singleton_self _)).channels ch (by simp)
      exact .consume ((undisturbed.opened_iff inside conn).2 opened)
    | @register c header opened fresh =>
      obtain ⟨inside, own⟩ := (mine _ (List.mem_cons_self ..)).consumers c (by simp)
      refine .register ((transport c inside own).2.2 opened) ?_
      rwa [grows.store.channel inside, grows.store.tag inside, undisturbed.channel _ (owned.channelOf c inside) own]
    | @attach c header opened fresh registered =>
      obtain ⟨inside, own⟩ := (mine _ (List.mem_singleton_self _)).consumers c (by simp)
      refine .attach ((transport c inside own).2.2 opened) ?_
        ((undisturbed.registered c ((owned.owner_step grows inside).trans own)).2 registered)
      rwa [grows.store.channel inside, grows.store.tag inside, undisturbed.channel _ (owned.channelOf c inside) own]
  · have before := (undisturbed.registered c own).1 registered
    have inside := World.registered_inside wellformed before
    obtain ⟨attachedIff, openedIff⟩ := transport c inside (owns c inside own)
    rw [attachedIff, openedIff, grows.store.channel inside]
    exact agrees.covered c (owns c inside own) before
  · have inside := owned.attached_before stepped attached
    obtain ⟨attachedIff, openedIff⟩ := transport c inside (owns c inside own)
    exact (undisturbed.registered c own).2
      (agrees.present c (owns c inside own) (attachedIff.1 attached) (openedIff.1 opened) stays)
  · obtain ⟨inside, own⟩ := (mine _ pending).consumers c (by simp)
    exact agrees.leaving c pending ((transport c inside own).2.1 opened)
  · obtain ⟨inside, conn⟩ := (mine _ pending).channels ch (by simp)
    exact agrees.closing ch pending ((undisturbed.opened_iff inside conn).1 opened)

theorem Joining.quiet (joining : Joining w (first :: left)) (other : first.joins = false) :
    ∀ s ∈ left, s.joins = false := by
  cases joining with
  | none quiet => exact fun s member => quiet s (List.mem_cons_of_mem _ member)
  | _ => contradiction

/-- The sections that write to a registry. -/
def Section.alters : Section → Bool
  | .register _ | .unregister _ | .attach .. | .depart => true
  | _ => false

theorem undisturbed_of_run (wellformed : Wellformed w) (pending : w.todo k = first :: rest)
    (reads : first.alters = false)
    (stepped : w.step? (.run k choice) = some w') : w.Undisturbed w' k := by
  have clash {other : Section} {rest' : List Section} (pending' : w.todo k = other :: rest')
      (alters : other.alters = true) : False := by
    rw [pending] at pending'
    rw [(List.cons.inj pending').1, alters] at reads
    contradiction
  have registered : ∀ c, w'.registered c ↔ w.registered c := by
    cases World.roster_of_step wellformed stepped with
    | kept same => exact same
    | joined pending' | left pending' => exact (clash pending' rfl).elim
  cases World.tables_of_step stepped with
  | kept channel channelsOf connected =>
    exact ⟨fun c _ => registered c, fun ch _ _ => by rw [channel], by rw [channelsOf], by rw [connected]⟩
  | attached pending' | departed pending' => exact (clash pending' rfl).elim

namespace Agrees

/-- A refused `consume` has nothing left to do. -/
theorem refused {header : Header} {queue tag : String} (agrees : Agrees w k (.consume ch header queue tag :: left)) :
    Agrees w k left := by
  cases agrees.joining with
  | none quiet => exact absurd (quiet _ (List.mem_cons_self ..)) (by simp [Section.joins])
  | consume => exact ⟨.none (by simp), by simpa using agrees.covered, by simpa using agrees.present, by simp, by simp⟩

/-- The new consumer of a `consume` is on its way into both maps. -/
theorem accepted {header : Header} {queue tag : String} (agrees : Agrees w k (.consume ch header queue tag :: left))
    (channel : (w.consumer c).channel = ch) (fresh : (w.consumer c).tag ∉ (w.channel ch).consumers) :
    Agrees w k (.register c :: .attach c header :: left) := by
  cases agrees.joining with
  | none quiet => exact absurd (quiet _ (List.mem_cons_self ..)) (by simp [Section.joins])
  | consume opened =>
    subst channel
    refine ⟨.register opened fresh, fun c' own registered => ?_, by simpa using agrees.present, by simp, by simp⟩
    exact .inr (by simpa using agrees.covered c' own registered)

/-- `Channel.cleanup` goes through the consumers of its channel. -/
theorem cleanup {order : List ConsumerRef} (agrees : Agrees w k (.cleanup ch :: left)) (owned : Owned w)
    (all : order.Perm (w.channel ch).consumers.values) : Agrees w k (order.map Section.unregister ++ left) := by
  have depart : .depart ∈ order.map Section.unregister ++ left ↔ Section.depart ∈ .cleanup ch :: left := by simp
  refine ⟨.none fun s member => ?_, fun c own registered => ?_, fun c own attached opened stays => ?_,
    fun c pending opened => ?_, fun ch' pending opened => ?_⟩
  · rcases List.mem_append.1 member with new | old
    · obtain ⟨c, -, rfl⟩ := List.mem_map.1 new
      rfl
    · exact agrees.joining.quiet rfl s old
  · rw [depart]
    rcases agrees.covered c own registered with ⟨header, pending⟩ | ⟨attached, covers⟩
    · exact .inl ⟨header, by simpa using pending⟩
    · refine .inr ⟨attached, ?_⟩
      rcases covers with pending | pending | opened
      · exact .inl (List.mem_append_right _ (by simpa using pending))
      · rcases List.mem_cons.1 pending with same | pending
        · have channel : (w.consumer c).channel = ch := Section.cleanup.inj same
          have member : c ∈ order :=
            all.mem_iff.2 (AList.mem_values_iff.2 ⟨(w.consumer c).tag, by rw [← channel]; exact attached⟩)
          exact .inl (List.mem_append_left _ (List.mem_map_of_mem member))
        · exact .inr (.inl (List.mem_append_right _ pending))
      · exact .inr (.inr opened)
  · exact agrees.present c own attached opened fun pending => stays (depart.2 pending)
  · refine depart.2 ?_
    rcases List.mem_append.1 pending with new | old
    · obtain ⟨c', chosen, same⟩ := List.mem_map.1 new
      cases same
      have channel := (owned.of_values (all.subset chosen)).2
      exact agrees.closing ch (List.mem_cons_self ..) (channel ▸ opened)
    · exact agrees.leaving c (List.mem_cons_of_mem _ old) opened
  · have old : .cleanup ch' ∈ left := by simpa using pending
    exact depart.2 (agrees.closing ch' (List.mem_cons_of_mem _ old) opened)

/-- A consumer that is not registered needs no unregistering. -/
theorem unregistered (agrees : Agrees w k (.unregister c :: left)) (gone : ¬ w.registered c) : Agrees w k left := by
  have depart : .depart ∈ left ↔ Section.depart ∈ .unregister c :: left := by simp
  refine ⟨.none (agrees.joining.quiet rfl), fun c' own registered => ?_, fun c' own attached opened stays => ?_,
    fun c' pending opened => ?_, fun ch pending opened => ?_⟩
  · have other : c' ≠ c := by
      rintro rfl
      exact gone registered
    rw [depart]
    simpa [other] using agrees.covered c' own registered
  · exact agrees.present c' own attached opened fun pending => stays (depart.2 pending)
  · exact depart.2 (agrees.leaving c' (List.mem_cons_of_mem _ pending) opened)
  · exact depart.2 (agrees.closing ch (List.mem_cons_of_mem _ pending) opened)

/-- `Connection.cleanup` goes through the channels of its connection. -/
theorem teardown {order : List ChannelRef} (agrees : Agrees w k (.teardown :: left))
    (all : order.Perm (w.channelsOf k).values) :
    Agrees w k (order.map Section.cleanup ++ .depart :: left) := by
  have depart : Section.depart ∈ order.map Section.cleanup ++ .depart :: left := by simp
  refine ⟨.none fun s member => ?_, fun c own registered => ?_, fun c own attached opened stays => absurd depart stays,
    fun c pending opened => depart, fun ch' pending opened => depart⟩
  · rcases List.mem_append.1 member with new | old
    · obtain ⟨ch, -, rfl⟩ := List.mem_map.1 new
      rfl
    · rcases List.mem_cons.1 old with rfl | old
      · rfl
      · exact agrees.joining.quiet rfl s old
  · rcases agrees.covered c own registered with ⟨header, pending⟩ | ⟨attached, covers⟩
    · exact .inl ⟨header, by simpa using pending⟩
    · refine .inr ⟨attached, ?_⟩
      rcases covers with pending | pending | ⟨opened, -⟩
      · exact .inl (by simpa using pending)
      · exact .inr (.inl (List.mem_append_right _ (by simpa using pending)))
      · have member : (w.consumer c).channel ∈ order :=
          all.mem_iff.2 (AList.mem_values_iff.2 ⟨(w.channel (w.consumer c).channel).id, by rw [← own]; exact opened.1⟩)
        exact .inr (.inl (List.mem_append_left _ (List.mem_map_of_mem member)))

/-- `registerConsumer`, after which the consumer is on its way into the map of its channel. -/
theorem register (agrees : Agrees w k (.register c :: left)) (wellformed : Wellformed w) (owned : Owned w)
    (mine : c < w.consumer.size) (stepped : w.step? label = some w') (channel : w'.channel = w.channel)
    (channelsOf : w'.channelsOf = w.channelsOf) (connected : w'.connected = w.connected)
    (joined : ∀ c', w'.registered c' ↔ c' = c ∨ w.registered c') : Agrees w' k left := by
  have grows := World.grows_of_step stepped
  have openedIff (ch : ChannelRef) : w'.opened ch ↔ w.opened ch := by
    unfold World.opened
    rw [channel, channelsOf, connected]
  cases agrees.joining with
  | none quiet => exact absurd (quiet _ (List.mem_cons_self ..)) (by simp [Section.joins])
  | @register _ header opened fresh =>
    refine ⟨.attach ?_ ?_ ((joined c).2 (.inl rfl)), fun c' own registered => ?_,
      fun c' own attached opened stays => ?_,
      by simp, by simp⟩
    · rw [grows.store.channel mine]
      exact (openedIff _).2 opened
    · rwa [grows.store.channel mine, grows.store.tag mine, channel]
    · rcases (joined c').1 registered with rfl | before
      · exact .inl ⟨header, List.mem_singleton_self _⟩
      · have inside := World.registered_inside wellformed before
        have own : w.owner c' = k := (owned.owner_step grows inside).symm.trans own
        rw [grows.attached_iff inside (by rw [channel]), grows.store.channel inside, openedIff]
        simpa using agrees.covered c' own before
    · have inside := owned.attached_before stepped attached
      have own : w.owner c' = k := (owned.owner_step grows inside).symm.trans own
      rw [grows.attached_iff inside (by rw [channel])] at attached
      rw [grows.store.channel inside, openedIff] at opened
      exact (joined c').2 (.inr (agrees.present c' own attached opened (by simp)))

/-- `unregisterConsumer`. -/
theorem unregister (agrees : Agrees w k (.unregister c :: left)) (wellformed : Wellformed w) (owned : Owned w)
    (mine : ∀ s ∈ left, s.OwnedBy w k) (stepped : w.step? label = some w') (channel : w'.channel = w.channel)
    (channelsOf : w'.channelsOf = w.channelsOf) (connected : w'.connected = w.connected)
    (gone : ∀ c', w'.registered c' ↔ c' ≠ c ∧ w.registered c') : Agrees w' k left := by
  have grows := World.grows_of_step stepped
  have openedIff (ch : ChannelRef) : w'.opened ch ↔ w.opened ch := by
    unfold World.opened
    rw [channel, channelsOf, connected]
  have depart : .depart ∈ left ↔ Section.depart ∈ .unregister c :: left := by simp
  refine ⟨.none (agrees.joining.quiet rfl), fun c' own registered => ?_, fun c' own attached opened stays => ?_,
    fun c' pending opened => ?_, fun ch pending opened => ?_⟩
  · obtain ⟨other, before⟩ := (gone c').1 registered
    have inside := World.registered_inside wellformed before
    have own : w.owner c' = k := (owned.owner_step grows inside).symm.trans own
    rw [grows.attached_iff inside (by rw [channel]), grows.store.channel inside, openedIff, depart]
    simpa [other] using agrees.covered c' own before
  · have inside := owned.attached_before stepped attached
    have own : w.owner c' = k := (owned.owner_step grows inside).symm.trans own
    rw [grows.attached_iff inside (by rw [channel])] at attached
    rw [grows.store.channel inside, openedIff] at opened
    have stays : Section.depart ∉ .unregister c :: left := fun pending => stays (depart.2 pending)
    refine (gone c').2 ⟨?_, agrees.present c' own attached opened stays⟩
    rintro rfl
    exact stays (agrees.leaving c' (List.mem_cons_self ..) opened)
  · obtain ⟨inside, -⟩ := (mine _ pending).consumers c' (by simp)
    rw [grows.store.channel inside, openedIff] at opened
    exact depart.2 (agrees.leaving c' (List.mem_cons_of_mem _ pending) opened)
  · rw [openedIff] at opened
    exact depart.2 (agrees.closing ch (List.mem_cons_of_mem _ pending) opened)

/-- The last statements of `RegisterConsumer`: the consumer is in both maps. -/
theorem attach {header : Header} (agrees : Agrees w k (.attach c header :: left)) (wellformed : Wellformed w)
    (owned : Owned w) (mine : c < w.consumer.size) (stepped : w.step? label = some w')
    (channel : w'.channel = w.channel.modify (w.consumer c).channel (·.attach (w.consumer c).tag c))
    (channelsOf : w'.channelsOf = w.channelsOf) (connected : w'.connected = w.connected)
    (same : ∀ c', w'.registered c' ↔ w.registered c') : Agrees w' k left := by
  have grows := World.grows_of_step stepped
  have openedIff (ch : ChannelRef) (known : ch < w.channel.size) : w'.opened ch ↔ w.opened ch := by
    unfold World.opened
    rw [(grows.identity ch known).1, (grows.identity ch known).2, channelsOf, connected]
  cases agrees.joining with
  | none quiet => exact absurd (quiet _ (List.mem_cons_self ..)) (by simp [Section.joins])
  | @attach _ _ opened fresh registered =>
    have attachedIff (c' : ConsumerRef) (inside : c' < w.consumer.size) : w'.attached c' ↔ c' = c ∨ w.attached c' :=
      attached_of_attach owned mine grows fresh channel inside
    refine ⟨.none (by simp), fun c' own registered' => .inr ?_,
      fun c' own attached opened' stays => ?_, by simp, by simp⟩
    · have before := (same c').1 registered'
      have inside := World.registered_inside wellformed before
      have own : w.owner c' = k := (owned.owner_step grows inside).symm.trans own
      rw [attachedIff c' inside, grows.store.channel inside, openedIff _ (owned.channelOf c' inside)]
      by_cases here : c' = c
      · subst here
        exact ⟨.inl rfl, .inr (.inr ⟨opened, List.not_mem_nil⟩)⟩
      · have covers : w.attached c' ∧ w.opened (w.consumer c').channel := by
          simpa [here] using agrees.covered c' own before
        exact ⟨.inr covers.1, .inr (.inr ⟨covers.2, List.not_mem_nil⟩)⟩
    · have inside := owned.attached_before stepped attached
      have own : w.owner c' = k := (owned.owner_step grows inside).symm.trans own
      rw [grows.store.channel inside, openedIff _ (owned.channelOf c' inside)] at opened'
      rcases (attachedIff c' inside).1 attached with rfl | before
      · exact (same c').2 registered
      · exact (same c').2 (agrees.present c' own before opened' (by simp))

/-- The connection leaves `Server.connections`. -/
theorem depart (agrees : Agrees w k (.depart :: left)) (wellformed : Wellformed w) (owned : Owned w)
    (mine : ∀ s ∈ left, s.OwnedBy w k) (stepped : w.step? label = some w') (channel : w'.channel = w.channel)
    (connected : w'.connected k = false) (same : ∀ c', w'.registered c' ↔ w.registered c') : Agrees w' k left := by
  have grows := World.grows_of_step stepped
  have closed (c : ConsumerRef) (own : w'.owner c = k) : ¬ w'.opened (w'.consumer c).channel := by
    rintro ⟨-, alive⟩
    rw [show (w'.channel (w'.consumer c).channel).conn = k from own, connected] at alive
    contradiction
  refine ⟨.none (agrees.joining.quiet rfl), fun c own registered => ?_,
    fun c own attached opened => absurd opened (closed c own),
    fun c pending opened => ?_, fun ch pending opened => ?_⟩
  · have before := (same c).1 registered
    have inside := World.registered_inside wellformed before
    have own : w.owner c = k := (owned.owner_step grows inside).symm.trans own
    rw [grows.attached_iff inside (by rw [channel]), grows.store.channel inside]
    rcases agrees.covered c own before with ⟨header, pending⟩ | ⟨attached, covers⟩
    · exact .inl ⟨header, by simpa using pending⟩
    · refine .inr ⟨attached, ?_⟩
      rcases covers with pending | pending | ⟨-, stays⟩
      · exact .inl (by simpa using pending)
      · exact .inr (.inl (by simpa using pending))
      · exact absurd (List.mem_cons_self ..) stays
  · obtain ⟨inside, own⟩ := (mine _ pending).consumers c (by simp)
    exact absurd opened (closed c ((owned.owner_step grows inside).trans own))
  · obtain ⟨inside, conn⟩ := (mine _ pending).channels ch (by simp)
    rw [World.opened, channel, conn, connected] at opened
    exact absurd opened.2 Bool.false_ne_true

end Agrees

theorem errands_of_runs (neutral : first.errand = false) (runs : Runs w k choice first w' next) :
    next.filter Section.errand = [] := by
  refine List.filter_eq_nil_iff.2 fun s member => ?_
  cases leads_of_runs runs member with
  | consumeRegister | consumeAttach | cleanup | teardown | depart => contradiction
  | _ => exact Bool.false_ne_true

/-- The errands after a section has run. -/
theorem World.Rests.errands_setTodo (rests : w.Rests w') (inside : k < w.connection.size) :
    (w'.setTodo k (next ++ rest)).errands k = next.filter Section.errand ++ rest.filter Section.errand := by
  rw [World.errands, rests.todo_setTodo inside, Function.update_self, List.filter_append]

theorem Owned.errands (owned : Owned w) (pending : w.todo k = first :: rest) :
    ∀ s ∈ first :: rest.filter Section.errand, s.OwnedBy w k := by
  intro s member
  refine owned.sections k s ?_
  rw [pending]
  rcases List.mem_cons.1 member with rfl | old
  · exact List.mem_cons_self ..
  · exact List.mem_cons_of_mem _ (List.mem_of_mem_filter old)

/-- One step of the goroutine itself. -/
private theorem agrees_of_run (agrees : Agrees w k (w.errands k)) (wellformed : Wellformed w) (owned : Owned w)
    (stepped : w.step? (.run k choice) = some w') : Agrees w' k (w'.errands k) := by
  have ran := World.steps_of_step stepped
  cases ran with
  | @run _ _ first rest next middle inside pending runs rests =>
    have mine := owned.errands pending
    rw [World.errands, pending] at agrees
    rw [rests.errands_setTodo inside]
    have reading (reads : first.alters = false) (errand : first.errand = true) :
        Agrees (middle.setTodo k (next ++ rest)) k (first :: rest.filter Section.errand) := by
      rw [List.filter_cons_of_pos errand] at agrees
      exact agrees.transfer wellformed owned mine stepped (undisturbed_of_run wellformed pending reads stepped)
    by_cases errand : first.errand = true
    · cases runs with
      | consumeRefused => exact (reading rfl rfl).refused
      | @consume ch header queue tag q declared fresh =>
        have new : ((w.apply (.newConsumer (w.consumerTag ch tag) q ch)).consumer w.consumer.size) =
            { tag := w.consumerTag ch tag, queue := q, channel := ch } := w.consumer.cell_alloc_self _
        refine (reading rfl rfl).accepted (congrArg Consumer.channel new) ?_
        change ((w.apply (.newConsumer (w.consumerTag ch tag) q ch)).consumer w.consumer.size).tag ∉ _
        rw [new]
        exact fresh
      | @register c =>
        obtain ⟨known, -⟩ := (mine _ (List.mem_cons_self ..)).consumers c (by simp)
        have started := (w.apply (.registerConsumer c)).aligned_setTodo k ([.signal (w.consumer c).queue] ++ rest)
        exact agrees.register wellformed owned known stepped started.channel started.channelsOf started.connected
          (World.registered_registerConsumer wellformed known)
      | @attach c header =>
        obtain ⟨known, -⟩ := (mine _ (List.mem_cons_self ..)).consumers c (by simp)
        have started := (w.attach c).aligned_setTodo k ([.reply ⟨header, .consumeOK (w.consumer c).tag⟩] ++ rest)
        exact agrees.attach wellformed owned known stepped started.channel started.channelsOf started.connected
          fun _ => .rfl
      | @cleanup ch all =>
        rw [List.filter_eq_self.2 (by simp [Section.errand])]
        exact (reading rfl rfl).cleanup (owned.step stepped) all
      | @unregistered c free gone =>
        have started := w.aligned_setTodo k ([] ++ rest)
        have agrees := agrees.unregistered fun registered => gone ((World.registered_iff wellformed).1 registered)
        exact agrees.transfer wellformed owned (fun s member => mine s (List.mem_cons_of_mem _ member)) stepped
          ⟨fun _ _ => .rfl, fun _ _ _ => rfl, congrFun started.channelsOf k, congrFun started.connected k⟩
      | @unregister c free member all =>
        obtain ⟨known, -⟩ := (mine _ (List.mem_cons_self ..)).consumers c (by simp)
        have started := (w.apply (.unregisterConsumer c choice.messages)).aligned_setTodo k
          ([.signal (w.consumer c).queue] ++ rest)
        exact agrees.unregister wellformed owned (fun s member => mine s (List.mem_cons_of_mem _ member)) stepped
          started.channel started.channelsOf started.connected
          (World.registered_unregisterConsumer wellformed known choice.messages)
      | teardown all =>
        have reads := reading rfl rfl
        have started := World.aligned_setTodo
          (w.count fun m => { m with connectionsClosed := m.connectionsClosed + 1 }) k
          (choice.refs.map Section.cleanup ++ [.depart] ++ rest)
        have errands : (choice.refs.map Section.cleanup ++ [Section.depart]).filter Section.errand ++
          rest.filter Section.errand =
            choice.refs.map Section.cleanup ++ .depart :: rest.filter Section.errand := by
          rw [List.filter_append, List.filter_eq_self.2 (by simp [Section.errand]), List.append_assoc]
          rfl
        rw [errands]
        refine reads.teardown ?_
        rw [started.channelsOf]
        exact all
      | depart =>
        have started := World.aligned_setTodo (w.modifyConnection k fun conn => { conn with live := false }) k
          ([] ++ rest)
        refine agrees.depart wellformed owned (fun s member => mine s (List.mem_cons_of_mem _ member)) stepped
          started.channel ?_ fun _ => .rfl
        rw [started.connected, World.connected_modifyConnection _ inside, Function.update_self]
      | _ => contradiction
    · rw [List.filter_cons_of_neg errand] at agrees
      rw [errands_of_runs (Bool.eq_false_of_not_eq_true errand) runs, List.nil_append]
      have reads : first.alters = false := by cases first <;> first | rfl | exact absurd rfl errand
      exact agrees.transfer wellformed owned (fun s member => mine s (List.mem_cons_of_mem _ member)) stepped
        (undisturbed_of_run wellformed pending reads stepped)
  | dispatch ofDispatcher => contradiction

/-- The consumers that `ChannelOpen` cuts off: those of the channel that has the id. -/
def World.replaced (w : World) : Label → List ConsumerRef
  | .request k env =>
    match env.request with
    | .channelOpen id => (((w.channelsOf k).lookup id).map fun ch => (w.channel ch).consumers.values).getD []
    | _ => []
  | _ => []

/-- Every `channel.open` names an id that is not open, or whose channel has no consumers. -/
def Unreplaced (w : World) (label : Label) : Prop := w.replaced label = []

instance (w : World) (label : Label) : Decidable (Unreplaced w label) := inferInstanceAs (Decidable (_ = _))

private theorem Unreplaced.not_attached {env : Envelope} {id : UInt16} (unreplaced : Unreplaced w (.request k env))
    (asked : env.request = .channelOpen id) (found : (w.channelsOf k).lookup id = some (w.consumer c).channel) :
    ¬ w.attached c := by
  intro attached
  have none : (w.channel (w.consumer c).channel).consumers.values = [] := by
    simpa only [Unreplaced, World.replaced, asked, found, Option.map_some, Option.getD_some] using unreplaced
  have member : c ∈ (w.channel (w.consumer c).channel).consumers.values := AList.mem_values_iff.2 ⟨_, attached⟩
  rw [none] at member
  exact List.not_mem_nil member

namespace Agrees

/-- Between two requests, what is registered is what is attached to an open channel. -/
theorem iff_of_idle (agrees : Agrees w k []) (own : w.owner c = k) :
    w.registered c ↔ w.attached c ∧ w.opened (w.consumer c).channel := by
  constructor
  · intro registered
    simpa using agrees.covered c own registered
  · rintro ⟨attached, opened⟩
    exact agrees.present c own attached opened List.not_mem_nil

private theorem of_iff (same : ∀ c, w.owner c = k → (w.registered c ↔ w.attached c ∧ w.opened (w.consumer c).channel)) :
    Agrees w k [] where
  joining := .none (by simp)
  covered c own registered := .inr (by simpa using (same c own).1 registered)
  present c own attached opened _ := (same c own).2 ⟨attached, opened⟩
  leaving _ pending := absurd pending List.not_mem_nil
  closing _ pending := absurd pending List.not_mem_nil

private theorem consume (agrees : Agrees w k []) (opened : w.opened ch) (header : Header) (queue tag : String) :
    Agrees w k [.consume ch header queue tag] :=
  ⟨.consume opened, by simpa using agrees.covered, by simpa using agrees.present, by simp, by simp⟩

private theorem ending (agrees : Agrees w k []) : Agrees w k [.teardown] :=
  ⟨.none (by simp [Section.joins]), by simpa using agrees.covered, by simpa using agrees.present, by simp, by simp⟩

end Agrees

/-- `ChannelOpen`. -/
private theorem agrees_of_opened {env : Envelope} {id : UInt16} (agrees : Agrees w k []) (wellformed : Wellformed w)
    (owned : Owned w) (unreplaced : Unreplaced w (.request k env)) (asked : env.request = .channelOpen id)
    (stepped : w.step? (.request k env) = some w') (same : ∀ c, w'.registered c ↔ w.registered c)
    (channel : w'.channel = w.channel.alloc { id, conn := k })
    (channelsOf : w'.channelsOf = Function.update w.channelsOf k ((w.channelsOf k).insert id w.channel.size))
    (connected : w'.connected = w.connected) : Agrees w' k [] := by
  have grows := World.grows_of_step stepped
  have kept (ch : ChannelRef) (known : ch < w.channel.size) : w'.channel ch = w.channel ch := by
    rw [channel]
    exact w.channel.cell_alloc_of_ne _ (Nat.ne_of_lt known)
  refine .of_iff fun c own => ?_
  by_cases inside : c < w.consumer.size
  · have known := owned.channelOf c inside
    have own : w.owner c = k := (owned.owner_step grows inside).symm.trans own
    have conn : (w.channel (w.consumer c).channel).conn = k := own
    rw [same, agrees.iff_of_idle own, grows.attached_iff inside (kept _ known),
      grows.store.channel inside, World.opened,
      World.opened, kept _ known, conn, channelsOf, connected, Function.update_self]
    refine and_congr_right fun attached => and_congr_left fun _ => ?_
    by_cases taken : (w.channel (w.consumer c).channel).id = id
    · rw [taken, AList.lookup_insert]
      refine iff_of_false (fun found => unreplaced.not_attached asked found attached) fun found => ?_
      exact Nat.ne_of_gt known (Option.some.inj found)
    · rw [AList.lookup_insert_ne taken]
  · refine iff_of_false (fun registered => inside ?_) fun covers => inside (owned.attached_before stepped covers.1)
    exact World.registered_inside wellformed ((same c).1 registered)

/-- `ChannelClose` up to the cleanup of the channel. -/
private theorem agrees_of_closed {env : Envelope} (agrees : Agrees w k []) (wellformed : Wellformed w)
    (owned : Owned w) (stepped : w.step? (.request k env) = some w') (same : ∀ c, w'.registered c ↔ w.registered c)
    (channel : w'.channel = w.channel)
    (channelsOf : w'.channelsOf = Function.update w.channelsOf k ((w.channelsOf k).erase env.channelID))
    (connected : w'.connected = w.connected) :
    Agrees w' k (((w.channelsOf k).lookup env.channelID).map Section.cleanup).toList := by
  have grows := World.grows_of_step stepped
  have openedIff (ch : ChannelRef) (conn : (w.channel ch).conn = k) :
      w'.opened ch ↔ w.opened ch ∧ (w.channel ch).id ≠ env.channelID := by
    unfold World.opened
    rw [channel, conn, channelsOf, connected, Function.update_self]
    by_cases here : (w.channel ch).id = env.channelID
    · rw [here, AList.lookup_erase]
      simp
    · rw [AList.lookup_erase_ne here]
      simp [here]
  refine ⟨.none ?_, fun c own registered => .inr ?_, fun c own attached opened _ => ?_, ?_, ?_⟩
  · intro s member
    obtain ⟨ch, -, rfl⟩ := Option.map_eq_some_iff.1 (Option.mem_toList.1 member)
    rfl
  · have before := (same c).1 registered
    have inside := World.registered_inside wellformed before
    have own : w.owner c = k := (owned.owner_step grows inside).symm.trans own
    obtain ⟨attached, opened⟩ := (agrees.iff_of_idle own).1 before
    rw [grows.attached_iff inside (by rw [channel]), grows.store.channel inside, openedIff _ own]
    refine ⟨attached, .inr ?_⟩
    by_cases here : (w.channel (w.consumer c).channel).id = env.channelID
    · refine .inl (Option.mem_toList.2 (Option.map_eq_some_iff.2 ⟨_, ?_, rfl⟩))
      rw [← here, ← own]
      exact opened.1
    · exact .inr ⟨⟨opened, here⟩, by simp⟩
  · have inside := owned.attached_before stepped attached
    have own : w.owner c = k := (owned.owner_step grows inside).symm.trans own
    rw [grows.attached_iff inside (by rw [channel])] at attached
    rw [grows.store.channel inside, openedIff _ own] at opened
    exact (same c).2 ((agrees.iff_of_idle own).2 ⟨attached, opened.1⟩)
  · simp
  · intro ch pending opened
    obtain ⟨ch', found, same⟩ := Option.map_eq_some_iff.1 (Option.mem_toList.1 pending)
    cases same
    obtain ⟨-, id, conn⟩ := owned.opened k _ _ found
    exact absurd id ((openedIff ch conn).1 opened).2

theorem errands_route (ch : ChannelRef) (env : Envelope) : (Model.route ch env).filter Section.errand = [] ∨
    ∃ header queue tag, (Model.route ch env).filter Section.errand = [.consume ch header queue tag] := by
  unfold Model.route
  cases env.request with
  | consume queue tag =>
    dsimp only
    cases env.malformed
    · exact .inr ⟨env.header, queue, tag, rfl⟩
    · exact .inl rfl
  | _ =>
    dsimp only
    cases env.malformed <;> exact .inl rfl

/-- A new request on an idle connection. -/
private theorem agrees_of_request {env : Envelope} (agrees : Agrees w k (w.errands k)) (wellformed : Wellformed w)
    (owned : Owned w)
    (unreplaced : Unreplaced w (.request k env)) (stepped : w.step? (.request k env) = some w') :
    Agrees w' k (w'.errands k) := by
  have asks := World.steps_of_step stepped
  cases asks with
  | request alive idle =>
    have inside := World.inside_of_live alive
    obtain ⟨rests, store, -⟩ := w.handle_spec k env
    rw [World.errands, idle] at agrees
    rw [World.errands, rests.todo_setTodo inside, Function.update_self]
    have started := (w.handle k env).1.aligned_setTodo k (w.handle k env).2
    have same (c : ConsumerRef) : ((w.handle k env).1.setTodo k (w.handle k env).2).registered c ↔ w.registered c := by
      unfold World.registered
      rw [World.setTodo, World.modifyConnection, store]
    revert started stepped same
    generalize (w.handle k env).1.setTodo k (w.handle k env).2 = target
    refine w.handle_cases k env (P := fun v next => w.step? (.request k env) = some target → v.Aligned target →
      (∀ c, target.registered c ↔ w.registered c) → Agrees target k (next.filter Section.errand))
      (fun id asked stepped started same => ?_) (fun asked stepped started same => ?_)
      (fun _ stepped started same => ?_) (fun ch found stepped started same => ?_)
    · refine agrees_of_opened agrees wellformed owned unreplaced asked stepped same started.channel ?_ ?_
      · rw [started.channelsOf]
        exact World.channelsOf_modifyConnection { w with channel := w.channel.alloc { id, conn := k } } inside _
      · rw [started.connected]
        exact World.connected_kept { w with channel := w.channel.alloc { id, conn := k } } k _ rfl
    · have closed := agrees_of_closed agrees wellformed owned stepped same started.channel
        (started.channelsOf.trans (w.channelsOf_modifyConnection inside _))
        (started.connected.trans (w.connected_kept k _ rfl))
      rw [List.filter_append, List.filter_eq_self.2 (by simp [Section.errand]),
        List.filter_cons_of_neg (by simp [Section.errand]), List.filter_nil, List.append_nil]
      exact closed
    · have undisturbed : w.Undisturbed target k :=
        ⟨fun c _ => same c, fun ch _ _ => by rw [started.channel], by rw [started.channelsOf],
          by rw [started.connected]⟩
      exact agrees.transfer wellformed owned (by simp) stepped undisturbed
    · have undisturbed : w.Undisturbed target k :=
        ⟨fun c _ => same c, fun ch _ _ => by rw [started.channel], by rw [started.channelsOf],
          by rw [started.connected]⟩
      have still := agrees.transfer wellformed owned (by simp) stepped undisturbed
      rcases errands_route ch env with none | ⟨header, queue, tag, consumes⟩
      · rwa [none]
      · rw [consumes]
        refine still.consume ?_ header queue tag
        obtain ⟨-, id, conn⟩ := owned.opened k _ ch found
        rw [World.opened, started.channel, started.channelsOf, started.connected, id, conn]
        exact ⟨found, alive⟩
  | dispatch ofDispatcher => contradiction

/-- The sections of another goroutine are about consumers of its own connection. -/
theorem Owned.foreign (owned : Owned w) {j : ConnectionRef} (other : j ≠ k) (pending : w.todo j = first :: rest)
    (refers : c ∈ first.consumerRefs) : c < w.consumer.size ∧ w.owner c ≠ k := by
  obtain ⟨inside, own⟩ := (owned.sections j first (pending ▸ List.mem_cons_self ..)).consumers c refers
  exact ⟨inside, fun mine => other (own.symm.trans mine)⟩

theorem registered_of_other (wellformed : Wellformed w) (owned : Owned w) (still : ∀ choice, label ≠ .run k choice)
    (stepped : w.step? label = some w') (own : w'.owner c = k) : w'.registered c ↔ w.registered c := by
  have grows := World.grows_of_step stepped
  have differs {j : ConnectionRef} {s : Section} {rest : List Section} {choice : Choice} {c' : ConsumerRef}
      (pending : w.todo j = s :: rest) (runs : label = .run j choice) (refers : c' ∈ s.consumerRefs) : c ≠ c' := by
    rintro rfl
    have other : j ≠ k := by
      rintro rfl
      exact still choice runs
    obtain ⟨inside, foreign⟩ := owned.foreign other pending refers
    exact foreign ((owned.owner_step grows inside).symm.trans own)
  cases World.roster_of_step wellformed stepped with
  | kept same => exact same c
  | @joined _ _ c' _ _ pending joined =>
    have other : c ≠ c' := differs pending rfl (by simp)
    simp [joined c, other]
  | @left _ _ c' _ _ pending left =>
    have other : c ≠ c' := differs pending rfl (by simp)
    simp [left c, other]

theorem channel_of_other (owned : Owned w) (still : ∀ choice, label ≠ .run k choice) (stepped : w.step? label = some w')
    (inside : ch < w.channel.size) (conn : (w.channel ch).conn = k) : w'.channel ch = w.channel ch := by
  cases World.tables_of_step stepped with
  | kept channel | accepted channel | closed _ _ _ channel | departed _ channel => rw [channel]
  | opened _ _ _ channel => rw [channel, w.channel.cell_alloc_of_ne _ (Nat.ne_of_lt inside)]
  | @attached j choice c header rest _ pending channel =>
    have foreign : j ≠ k := by
      rintro rfl
      exact still choice rfl
    have other : ch ≠ (w.consumer c).channel := by
      rintro rfl
      exact (owned.foreign (c := c) foreign pending (by simp)).2 conn
    rw [channel]
    exact w.channel.cell_modify_of_ne (·.attach (w.consumer c).tag c) other

theorem channelsOf_of_other (busy : ∀ env, label ≠ .request k env) (stepped : w.step? label = some w') :
    w'.channelsOf k = w.channelsOf k := by
  cases World.tables_of_step stepped with
  | kept _ channelsOf | accepted _ channelsOf | attached _ _ channelsOf | departed _ _ channelsOf => rw [channelsOf]
  | @opened j env _ _ _ _ _ _ channelsOf | @closed j env _ _ _ _ _ channelsOf =>
    have other : k ≠ j := fun same => busy env (same ▸ rfl)
    rw [channelsOf, Function.update_of_ne other]

/-- Another goroutine leaves alone what concerns a connection. -/
private theorem undisturbed_of_other (wellformed : Wellformed w) (owned : Owned w)
    (still : ∀ choice, label ≠ .run k choice)
    (busy : ∀ env, label ≠ .request k env) (old : label = .accept → k ≠ w.connection.size)
    (stepped : w.step? label = some w') : w.Undisturbed w' k where
  registered _ own := registered_of_other wellformed owned still stepped own
  channel _ inside conn := channel_of_other owned still stepped inside conn
  channelsOf := channelsOf_of_other busy stepped
  connected := by
    cases World.tables_of_step stepped with
    | kept _ _ connected | opened _ _ _ _ _ connected | closed _ _ _ _ _ connected | attached _ _ _ connected =>
      rw [connected]
    | accepted _ _ connected => rw [connected, Function.update_of_ne (old rfl)]
    | @departed j choice _ _ _ _ _ connected =>
      have other : k ≠ j := fun same => still choice (same ▸ rfl)
      rw [connected, Function.update_of_ne other]

/-- A connection that has just been accepted has no channels, and nobody is registered for it. -/
private theorem agrees_of_accepted (agrees : Agrees w w.connection.size []) (wellformed : Wellformed w)
    (owned : Owned w)
    (stepped : w.step? .accept = some w') : Agrees w' w.connection.size [] := by
  have grows := World.grows_of_step stepped
  have empty : w.channelsOf w.connection.size = ∅ := by
    rw [World.channelsOf, w.connection.beyond _ (Nat.le_refl _)]
    rfl
  have channelsOf : w'.channelsOf = w.channelsOf := by cases World.tables_of_step stepped <;> assumption
  have same : ∀ c, w'.registered c ↔ w.registered c := by cases World.roster_of_step wellformed stepped; assumption
  have closed {v : World} (none : v.channelsOf w.connection.size = ∅) {c : ConsumerRef}
    (own : v.owner c = w.connection.size) :
      ¬ v.opened (v.consumer c).channel := by
    rintro ⟨found, -⟩
    rw [show (v.channel (v.consumer c).channel).conn = _ from own, none] at found
    contradiction
  refine .of_iff fun c own => iff_of_false (fun registered => ?_) fun covers => ?_
  · have before := (same c).1 registered
    have own := (owned.owner_step grows (World.registered_inside wellformed before)).symm.trans own
    exact closed empty own ((agrees.iff_of_idle own).1 before).2
  · exact closed (by rw [channelsOf, empty]) own covers.2

/-- In every reached state the registries of every connection agree up to its errands. -/
theorem agrees_of_reachable (reached : broker.Reachable Unreplaced w) : ∀ k, Agrees w k (w.errands k) := by
  refine reached.invariant (P := fun w => ∀ k, Agrees w k (w.errands k)) (fun k => ?_) ?_
  · refine .of_iff fun c _ => iff_of_false ?_ ?_
    · rintro ⟨q, member⟩
      exact Finset.notMem_empty c member
    · rintro ⟨attached, -⟩
      contradiction
  intro source target label before agrees unreplaced stepped k
  have stepped : source.step? label = some target := stepped
  have wellformed := wellformed_of_reachable before
  have owned := owned_of_reachable before
  by_cases runs : ∃ choice, label = .run k choice
  · obtain ⟨choice, rfl⟩ := runs
    exact agrees_of_run (agrees k) wellformed owned stepped
  by_cases asks : ∃ env, label = .request k env
  · obtain ⟨env, rfl⟩ := asks
    exact agrees_of_request (agrees k) wellformed owned unreplaced stepped
  have still : ∀ choice, label ≠ .run k choice := fun choice same => runs ⟨choice, same⟩
  have busy : ∀ env, label ≠ .request k env := fun env same => asks ⟨env, same⟩
  have mine : ∀ s ∈ source.errands k, s.OwnedBy source k := fun s member =>
    owned.sections k s (List.mem_of_mem_filter member)
  have transferred (old : label = .accept → k ≠ source.connection.size) : Agrees target k (source.errands k) :=
    (agrees k).transfer wellformed owned mine stepped (undisturbed_of_other wellformed owned still busy old stepped)
  obtain ⟨effect, -, happens⟩ := World.happens_of_step stepped
  rcases World.todo_of_other happens still with todo | ⟨env, same, -⟩ | ⟨rfl, todo⟩
  · rw [World.errands, todo]
    by_cases new : label = .accept ∧ k = source.connection.size
    · obtain ⟨rfl, rfl⟩ := new
      have idle : source.todo source.connection.size = [] := by
        rw [World.todo, source.connection.beyond _ (Nat.le_refl _)]
        rfl
      have agrees := agrees source.connection.size
      rw [World.errands, idle] at agrees
      rw [idle]
      exact agrees_of_accepted agrees wellformed owned stepped
    · exact transferred fun accepts same => new ⟨accepts, same⟩
  · exact absurd same (busy env)
  · cases World.steps_of_step stepped with
    | disconnect alive idle =>
      have agrees := transferred (by simp)
      rw [World.errands, idle] at agrees
      rw [World.errands, todo]
      exact agrees.ending
    | dispatch ofDispatcher => contradiction

/-- The consumer is stored under its tag in a channel that is in the map of a live connection. -/
def World.Stored (w : World) (c : ConsumerRef) : Prop :=
  ∃ k id ch, w.connected k = true ∧ (w.channelsOf k).lookup id = some ch ∧
    (w.channel ch).consumers.lookup (w.consumer c).tag = some c

private theorem Owned.stored_iff (owned : Owned w) : w.Stored c ↔ w.attached c ∧ w.opened (w.consumer c).channel := by
  constructor
  · rintro ⟨k, id, ch, alive, found, stored⟩
    obtain ⟨-, -, channel⟩ := owned.attached ch _ c stored
    obtain ⟨-, rfl, rfl⟩ := owned.opened k id ch found
    rw [World.attached, channel]
    exact ⟨stored, found, alive⟩
  · rintro ⟨attached, found, alive⟩
    exact ⟨_, _, _, alive, found, attached⟩

/-- The registries of a state, and what a consumer leaves behind. -/
structure World.Coherent (w : World) : Prop where
  /-- Between the requests of its connection, a consumer is registered when it is stored. -/
  between : ∀ c, w.todo (w.owner c) = [] → ∀ q, c ∈ (w.queue q).consumers ↔ (w.consumer c).queue = q ∧ w.Stored c
  /-- A connection that has ended leaves no consumer and nothing pending. -/
  ended : ∀ k, w.todo k = [] → w.connected k = false → ∀ c, w.owner c = k →
    (∀ q, c ∉ (w.queue q).consumers) ∧ ∀ tag, tag ∉ (w.consumer c).pendingMessages
  /-- A consumer leaves its queue by a step that puts everything pending back into it. -/
  returned : ∀ label w', w.step? label = some w' → ∀ q, ∀ c ∈ (w.queue q).consumers, c ∉ (w'.queue q).consumers →
    (w'.queue q).messages.Perm ((w.consumer c).pendingMessages.values ++ (w.queue q).messages)

private theorem World.pending_returned {q : QueueRef} (stepped : w.step? label = some w')
    (member : c ∈ (w.queue q).consumers) (gone : c ∉ (w'.queue q).consumers) :
    (w'.queue q).messages.Perm ((w.consumer c).pendingMessages.values ++ (w.queue q).messages) := by
  obtain ⟨effect, store, happens⟩ := happens_of_step stepped
  rw [store] at gone ⊢
  have changed := w.toStore.onQueue effect q
  generalize (w.toStore.apply effect).queue q = queue at changed gone ⊢
  cases changed with
  | newQueue =>
    rw [w.queue.beyond _ (Nat.le_refl _)] at member
    contradiction
  | registerConsumer => exact absurd (Finset.mem_insert_of_mem member) gone
  | @unregisterConsumer c' order =>
    cases happens with
    | @unregisterConsumer _ _ choice _ free member' all advances =>
      have same : c = c' := by
        by_contra other
        exact gone (Finset.mem_erase_of_ne_of_mem other member)
      subst same
      have pushed : ((w.queue (w.consumer c).queue).unregisterConsumer c choice.messages).messages =
          choice.messages.reverse ++ (w.queue (w.consumer c).queue).messages := by
        simp [Queue.unregisterConsumer]
      rw [pushed]
      exact ((List.reverse_perm _).trans all).append_right _
  | _ => exact absurd member gone

/-- As long as no `channel.open` replaces a channel with consumers, the registries agree. -/
theorem coherent_of_unreplaced (reached : broker.Reachable Unreplaced w) : w.Coherent := by
  have wellformed := wellformed_of_reachable reached
  have owned := owned_of_reachable reached
  have agrees := agrees_of_reachable reached
  have idle (k : ConnectionRef) (none : w.todo k = []) : Agrees w k [] := by
    have agrees := agrees k
    rwa [World.errands, none] at agrees
  refine ⟨fun c none q => ?_, fun k none dead c own => ?_, fun label w' stepped q c member gone => ?_⟩
  · rw [owned.stored_iff, ← (idle _ none).iff_of_idle rfl]
    constructor
    · intro member
      exact ⟨(wellformed.members q c member).2, q, member⟩
    · rintro ⟨rfl, registered⟩
      exact (World.registered_iff wellformed).1 registered
  · have gone : ¬ w.registered c := by
      rw [(idle k none).iff_of_idle own]
      rintro ⟨-, -, alive⟩
      rw [show (w.channel (w.consumer c).channel).conn = k from own, dead] at alive
      contradiction
    refine ⟨fun q member => gone ⟨q, member⟩, fun tag pending => gone ?_⟩
    have inflight := ((wellformed.books c).tags tag).2 pending
    exact ⟨_, member_of_inflight wellformed (sound_of_reachable reached _) inflight⟩
  · exact World.pending_returned stepped member gone

/-- A client closes its channel with one delivery pending, opens it again, consumes, and goes away. -/
def reopening : List Label :=
  topology ++ consuming ++ publishing [7] ++ dispatching 0 0 ++ [.written 0] ++
    served 0 ⟨1, 0, false, .channelClose⟩
      [{ refs := [0] }, { messages := [⟨1, [7], "ex", "key"⟩] }, {}, {}] ++
    served 0 ⟨0, 0, false, .channelOpen 1⟩ [{}] ++ consuming ++
    [.disconnect 0, .run 0 { refs := [1] }, .run 0 { refs := [1] }, .run 0 {}, .run 0 {}, .run 0 {}]

theorem coherent_after_reopening :
    let w := broker.replay Unreplaced reopening
    w.connected 0 = false ∧ w.consumer.size = 2 ∧ (w.queue 0).messages = [⟨1, [7], "ex", "key"⟩] ∧ w.Coherent :=
  ⟨by decide +kernel, by decide +kernel, by decide +kernel, coherent_of_unreplaced (.of_replay _)⟩

/-- A client opens the id of its channel once more and goes away. -/
def replacing : List Label :=
  topology ++ consuming ++ served 0 ⟨0, 0, false, .channelOpen 1⟩ [{}] ++
    [.disconnect 0, .run 0 { refs := [1] }, .run 0 {}, .run 0 {}]

/-- The consumer of the replaced channel outlives its connection. -/
theorem incoherent_of_replaced : ¬ ∀ w, broker.Reachable anyStep w → w.Coherent := by
  intro coherent
  have left := (coherent (broker.replay anyStep replacing) (.of_replay _)).ended 0 (by decide +kernel)
    (by decide +kernel) 0
    (by decide +kernel)
  exact left.1 0 (by decide +kernel)

end GolangMQ.Model
