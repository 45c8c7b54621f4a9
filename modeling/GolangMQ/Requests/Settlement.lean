import GolangMQ.Dispatch.Tags
import GolangMQ.Requests.Completion

/-! # Which delivery an ack or a nack settles

The client names a delivery by its tag and its channel. `HandleAck` looks for a consumer of the channel that
has the tag in flight, in the order of the map's iteration, and `Broker.Ack` then looks for one of that
consumer's queue; `HandleNack` looks once. Tags are counted by queue, so two consumers of one channel that
serve different queues can have the same tag in flight. While the consumers of every channel serve one
queue, and tags are fresh, a tag has one holder and both handlers find it.
-/

namespace GolangMQ.Model

open Custody Machine

/-- The consumer a section stores in its channel. -/
def Section.attaches : Section → Option ConsumerRef
  | .attach c _ => some c
  | _ => none

/-- Tags are fresh, and a consumer joins only a channel whose consumers serve the same queue. -/
def Resolvable (w : World) (label : Label) : Prop :=
  FreshTags w label ∧
    match label with
    | .run k _ => ∀ c ∈ (w.todo k).head?.bind Section.attaches,
        ∀ c' ∈ (w.channel (w.consumer c).channel).consumers.values, (w.consumer c').queue = (w.consumer c).queue
    | _ => True

instance (w : World) : ∀ label, Decidable (Resolvable w label)
  | .run _ _ => inferInstanceAs (Decidable (_ ∧ ∀ c ∈ _, ∀ c' ∈ _, _))
  | .accept | .request .. | .disconnect _ | .lock _ | .probe .. | .exhausted _ | .record _ | .wait _
  | .resume _ | .written _ | .failed _ | .rollback _ => inferInstanceAs (Decidable (FreshTags w _ ∧ True))

variable {w w' v : World} {label : Label} {k : ConnectionRef} {q : QueueRef} {c c' : ConsumerRef} {tag : UInt16}

/-- A consumer that has a tag in flight is registered with its queue. -/
theorem member_of_inflight (wellformed : Wellformed w)
    (sound : Ledger.Sound Message.deliveryTag stamp (w.ledger (w.consumer c).queue))
    (inflight : tag ∈ (w.consumer c).inflightTags) : c ∈ (w.queue (w.consumer c).queue).consumers := by
  by_contra outside
  obtain ⟨msg, found, key⟩ := (wellformed.books c).lookup_of_mem inflight
  have holds : msg ∈ (w.consumer c).held (w.consumer c).queue :=
    (mem_held (wellformed.books c) rfl).2 (key.symm ▸ found)
  have nothing : (w.consumer c).held (w.consumer c).queue = 0 := sound.confined c outside
  rw [nothing] at holds
  exact Multiset.notMem_zero msg holds

/-- Two consumers of one queue have no tag in common. -/
theorem eq_of_inflight (wellformed : Wellformed w) (sound : Ledger.Sound Message.deliveryTag stamp (w.ledger q))
    (exclusive : Ledger.Exclusive Message.deliveryTag (w.ledger q)) (mine : (w.consumer c).queue = q)
    (mine' : (w.consumer c').queue = q) (inflight : tag ∈ (w.consumer c).inflightTags)
    (inflight' : tag ∈ (w.consumer c').inflightTags) : c = c' := by
  obtain ⟨msg, found, key⟩ := (wellformed.books c).lookup_of_mem inflight
  obtain ⟨msg', found', key'⟩ := (wellformed.books c').lookup_of_mem inflight'
  have member : c ∈ (w.queue q).consumers := by
    subst mine
    exact member_of_inflight wellformed sound inflight
  have member' : c' ∈ (w.queue q).consumers := by
    subst mine'
    exact member_of_inflight wellformed sound inflight'
  exact exclusive.holder_unique (k := w.ledger q) member member'
    ((mem_held (wellformed.books c) mine).2 (key.symm ▸ found))
    ((mem_held (wellformed.books c') mine').2 (key'.symm ▸ found')) (key.trans key'.symm)

/-- The consumers of a channel serve one queue. -/
def OneQueue (w : World) : Prop :=
  ∀ ch, ∀ c ∈ (w.channel ch).consumers.values, ∀ c' ∈ (w.channel ch).consumers.values,
    (w.consumer c).queue = (w.consumer c').queue

private theorem OneQueue.step (one : OneQueue w) (owned : Owned w) (resolvable : Resolvable w label)
    (stepped : w.step? label = some w') : OneQueue w' := by
  have grows := World.grows_of_step stepped
  have old {ch : ChannelRef} {c : ConsumerRef} (member : c ∈ (w.channel ch).consumers.values) :
      (w'.consumer c).queue = (w.consumer c).queue :=
    grows.store.queue (owned.of_values member).1
  intro ch c member c' member'
  cases World.tables_of_step stepped with
  | kept channel | accepted channel | closed _ _ _ channel | departed _ channel =>
    rw [channel] at member member'
    rw [old member, old member']
    exact one ch c member c' member'
  | @opened k env id _ asked alive idle channel =>
    rw [channel, w.channel.observe_alloc Channel.consumers { id, conn := k } rfl] at member member'
    rw [old member, old member']
    exact one ch c member c' member'
  | @attached k choice joins header rest _ pending channel =>
    have inside := ((owned.sections k _ (pending ▸ List.mem_cons_self ..)).consumers joins (by simp)).1
    have shared := resolvable.2 joins (by rw [pending]; rfl)
    rw [channel] at member member'
    rcases w.channel.cell_modify_eq_or (w.consumer joins).channel (·.attach (w.consumer joins).tag joins) ch with
      kept | ⟨rfl, written⟩
    · rw [kept] at member member'
      rw [old member, old member']
      exact one ch c member c' member'
    · rw [written] at member member'
      have serves {c : ConsumerRef}
          (member : c ∈ ((w.channel (w.consumer joins).channel).attach (w.consumer joins).tag joins).consumers.values) :
          (w'.consumer c).queue = (w.consumer joins).queue := by
        rcases AList.mem_values_insert member with rfl | before
        · exact grows.store.queue inside
        · exact (old before).trans (shared c before)
      rw [serves member, serves member']

theorem oneQueue_of_reachable (reached : broker.Reachable Resolvable w) : OneQueue w := by
  refine reached.invariant (P := OneQueue) ?_ ?_
  · intro ch c member
    exact absurd member (by simp [broker, default])
  · intro source target label before one resolvable stepped
    exact one.step (owned_of_reachable before) resolvable stepped

section Handlers

/-- The consumers after `tag` has been taken from `c`, and from nobody else. -/
def World.Settles (w w' : World) (c : ConsumerRef) (tag : UInt16) : Prop :=
  w'.consumer c = (w.consumer c).release tag ∧ ∀ c', c' ≠ c → w'.consumer c' = w.consumer c'

private theorem World.settles_of_release (inside : c < w.consumer.size)
    (released : w'.consumer = w.consumer.modify c (·.release tag)) : w.Settles w' c tag := by
  rw [World.Settles, released]
  exact ⟨w.consumer.cell_modify_self _ inside, fun c' other => w.consumer.cell_modify_of_ne _ other⟩

/-- `HandleAck`'s loop over the consumers of its channel, in any order: it stops at one that has the tag. -/
private theorem serves_ackScan {consumers : List ConsumerRef} (serves : v.Serves k w')
    (pending : v.todo k = [.ackScan consumers tag]) :
    ((∀ c ∈ consumers, tag ∉ (v.consumer c).inflightTags) ∧ w'.toStore = v.toStore) ∨
      ∃ c ∈ consumers, tag ∈ (v.consumer c).inflightTags ∧ ∃ u : World, u.toStore = v.toStore ∧ u.queues = v.queues ∧
        u.todo k = [.ack (v.queueName c) tag] ∧ u.Serves k w' := by
  induction consumers generalizing v with
  | nil =>
    obtain ⟨choice, middle, next, runs, todo, serves⟩ := serves.cons_inv pending
    cases runs with
    | ackUnknown =>
      obtain rfl := serves.nil_inv todo
      exact .inl ⟨by simp, rfl⟩
  | cons first rest ih =>
    obtain ⟨choice, middle, next, runs, todo, serves⟩ := serves.cons_inv pending
    cases runs with
    | ackFound found =>
      exact .inr ⟨first, List.mem_cons_self .., found, v.setTodo k _, rfl, rfl, todo, serves⟩
    | ackNext other =>
      rcases ih serves todo with ⟨none, same⟩ | ⟨c, member, found, u, store, queues, todo, serves⟩
      · exact .inl ⟨List.forall_mem_cons.2 ⟨other, none⟩, same⟩
      · exact .inr ⟨c, List.mem_cons_of_mem _ member, found, u, store, queues, todo, serves⟩

/-- `Broker.Ack` on a queue with one holder of the tag. -/
private theorem serves_ack {name : String} (serves : v.Serves k w') (pending : v.todo k = [.ack name tag])
    (named : v.queues.lookup name = some q) (inside : c < v.consumer.size) (member : c ∈ (v.queue q).consumers)
    (inflight : tag ∈ (v.consumer c).inflightTags)
    (unique : ∀ c' ∈ (v.queue q).consumers, tag ∈ (v.consumer c').inflightTags → c' = c) : v.Settles w' c tag := by
  obtain ⟨choice, middle, next, runs, todo, serves⟩ := serves.cons_inv pending
  cases runs with
  | ackUnnamed missing => exact absurd (missing.symm.trans named) (by simp)
  | ackNamed found =>
    obtain rfl := Option.some.inj (found.symm.trans named)
    obtain ⟨choice, middle, next, runs, todo, serves⟩ := serves.cons_inv todo
    cases runs with
    | ackGone free all gone => exact absurd inflight (gone c member)
    | @ackQueue _ _ c' free member' found' =>
      obtain rfl := unique c' member' found'
      refine World.settles_of_release inside ?_
      exact serves.consumer_eq (by rw [todo]; simp [Section.spares])

private theorem World.settleNack_setTodo (w : World) (msg : Message) (requeue : Bool) (before after : List Section) :
    ((w.setTodo k before).settleNack c msg tag requeue).setTodo k after =
      (w.settleNack c msg tag requeue).setTodo k after :=
  (w.settleNack c msg tag requeue).setTodo_setTodo k before after

private theorem World.afterNack_setTodo (w : World) (msg : Message) (requeue : Bool) (sections : List Section) :
    (w.setTodo k sections).afterNack c msg requeue = w.afterNack c msg requeue := rfl

/-- `HandleNack`'s loop over the consumers of its channel, in any order: it stops at one that has the tag. -/
private theorem serves_nackScan {consumers : List ConsumerRef} {requeue : Bool} (serves : v.Serves k w')
    (pending : v.todo k = [.nackScan consumers tag requeue]) :
    ((∀ c ∈ consumers, tag ∉ (v.consumer c).pendingMessages) ∧ w' = v.setTodo k []) ∨
      ∃ c ∈ consumers, ∃ msg, (v.consumer c).pendingMessages.lookup tag = some msg ∧
        ((v.settleNack c msg tag requeue).setTodo k (v.afterNack c msg requeue)).Serves k w' ∧
        ((v.settleNack c msg tag requeue).setTodo k (v.afterNack c msg requeue)).todo k =
          v.afterNack c msg requeue := by
  induction consumers generalizing v with
  | nil =>
    obtain ⟨choice, middle, next, runs, todo, serves⟩ := serves.cons_inv pending
    cases runs with
    | nackUnknown => exact .inl ⟨by simp, serves.nil_inv todo⟩
  | cons first rest ih =>
    obtain ⟨choice, middle, next, runs, todo, serves⟩ := serves.cons_inv pending
    cases runs with
    | @nack _ _ _ _ msg found =>
      rw [List.append_nil] at serves todo
      exact .inr ⟨first, List.mem_cons_self .., msg, found, serves, todo⟩
    | nackNext other =>
      rcases ih serves todo with ⟨none, same⟩ | ⟨c, member, msg, found, later⟩
      · rw [World.setTodo_setTodo] at same
        exact .inl ⟨List.forall_mem_cons.2 ⟨AList.lookup_eq_none.1 other, none⟩, same⟩
      · rw [World.settleNack_setTodo, World.afterNack_setTodo] at later
        exact .inr ⟨c, List.mem_cons_of_mem _ member, msg, found, later⟩

/-- What follows the removal in `HandleNack` leaves consumers alone. -/
theorem World.settles_of_afterNack {msg : Message} {requeue : Bool} (inside : c < v.consumer.size)
    (serves : ((v.settleNack c msg tag requeue).setTodo k (v.afterNack c msg requeue)).Serves k w')
    (todo : ((v.settleNack c msg tag requeue).setTodo k (v.afterNack c msg requeue)).todo k =
      v.afterNack c msg requeue) :
    v.Settles w' c tag := by
  refine World.settles_of_release inside (serves.consumer_eq ?_)
  rw [todo]
  exact spares_afterNack v c msg requeue

/-- `HandleNack`: no consumer of the channel has the tag, or one that has it loses it and the message goes on. -/
theorem World.handles_nack {ch : ChannelRef} {env : Envelope} {requeue : Option Bool}
    (opened : (w.channelsOf k).lookup env.channelID = some ch) (decodes : env.malformed = false)
    (asked : env.request = .nack tag requeue) (handles : w.Handles k env w') :
    ((∀ c ∈ (w.channel ch).consumers.values, tag ∉ (w.consumer c).pendingMessages) ∧ w' = w) ∨
      ∃ c ∈ (w.channel ch).consumers.values, ∃ msg, (w.consumer c).pendingMessages.lookup tag = some msg ∧
        ((w.settleNack c msg tag (requeue.getD true)).setTodo k (w.afterNack c msg (requeue.getD true))).Serves k w' ∧
        ((w.settleNack c msg tag (requeue.getD true)).setTodo k (w.afterNack c msg (requeue.getD true))).todo k =
          w.afterNack c msg (requeue.getD true) := by
  obtain ⟨alive, idle, serves, pending⟩ := handles.inv
  have found : (w.connection k).channels.lookup env.channelID = some ch := opened
  have handled : w.handle k env = (w, [.nackRange ch tag (requeue.getD true)]) := by
    simp only [World.handle, asked, found, Model.route, decodes, Bool.false_eq_true, if_false]
  rw [handled] at serves pending
  obtain ⟨choice, middle, next, runs, todo, serves⟩ := serves.cons_inv pending
  cases runs with
  | nackRange all =>
    rw [World.setTodo_setTodo] at serves todo
    rcases serves_nackScan serves todo with ⟨none, same⟩ | ⟨c, visited, msg, found, later⟩
    · rw [World.setTodo_setTodo, World.setTodo_nil idle] at same
      exact .inl ⟨fun c member => none c (all.mem_iff.2 member), same⟩
    · rw [World.settleNack_setTodo, World.afterNack_setTodo] at later
      exact .inr ⟨c, all.mem_iff.1 visited, msg, found, later⟩

/-- A nack settles the tag for one of the consumers that have it, if any has. -/
theorem World.settles_of_nack (owned : Owned w) {ch : ChannelRef} {env : Envelope} {requeue : Option Bool}
    (opened : (w.channelsOf k).lookup env.channelID = some ch) (decodes : env.malformed = false)
    (asked : env.request = .nack tag requeue) (handles : w.Handles k env w') :
    ((∀ c ∈ (w.channel ch).consumers.values, tag ∉ (w.consumer c).pendingMessages) ∧ w' = w) ∨
      ∃ c ∈ (w.channel ch).consumers.values, tag ∈ (w.consumer c).pendingMessages ∧ w.Settles w' c tag := by
  refine (handles_nack opened decodes asked handles).imp_right ?_
  rintro ⟨c, member, msg, found, serves, todo⟩
  exact ⟨c, member, AList.lookup_isSome.1 (found ▸ rfl), settles_of_afterNack (owned.of_values member).1 serves todo⟩

/-- The envelope settles `tag`: an ack, or a nack of either kind. -/
def Request.settles (request : Request) (tag : UInt16) : Prop :=
  request = .ack tag ∨ ∃ requeue, request = .nack tag requeue

/-- Handling an ack or a nack, when the tag has at most one holder among the consumers of the channel and of
each queue: the holder is released, and nobody else is touched. -/
private theorem settles_of_handles (wellformed : Wellformed w) (owned : Owned w) (named : Named w)
    (sound : ∀ q, Ledger.Sound Message.deliveryTag stamp (w.ledger q))
    (exclusive : ∀ q, Ledger.Exclusive Message.deliveryTag (w.ledger q)) {ch : ChannelRef} {env : Envelope}
    (opened : (w.channelsOf k).lookup env.channelID = some ch) (decodes : env.malformed = false)
    (settles : env.request.settles tag) (handles : w.Handles k env w') :
    ((∀ c ∈ (w.channel ch).consumers.values, tag ∉ (w.consumer c).pendingMessages) ∧ w'.consumer = w.consumer) ∨
      ∃ c ∈ (w.channel ch).consumers.values, tag ∈ (w.consumer c).pendingMessages ∧ w.Settles w' c tag := by
  obtain ⟨alive, idle, serves, pending⟩ := handles.inv
  have found : (w.connection k).channels.lookup env.channelID = some ch := opened
  rcases settles with asked | ⟨requeue, asked⟩
  · have handled : w.handle k env = (w, [.ackRange ch tag]) := by
      simp only [World.handle, asked, found, Model.route, decodes, Bool.false_eq_true, if_false]
    rw [handled] at serves pending
    obtain ⟨choice, middle, next, runs, todo, serves⟩ := serves.cons_inv pending
    cases runs with
    | ackRange all =>
      rcases serves_ackScan serves todo with ⟨none, same⟩ | ⟨c, visited, inflight, u, store, queues, todo, serves⟩
      · refine .inl ⟨fun c member holds => none c (all.mem_iff.2 member) (((wellformed.books c).tags tag).2 holds), ?_⟩
        rw [same]
        rfl
      · have member := all.mem_iff.1 visited
        have inside := (owned.of_values member).1
        have registered := member_of_inflight wellformed (sound _) inflight
        refine .inr ⟨c, member, ((wellformed.books c).tags tag).1 inflight, ?_⟩
        have kept : u.consumer = w.consumer := by rw [store]; rfl
        have members : (u.queue (w.consumer c).queue).consumers = (w.queue (w.consumer c).queue).consumers := by
          rw [store]; rfl
        have settled : u.Settles w' c tag := by
          refine serves_ack serves todo (q := (w.consumer c).queue) ?_ ?_ ?_ ?_ ?_
          · rw [queues]
            exact named _ (wellformed.queueOf c inside)
          · rwa [kept]
          · rwa [members]
          · rwa [kept]
          · intro c' member' inflight'
            rw [members] at member'
            rw [kept] at inflight'
            exact eq_of_inflight wellformed (sound _) (exclusive _)
              (wellformed.members _ c' member').2 rfl inflight' inflight
        rwa [World.Settles, kept] at settled
  · refine (World.settles_of_nack owned opened decodes asked handles).imp_left ?_
    rintro ⟨none, rfl⟩
    exact ⟨none, rfl⟩

end Handlers

/-- On channel `ch`, open under `id` on connection `k`: at most one outstanding delivery carries `tag`, and an ack or
a nack of it settles that delivery and no other, whatever the order of iteration. -/
def World.Identifies (w : World) (k : ConnectionRef) (id : UInt16) (ch : ChannelRef) (tag : UInt16) : Prop :=
  (∀ c ∈ (w.channel ch).consumers.values, ∀ c' ∈ (w.channel ch).consumers.values,
    tag ∈ (w.consumer c).pendingMessages → tag ∈ (w.consumer c').pendingMessages → c = c') ∧
  ∀ env w', env.channelID = id → env.malformed = false → env.request.settles tag → w.Handles k env w' →
    (∀ c ∈ (w.channel ch).consumers.values, tag ∈ (w.consumer c).pendingMessages → w.Settles w' c tag) ∧
    ((∀ c ∈ (w.channel ch).consumers.values, tag ∉ (w.consumer c).pendingMessages) →
      ∀ c, w'.consumer c = w.consumer c)

/-- In runs that take fresh tags and keep a channel to one queue, a tag identifies a delivery on each open channel, and
the ack or nack of it returns. -/
theorem tag_identifies_delivery (reached : broker.Reachable Resolvable w) {id : UInt16} {ch : ChannelRef}
    (opened : (w.channelsOf k).lookup id = some ch) (tag : UInt16) :
    w.Identifies k id ch tag ∧
      ∀ env, env.channelID = id → env.malformed = false → env.request.settles tag →
        w.connected k = true → w.todo k = [] → w.Unlocked → ∃ w', w.Handles k env w' := by
  have fresh : broker.Reachable FreshTags w := reached.mono fun _ _ met => met.1
  have wellformed := wellformed_of_reachable reached
  have unique : ∀ c ∈ (w.channel ch).consumers.values, ∀ c' ∈ (w.channel ch).consumers.values,
      tag ∈ (w.consumer c).pendingMessages → tag ∈ (w.consumer c').pendingMessages → c = c' := by
    intro c member c' member' holds holds'
    exact eq_of_inflight wellformed (sound_of_reachable reached _) (exclusive_of_reachable fresh _)
      (oneQueue_of_reachable reached ch c member c' member') rfl (((wellformed.books c).tags tag).2 holds)
      (((wellformed.books c').tags tag).2 holds')
  refine ⟨⟨unique, ?_⟩, fun env _ _ _ => World.exists_handles env⟩
  rintro env w' rfl decodes settles handles
  rcases settles_of_handles wellformed (owned_of_reachable reached) (named_of_reachable reached)
      (sound_of_reachable reached) (exclusive_of_reachable fresh) opened decodes settles handles with
    ⟨none, same⟩ | ⟨holder, member, holds, settled⟩
  · exact ⟨fun c member holds => absurd holds (none c member), fun _ c => by rw [same]⟩
  · refine ⟨fun c member' holds' => ?_, fun none => absurd holds (none holder member)⟩
    obtain rfl := unique holder member c member' holds holds'
    exact settled

/-- One delivery is outstanding on the channel, and its ack settles it. -/
theorem tag_identifies_only_delivery :
    let w := broker.replay Resolvable
      (topology ++ consuming ++ publishing [7] ++ dispatching 0 0 ++ [.written 0])
    1 ∈ (w.consumer 0).pendingMessages ∧ w.Identifies 0 1 0 1 ∧
      ∃ w', w.Handles 0 ⟨1, 0, false, .ack 1⟩ w' ∧ w.Settles w' 0 1 := by
  intro w
  have unlocked : w.Unlocked := World.unlocked_of_declared (by decide +kernel)
  have opened : (w.channelsOf 0).lookup 1 = some 0 := by decide +kernel
  obtain ⟨identifies, returns⟩ := tag_identifies_delivery (.of_replay _) opened 1
  obtain ⟨w', handles⟩ :=
    returns ⟨1, 0, false, .ack 1⟩ rfl rfl (.inl rfl) (by decide +kernel) (by decide +kernel) unlocked
  have holds : 1 ∈ (w.consumer 0).pendingMessages := by decide +kernel
  exact ⟨holds, identifies, w', handles, (identifies.2 _ w' rfl rfl (.inl rfl) handles).1 0 (by decide +kernel) holds⟩

/-- A channel consumes two queues, and the first message of each is delivered. -/
def twoQueues : List Label :=
  topology ++ served 0 ⟨1, 0, false, .queueDeclare "r" "" ""⟩ [{}, {}] ++
    served 0 ⟨1, 0, false, .queueBind "r" "ex" "other"⟩ [{}, {}, {}] ++ consuming ++
    served 0 ⟨1, 0, false, .consume "r" ""⟩ [{}, {}, {}, {}, {}] ++ publishing [7] ++
    served 0 ⟨1, 0, false, .publish ⟨"ex", "other", [8]⟩⟩ [{}, { refs := [1] }, {}, {}, {}] ++
    dispatching 0 0 ++ [.written 0] ++ dispatching 1 1 ++ [.written 1]

/-- Both deliveries carry tag 1, on the same channel. -/
theorem tag_shared_by_two_queues :
    ¬ ∀ w, broker.Reachable anyStep w → ∀ k id ch, (w.channelsOf k).lookup id = some ch →
      ∀ tag, w.Identifies k id ch tag := by
  intro identifies
  have unique := (identifies (broker.replay anyStep twoQueues) (.of_replay _) 0 1 0 (by decide +kernel) 1).1
  have same := unique 0 (by decide +kernel) 1 (by decide +kernel) (by decide +kernel) (by decide +kernel)
  exact absurd same (by decide)

end GolangMQ.Model
