import GolangMQ.Requests.Isolation
import GolangMQ.Requests.Routing

/-! # What becomes of a nacked message

`HandleNack` takes the message from its consumer and then puts it back at the head of its queue, republishes it to the
dead-letter exchange, or lets it go. The queue's fields are compared without where the dispatcher stands, which the
final `Signal` may move, and without what has been observed.
-/

namespace GolangMQ.Model

open Custody Machine

variable {w w' v : World} {k : ConnectionRef} {q : QueueRef} {c : ConsumerRef} {tag : UInt16} {msg : Message}

/-- The fields of the struct. -/
def Queue.fields (queue : Queue) : Queue := { queue with dispatcher := .top, log := {} }

private theorem Queue.fields_accept (queue : Queue) (entry : Entry) :
    (queue.accept entry).fields =
      { queue.fields with
        messages := queue.fields.messages ++ [entry.message]
        nextTag := queue.fields.nextTag + 1 } := rfl

/-- The queues that an exchange has for a key. -/
def World.boundTo (w : World) (exchange routingKey : String) : List QueueRef :=
  ((w.exchanges.lookup exchange).map fun e => (w.exchange e).getQueues routingKey).getD []

private theorem World.boundTo_eq {exchange : String} {e : ExchangeRef} (found : w.exchanges.lookup exchange = some e)
    (routingKey : String) : w.boundTo exchange routingKey = (w.exchange e).getQueues routingKey := by
  rw [boundTo, found, Option.map_some, Option.getD_some]

/-- The queue's tag is one that no message of the queue has, wherever it is. -/
def World.Fresh (w : World) (q : QueueRef) (tag : UInt16) : Prop :=
  (∀ entry ∈ (w.queue q).log.enqueued, entry.message.deliveryTag ≠ tag) ∧ ∀ msg ∈ w.transit q, msg.deliveryTag ≠ tag

/-- As long as tags have not come round, the next one is fresh. -/
private theorem fresh_nextTag {ok : World → Label → Prop} (reached : broker.Reachable ok w)
    (bounded : (w.queue q).log.tagged ≤ 65535) : w.Fresh q (w.queue q).nextTag := by
  have stamps := (sound_of_reachable reached q).stamps
  have next : (w.queue q).nextTag = stamp (w.queue q).log.tagged := (wellformed_of_reachable reached).nextTag q
  have other (tag : UInt16) (issued : tag ∈ ((List.range (w.ledger q).issued).map stamp : Multiset UInt16)) :
      tag ≠ (w.queue q).nextTag := by
    obtain ⟨i, below, rfl⟩ := List.mem_map.1 (Multiset.mem_coe.1 issued)
    have below : i < (w.queue q).log.tagged := List.mem_range.1 below
    rw [next]
    intro same
    exact absurd (stamp_injOn (by omega) (by omega) same) (Nat.ne_of_lt below)
  rw [← stamps] at other
  refine ⟨fun entry enqueued => other _ (Multiset.mem_add.2 (.inl ?_)),
    fun msg carried => other _ (Multiset.mem_add.2 (.inr ?_))⟩
  · exact Multiset.mem_coe.2 (List.mem_map_of_mem (List.mem_map_of_mem enqueued))
  · exact Multiset.mem_map_of_mem _ carried

section Handler

private theorem World.serves_signal (serves : v.Serves k w') (pending : v.todo k = [.signal q]) :
    w'.queue = v.queue.modify q Queue.signal ∧ w'.metrics = v.metrics := by
  obtain ⟨_, _, _, runs, todo, serves⟩ := serves.cons_inv pending
  cases runs with
  | signal =>
    obtain rfl := serves.nil_inv todo
    exact ⟨rfl, rfl⟩

private theorem World.serves_requeue (serves : v.Serves k w') (pending : v.todo k = [.requeue q msg, .signal q]) :
    w'.queue = (v.queue.modify q (·.pushFront msg)).modify q Queue.signal := by
  obtain ⟨_, _, _, runs, todo, serves⟩ := serves.cons_inv pending
  cases runs with
  | requeue => exact (World.serves_signal serves todo).1

/-- The republishing to a declared exchange. -/
private theorem World.serves_letter {event : Publish} {e : ExchangeRef} (serves : v.Serves k w')
    (pending : v.todo k = [.publish event none, .signal q]) (declared : v.exchanges.lookup event.exchange = some e)
    (once : ((v.exchange e).getQueues event.routingKey).Nodup)
    (inside : ∀ q ∈ (v.exchange e).getQueues event.routingKey, q < v.queue.size) :
    ∃ middle : World, v.Accepts middle ((v.exchange e).getQueues event.routingKey) event ∧
      w'.queue = middle.queue.modify q Queue.signal ∧
      ∃ enqueued, w'.metrics = { v.metrics with
        published := bump v.metrics.published event.exchange
        publishUnroutable := if (v.exchange e).getQueues event.routingKey = [] then
            bump v.metrics.publishUnroutable event.exchange
          else v.metrics.publishUnroutable
        enqueued } := by
  obtain ⟨middle, serves, todo, accepts, enqueued, counted⟩ := World.serves_publish serves pending declared once inside
  obtain ⟨queue, metrics⟩ := World.serves_signal serves todo
  exact ⟨middle, accepts, queue, enqueued, metrics.trans counted⟩

/-- The republishing to an exchange that is not declared. -/
private theorem World.serves_lost_letter {event : Publish} (serves : v.Serves k w')
    (pending : v.todo k = [.publish event none, .signal q]) (missing : v.exchanges.lookup event.exchange = none) :
    w'.queue = v.queue.modify q Queue.signal ∧
      w'.metrics = { v.metrics with publishErrors := v.metrics.publishErrors + 1 } := by
  obtain ⟨_, _, _, runs, todo, serves⟩ := serves.cons_inv pending
  cases runs with
  | publishUnknown => exact World.serves_signal serves todo
  | publish found =>
    rw [missing] at found
    contradiction

end Handler

/-- `HandleNack` has taken the delivery of `msg` from `c`, a consumer of `q`, and disposed of it. An empty `dlx` names
no exchange. -/
structure World.Disposes (w w' : World) (q : QueueRef) (c : ConsumerRef) (msg : Message) (tag : UInt16)
    (requeue : Bool) : Prop where
  inflight : (w'.consumer c).inflight = (w.consumer c).inflight - 1
  inflightTags : (w'.consumer c).inflightTags = (w.consumer c).inflightTags.erase tag
  pendingMessages : (w'.consumer c).pendingMessages = (w.consumer c).pendingMessages.erase tag
  others : ∀ c' ≠ c, w'.consumer c' = w.consumer c'
  requeued : requeue = true →
    (w'.queue q).fields = { (w.queue q).fields with messages := msg :: (w.queue q).messages } ∧
      ∀ p ≠ q, w'.queue p = w.queue p
  deadLettered : requeue = false → (w.queue q).dlx ≠ "" → (w.queue q).dlx ∈ w.exchanges → ∀ p,
    let key := if (w.queue q).dlxRoutingKey = "" then msg.routingKey else (w.queue q).dlxRoutingKey
    if p ∈ w.boundTo (w.queue q).dlx key then
      w.Fresh p (w.queue p).nextTag ∧
        (w'.queue p).fields =
          { (w.queue p).fields with
            messages := (w.queue p).messages ++ [⟨(w.queue p).nextTag, msg.body, (w.queue q).dlx, key⟩]
            nextTag := (w.queue p).nextTag + 1 }
    else (w'.queue p).fields = (w.queue p).fields ∧ (p ≠ q → w'.queue p = w.queue p)
  undeclared : requeue = false → (w.queue q).dlx ≠ "" → (w.queue q).dlx ∉ w.exchanges →
    (w'.queue q).fields = (w.queue q).fields ∧ ∀ p ≠ q, w'.queue p = w.queue p
  dropped : requeue = false → (w.queue q).dlx = "" →
    (w'.queue q).fields = (w.queue q).fields ∧ ∀ p ≠ q, w'.queue p = w.queue p

/-- The queues after `HandleNack` has taken the message from its consumer. -/
private theorem World.queue_settleNack (w : World) (msg : Message) (tag : UInt16) (requeue : Bool)
    (inside : (w.consumer c).queue < w.queue.size) :
    (w.settleNack c msg tag requeue).queue (w.consumer c).queue =
        (w.queue (w.consumer c).queue).settle (if requeue then [] else [msg]) ∧
      ∀ p ≠ (w.consumer c).queue, (w.settleNack c msg tag requeue).queue p = w.queue p :=
  ⟨w.queue.cell_modify_self (·.settle (if requeue then [] else [msg])) inside, fun _ other =>
    w.queue.cell_modify_of_ne (·.settle (if requeue then [] else [msg])) other⟩

private theorem World.fields_settleNack (w : World) (c : ConsumerRef) (msg : Message) (tag : UInt16) (requeue : Bool)
    (p : QueueRef) : ((w.settleNack c msg tag requeue).queue p).fields = (w.queue p).fields :=
  w.queue.observe_modify Queue.fields _ (·.settle (if requeue then [] else [msg])) rfl p

/-- `cond.Signal` at the end of `HandleNack`. -/
private theorem fields_modify_signal (heap : Heap Queue) (q p : QueueRef) :
    (heap.modify q Queue.signal p).fields = (heap p).fields :=
  heap.observe_modify Queue.fields q Queue.signal rfl p

private theorem World.afterNack_letter (w : World) (msg : Message) (named : (w.queue (w.consumer c).queue).dlx ≠ "") :
    w.afterNack c msg false = [.publish (w.deadLetter c msg) none, .signal (w.consumer c).queue] := by
  simp [afterNack, named]

/-- Nothing but a signal has come after the removal of a message that is not put back. -/
private theorem World.unchanged_of_signal (inside : (w.consumer c).queue < w.queue.size)
    (queue : w'.queue = (w.settleNack c msg tag false).queue.modify (w.consumer c).queue Queue.signal) :
    (w'.queue (w.consumer c).queue).fields = (w.queue (w.consumer c).queue).fields ∧
      ∀ p ≠ (w.consumer c).queue, w'.queue p = w.queue p := by
  rw [queue]
  refine ⟨?_, fun p other => ?_⟩
  · rw [fields_modify_signal, w.fields_settleNack]
  · rw [Heap.cell_modify_of_ne _ _ other, (w.queue_settleNack msg tag false inside).2 p other]

/-- What follows the removal of the message from its consumer. -/
private theorem disposes_of_serves {requeue : Bool} (reached : broker.Reachable Steady w)
    (bounded : ∀ q, (w.queue q).log.tagged ≤ 65535) (known : c < w.consumer.size)
    (serves : ((w.settleNack c msg tag requeue).setTodo k (w.afterNack c msg requeue)).Serves k w')
    (todo : ((w.settleNack c msg tag requeue).setTodo k (w.afterNack c msg requeue)).todo k =
      w.afterNack c msg requeue) :
    w.Disposes w' (w.consumer c).queue c msg tag requeue := by
  have wellformed := wellformed_of_reachable reached
  have inside := wellformed.queueOf c known
  obtain ⟨released, others⟩ := World.settles_of_afterNack known serves todo
  obtain ⟨here, elsewhere⟩ := w.queue_settleNack msg tag requeue inside
  have settled := w.fields_settleNack c msg tag requeue
  refine ⟨by rw [released]; rfl, by rw [released]; rfl, by rw [released]; rfl, others, ?_, ?_, ?_, ?_⟩
  · rintro rfl
    have queue := World.serves_requeue serves todo
    have queue : w'.queue = ((w.settleNack c msg tag true).queue.modify (w.consumer c).queue (·.pushFront msg)).modify
      (w.consumer c).queue Queue.signal := queue
    rw [queue]
    refine ⟨?_, fun p other => ?_⟩
    · have pushed := (w.settleNack c msg tag true).queue.cell_modify_self (·.pushFront msg) inside
      rw [fields_modify_signal, pushed, here]
      rfl
    · rw [Heap.cell_modify_of_ne _ _ other, Heap.cell_modify_of_ne _ _ other, elsewhere p other]
  · rintro rfl named declared p
    obtain ⟨e, found⟩ := Option.isSome_iff_exists.1 (AList.lookup_isSome.2 declared)
    obtain ⟨history, recorded⟩ := exists_history reached.any
    have routed := routed_of_reachable recorded
    obtain ⟨middle, accepts, queue, -⟩ := World.serves_letter serves (todo.trans (w.afterNack_letter msg named)) found
      (routed.nodup_getQueues (routed.exchangeNames _ e found).1 _) (wellformed.bindings e _)
    have unsignalled : (w'.queue p).fields = (middle.queue p).fields := by rw [queue, fields_modify_signal]
    intro key
    have bound : w.boundTo (w.queue (w.consumer c).queue).dlx key =
      (w.exchange e).getQueues (w.deadLetter c msg).routingKey := World.boundTo_eq found key
    by_cases member : p ∈ (w.exchange e).getQueues (w.deadLetter c msg).routingKey
    · rw [bound, if_pos member]
      obtain ⟨entry, stamped, accepted⟩ := accepts.accepted p member
      refine ⟨fresh_nextTag reached (bounded p), ?_⟩
      have nextTag : ((w.settleNack c msg tag false).queue p).fields.nextTag = (w.queue p).fields.nextTag := by
        rw [settled p]
      have nextTag : ((w.settleNack c msg tag false).queue p).nextTag = (w.queue p).nextTag := nextTag
      have accepted : (middle.queue p).fields = (((w.settleNack c msg tag false).queue p).accept entry).fields :=
        congrArg Queue.fields accepted
      have stamped : entry.message = ⟨((w.settleNack c msg tag false).queue p).nextTag, msg.body,
        (w.queue (w.consumer c).queue).dlx, key⟩ := stamped
      rw [unsignalled, accepted, Queue.fields_accept, settled p, stamped, nextTag]
      rfl
    · rw [bound, if_neg member]
      have same : middle.queue p = (w.settleNack c msg tag false).queue p := accepts.others p member
      refine ⟨by rw [unsignalled, same, settled], fun other => ?_⟩
      rw [queue, Heap.cell_modify_of_ne _ _ other, same, elsewhere p other]
  · rintro rfl named missing
    have lost := World.serves_lost_letter serves (todo.trans (w.afterNack_letter msg named))
      (AList.lookup_eq_none.2 missing)
    exact World.unchanged_of_signal inside lost.1
  · rintro rfl unnamed
    have last : w.afterNack c msg false = [.signal (w.consumer c).queue] := by simp [World.afterNack, unnamed]
    exact World.unchanged_of_signal inside (World.serves_signal serves (todo.trans last)).1

/-- A nack returns, and disposes of the delivery that its tag names on a channel whose consumers serve one queue, in the
runs in which no write fails and tags have not come round; a tag that names none changes nothing. -/
theorem nack_disposes {ch : ChannelRef} {env : Envelope} {requeue : Option Bool} (reached : broker.Reachable Steady w)
    (bounded : ∀ q, (w.queue q).log.tagged ≤ 65535) (opened : (w.channelsOf k).lookup env.channelID = some ch)
    (one : ∀ c ∈ (w.channel ch).consumers.values, (w.consumer c).queue = q) (decodes : env.malformed = false)
    (asked : env.request = .nack tag requeue) :
    (w.connected k = true → w.todo k = [] → w.Unlocked → ∃ w', w.Handles k env w') ∧
      ∀ w', w.Handles k env w' →
        (∀ c ∈ (w.channel ch).consumers.values, ∀ msg, (w.consumer c).pendingMessages.lookup tag = some msg →
          w.Disposes w' q c msg tag (requeue.getD true)) ∧
        ((∀ c ∈ (w.channel ch).consumers.values, tag ∉ (w.consumer c).pendingMessages) → w' = w) := by
  refine ⟨World.exists_handles env, fun w' handles => ?_⟩
  have wellformed := wellformed_of_reachable reached
  have owned := owned_of_reachable reached
  rcases World.handles_nack opened decodes asked handles with ⟨none, rfl⟩ | ⟨holder, listed, held, found, serves, todo⟩
  · refine ⟨fun c member msg holds => ?_, fun _ => rfl⟩
    exact absurd (AList.lookup_isSome.1 (holds ▸ rfl)) (none c member)
  · have holds : tag ∈ (w.consumer holder).pendingMessages := AList.lookup_isSome.1 (found ▸ rfl)
    refine ⟨fun c member msg stored => ?_, fun none => absurd holds (none holder listed)⟩
    have stored' : tag ∈ (w.consumer c).pendingMessages := AList.lookup_isSome.1 (stored ▸ rfl)
    obtain rfl : holder = c := eq_of_inflight wellformed (sound_of_reachable reached q)
      (exclusive_of_steady reached (bounded q)) (one holder listed) (one c member)
      (((wellformed.books holder).tags tag).2 holds) (((wellformed.books c).tags tag).2 stored')
    obtain rfl : held = msg := Option.some.inj (found.symm.trans stored)
    rw [← one holder listed]
    exact disposes_of_serves reached bounded (owned.of_values listed).1 serves todo

/-- A queue `q` with a dead-letter exchange, bound to the exchange `ex`, and one of its messages delivered. -/
def lettering (dlx : String) : List Label :=
  .accept :: served 0 ⟨0, 0, false, .channelOpen 1⟩ [{}] ++ served 0 ⟨1, 0, false, .exchangeDeclare "ex"⟩ [{}, {}] ++
    served 0 ⟨1, 0, false, .queueDeclare "q" dlx ""⟩ [{}, {}] ++
    served 0 ⟨1, 0, false, .queueBind "q" "ex" "key"⟩ [{}, {}, {}] ++ consuming ++ publishing [7] ++
    dispatching 0 0 ++ [.written 0]

/-- A nack of tag 1 on channel 1, without requeue. -/
def refusing : Envelope := ⟨1, 0, false, .nack 1 (some false)⟩

/-- The message is dead-lettered to the queue it comes from. -/
theorem nack_disposes_to_itself :
    let w := broker.replay Steady (lettering "ex")
    w.boundTo "ex" "key" = [0] ∧ ∃ w', w.Handles 0 refusing w' ∧
      w.Disposes w' 0 0 ⟨1, [7], "ex", "key"⟩ 1 false := by
  intro w
  have opened : (w.channelsOf 0).lookup refusing.channelID = some 0 := by decide +kernel
  have one : ∀ c ∈ (w.channel 0).consumers.values, (w.consumer c).queue = 0 := by decide +kernel
  have unlocked : w.Unlocked := World.unlocked_of_declared (by decide +kernel)
  obtain ⟨returns, disposes⟩ :=
    nack_disposes (.of_replay _) (bounded_of_declared (by decide +kernel)) opened one rfl rfl
  obtain ⟨w', handles⟩ := returns (by decide +kernel) (by decide +kernel) unlocked
  exact ⟨by decide +kernel, w', handles, (disposes w' handles).1 0 (by decide +kernel) _ (by decide +kernel)⟩

/-- The dead letter has not been lost without a trace, and was counted as such only if `Publish`, which counts its
errors, returned none. -/
structure World.LetterKept (w w' : World) (q : QueueRef) (msg : Message) : Prop where
  kept : (∃ p, ∃ copy : Message, copy.body = msg.body ∧ (w'.queue p).messages = (w.queue p).messages ++ [copy]) ∨
    w'.metrics.dropped (w.queue q).name = w.metrics.dropped (w.queue q).name + 1 ∨
    w'.metrics.publishUnroutable (w.queue q).dlx = w.metrics.publishUnroutable (w.queue q).dlx + 1
  counted : w'.metrics.deadLettered (w.queue q).name ≠ w.metrics.deadLettered (w.queue q).name →
    w'.metrics.publishErrors = w.metrics.publishErrors

/-- A nack without requeue returns, and settles one of the deliveries that have its tag. The dead letter made of it is
kept, and counted truthfully, exactly when its exchange is declared by the time of the nack. -/
theorem letter_kept_iff {ch : ChannelRef} {env : Envelope} (reached : broker.Reachable anyStep w)
    (opened : (w.channelsOf k).lookup env.channelID = some ch) (decodes : env.malformed = false)
    (asked : env.request = .nack tag (some false)) :
    (w.connected k = true → w.todo k = [] → w.Unlocked → ∃ w', w.Handles k env w') ∧
      ∀ w', w.Handles k env w' →
        ((∃ c ∈ (w.channel ch).consumers.values, tag ∈ (w.consumer c).pendingMessages) →
          ∃ c ∈ (w.channel ch).consumers.values, tag ∈ (w.consumer c).pendingMessages ∧ w.Settles w' c tag) ∧
        ∀ c ∈ (w.channel ch).consumers.values, ∀ msg,
          (w.consumer c).pendingMessages.lookup tag = some msg → w.Settles w' c tag →
          (w.queue (w.consumer c).queue).dlx ≠ "" →
          (w.LetterKept w' (w.consumer c).queue msg ↔ (w.queue (w.consumer c).queue).dlx ∈ w.exchanges) := by
  have wellformed := wellformed_of_reachable reached
  have owned := owned_of_reachable reached
  refine ⟨World.exists_handles env, fun w' handles => ⟨?_, fun c member msg stored settles named => ?_⟩⟩
  · rintro ⟨c, member, holds⟩
    exact (World.settles_of_nack owned opened decodes asked handles).resolve_left fun none =>
      absurd holds (none.1 c member)
  rcases World.handles_nack opened decodes asked handles with ⟨none, -⟩ | ⟨holder, listed, held, found, serves, todo⟩
  · exact absurd (AList.lookup_isSome.1 (stored ▸ rfl)) (none c member)
  -- the consumer that was released is the one that the loop has stopped at
  obtain rfl : holder = c := by
    by_contra other
    have released := (World.settles_of_afterNack (owned.of_values listed).1 serves todo).1
    rw [settles.2 holder other] at released
    have gone := congrArg (fun consumer => consumer.pendingMessages.lookup tag) released
    rw [found] at gone
    simp [Consumer.release] at gone
  obtain rfl : held = msg := Option.some.inj (found.symm.trans stored)
  have letter := w.afterNack_letter held named
  refine ⟨fun kept => ?_, fun declared => ?_⟩
  · by_contra missing
    have counted := (World.serves_lost_letter serves (todo.trans letter) (AList.lookup_eq_none.2 missing)).2
    have errors : w'.metrics.publishErrors = w.metrics.publishErrors + 1 := by rw [counted]; rfl
    have letters : w'.metrics.deadLettered (w.queueName holder) = w.metrics.deadLettered (w.queueName holder) + 1 := by
      rw [counted]
      simp [World.settleNack, World.setTodo, World.modifyConnection, World.apply, World.count, named, bump]
    have none := kept.counted fun same => absurd (letters.symm.trans same) (Nat.succ_ne_self _)
    exact absurd (errors.symm.trans none) (Nat.succ_ne_self _)
  · obtain ⟨e, found⟩ := Option.isSome_iff_exists.1 (AList.lookup_isSome.2 declared)
    obtain ⟨history, recorded⟩ := exists_history reached
    have routed := routed_of_reachable recorded
    obtain ⟨middle, accepts, queue, enqueued, counted⟩ := World.serves_letter serves (todo.trans letter) found
      (routed.nodup_getQueues (routed.exchangeNames _ e found).1 _) (wellformed.bindings e _)
    refine ⟨?_, fun _ => by rw [counted]; rfl⟩
    cases bound : (w.exchange e).getQueues (w.deadLetter holder held).routingKey with
    | nil =>
      refine .inr (.inr ?_)
      rw [counted]
      exact (congrFun (if_pos bound) _).trans (Function.update_self ..)
    | cons p others =>
      have member : p ∈ (w.exchange e).getQueues (w.deadLetter holder held).routingKey := bound ▸ List.mem_cons_self ..
      obtain ⟨entry, stamped, accepted⟩ := accepts.accepted p member
      refine .inl ⟨p, entry.message, by rw [stamped]; rfl, ?_⟩
      have settled : ((w.settleNack holder held tag false).queue p).fields = (w.queue p).fields :=
        w.fields_settleNack holder held tag false p
      have unsignalled : (w'.queue p).fields = (middle.queue p).fields := by rw [queue, fields_modify_signal]
      have accepted : (middle.queue p).fields = (((w.settleNack holder held tag false).queue p).accept entry).fields :=
        congrArg Queue.fields accepted
      rw [accepted, Queue.fields_accept, settled] at unsignalled
      exact congrArg Queue.messages unsignalled

/-- The dead letter comes back to its queue. -/
theorem letter_kept_in_queue :
    let w := broker.replay anyStep (lettering "ex")
    ∃ w', w.Handles 0 refusing w' ∧ w.LetterKept w' 0 ⟨1, [7], "ex", "key"⟩ := by
  intro w
  have opened : (w.channelsOf 0).lookup refusing.channelID = some 0 := by decide +kernel
  have unlocked : w.Unlocked := World.unlocked_of_declared (by decide +kernel)
  obtain ⟨returns, keeps⟩ := letter_kept_iff (.of_replay _) opened rfl rfl
  obtain ⟨w', handles⟩ := returns (by decide +kernel) (by decide +kernel) unlocked
  obtain ⟨settled, kept⟩ := keeps w' handles
  obtain ⟨c, listed, -, settles⟩ := settled ⟨0, by decide +kernel, by decide +kernel⟩
  have only : ∀ c ∈ (w.channel 0).consumers.values, c = 0 := by decide +kernel
  obtain rfl := only c listed
  exact ⟨w', handles, (kept 0 listed _ (by decide +kernel) settles (by decide +kernel)).2 (by decide +kernel)⟩

/-- The dead-letter exchange was never declared: no queue has the message, no loss is counted, and the counter of dead
letters says that it was republished. -/
theorem letter_lost_to_undeclared :
    let w := broker.replay anyStep (lettering "dead")
    let w' := (broker.run? w (served 0 refusing [{ refs := [0] }, {}, {}, {}])).getD w
    w.Handles 0 refusing w' ∧ (w.consumer 0).pendingMessages.lookup 1 = some ⟨1, [7], "ex", "key"⟩ ∧
      (w'.consumer 0).pendingMessages.lookup 1 = none ∧ (w.queue 0).dlx = "dead" ∧ (∀ p, (w'.queue p).messages = []) ∧
      w'.metrics.dropped "q" = 0 ∧ w'.metrics.publishUnroutable "dead" = 0 ∧ w.metrics.publishErrors = 0 ∧
      w'.metrics.publishErrors = 1 ∧ w.metrics.deadLettered "q" = 0 ∧ w'.metrics.deadLettered "q" = 1 := by
  intro w w'
  have ran : broker.run? w (served 0 refusing [{ refs := [0] }, {}, {}, {}]) = some w' :=
    (Option.getD_of_ne_none (Option.isSome_iff_ne_none.1 (by decide +kernel)) w).symm
  have empty : ∀ p, (w'.queue p).messages = [] :=
    w'.queue.forall_cell (P := fun queue : Queue => queue.messages = []) rfl (by decide +kernel)
  exact ⟨⟨_, ran, by decide +kernel⟩, by decide +kernel, by decide +kernel, by decide +kernel, empty, by decide +kernel,
    by decide +kernel, by decide +kernel, by decide +kernel, by decide +kernel, by decide +kernel⟩

end GolangMQ.Model
