import GolangMQ.Delivery.Safety
import GolangMQ.Requests.Closing

/-! # Messages are delivered in the order they were sent

The goroutine of a connection finishes one `Publish` before it reads the next envelope, so the sections
it still has to run belong to its last call, and what it appends to a queue is in the order of its calls
(`Calls`). A tag is taken before the append and in another critical section, so tags need not be in that
order; bodies are. As long as nothing is put back, the ledger's FIFO equation then carries the order of
the buffer to the deliveries that the log of a queue has. The dispatchers write these to the wires, each to the
connection of its consumer, and nobody else writes a deliver frame (`World.Written`).
-/

namespace GolangMQ.Model

open Custody Machine

/-- A message made by `Publish` from an event. -/
def Message.Carries (msg : Message) (event : Publish) : Prop :=
  msg.body = event.body ∧ msg.exchange = event.exchange ∧ msg.routingKey = event.routingKey

namespace Section

/-- The sections of a `Publish` call after its first. -/
def inCall : Section → Bool
  | .route .. | .takeTag .. | .enqueue .. => true
  | _ => false

/-- The sections from which a `Publish` call can begin. -/
def opensCall : Section → Bool
  | .publish .. | .nackRange .. | .nackScan .. => true
  | _ => false

/-- A section of a `Publish` call belongs to the last call made. -/
def Follows (published : List Publish) : Section → Prop
  | .route _ event | .takeTag _ event => published.getLast? = some event
  | .enqueue _ msg => ∃ event, published.getLast? = some event ∧ msg.Carries event
  | _ => True

private theorem follows_of_outside {published : List Publish} {s : Section} (outside : s.inCall = false) :
    s.Follows published := by
  cases s <;> trivial

/-- The call that a section logs when it runs. -/
def begins : Section → List Publish
  | .publish event _ => [event]
  | _ => []

end Section

/-- What a goroutine has to do is one request: at most its first section can begin a `Publish` call, and
then no other call is under way. -/
structure InOrder (published : List Publish) (todo : List Section) : Prop where
  follows : ∀ s ∈ todo, s.Follows published
  last : ∀ s ∈ todo.tail, s.opensCall = false
  alone : ∀ first ∈ todo.head?, first.opensCall → ∀ s ∈ todo.tail, s.inCall = false

namespace InOrder

variable {published : List Publish} {first : Section} {next rest : List Section}

/-- Sections that neither belong to a call nor begin one may follow in any number. -/
theorem of_idle {sections : List Section} (idle : ∀ s ∈ sections, s.inCall = false ∧ s.opensCall = false) :
    InOrder published sections where
  follows s member := Section.follows_of_outside (idle s member).1
  last s member := (idle s (List.mem_of_mem_tail member)).2
  alone first head opens := by
    rw [(idle first (List.mem_of_mem_head? head)).2] at opens
    contradiction

/-- A section is replaced by sections that begin no call and belong to the last one, if any does. -/
theorem advance (before : InOrder published (first :: rest)) (quiet : ∀ s ∈ next, s.opensCall = false)
    (follows : ∀ s ∈ next, s.Follows published) : InOrder published (next ++ rest) where
  follows s member := by
    rcases List.mem_append.mp member with new | old
    · exact follows s new
    · exact before.follows s (List.mem_cons_of_mem _ old)
  last s member := by
    rcases List.mem_append.mp (List.mem_of_mem_tail member) with new | old
    · exact quiet s new
    · exact before.last s old
  alone head isHead opens := by
    rcases List.mem_append.mp (List.mem_of_mem_head? isHead) with new | old
    · rw [quiet head new] at opens
      contradiction
    · rw [before.last head old] at opens
      contradiction

/-- The first section of a call, when the goroutine comes to it. -/
theorem advance_opening (before : InOrder published (first :: rest)) (opens : first.opensCall)
    (head : Section) (outside : head.inCall = false) (next : List Section)
    (quiet : ∀ s ∈ next, s.inCall = false ∧ s.opensCall = false) : InOrder published (head :: next ++ rest) where
  follows s member := by
    apply Section.follows_of_outside
    rcases List.mem_cons.mp member with rfl | member
    · exact outside
    · rcases List.mem_append.mp member with new | old
      · exact (quiet s new).1
      · exact before.alone first rfl opens s old
  last s member := by
    rcases List.mem_append.mp member with new | old
    · exact (quiet s new).2
    · exact before.last s old
  alone _ _ _ s member := by
    rcases List.mem_append.mp member with new | old
    · exact (quiet s new).1
    · exact before.alone first rfl opens s old

/-- Before a call begins, nothing pending depends on the calls made so far. -/
theorem relog (before : InOrder published (first :: rest)) (opens : first.opensCall) (log : List Publish) :
    InOrder log (first :: rest) where
  follows s member := by
    apply Section.follows_of_outside
    rcases List.mem_cons.mp member with rfl | old
    · cases s <;> trivial
    · exact before.alone first rfl opens s old
  last := before.last
  alone := before.alone

end InOrder

section Run

variable {w w' : World} {k : ConnectionRef} {choice : Choice} {first : Section} {next rest : List Section}

/-- Only the beginning of `Publish` is logged, by the goroutine that makes the call. -/
theorem published_of_runSection (ran : w.runSection k choice first = some (w', next))
    (inside : k < w.connection.size) (j : ConnectionRef) :
    (w'.connection j).published = (w.connection j).published ++ (if j = k then first.begins else []) := by
  have unlogged (same : (w'.connection j).published = (w.connection j).published) (none_ : first.begins = []) :
      (w'.connection j).published = (w.connection j).published ++ (if j = k then first.begins else []) := by
    rw [same, none_, ite_self, List.append_nil]
  cases first with
  | publish event report =>
    have logged : ∀ f : Metrics → Metrics, (((w.modifyConnection k fun conn =>
        { conn with published := conn.published ++ [event] }).count f).connection j).published =
          (w.connection j).published ++ (if j = k then [event] else []) := by
      intro f
      by_cases same : j = k
      · subst same
        simp only [World.count, World.modifyConnection, Heap.cell_modify_self _ _ inside, if_true]
      · simp only [World.count, World.modifyConnection, Heap.cell_modify_of_ne _ _ same, if_neg same, List.append_nil]
    simp only [World.runSection] at ran
    split at ran <;> cases ran <;> exact logged _
  | reply frame =>
    simp only [World.runSection, Option.some.injEq, Prod.mk.injEq] at ran
    obtain ⟨rfl, -⟩ := ran
    refine unlogged ?_ rfl
    split
    · exact w.connection.observe_modify Connection.published k
        (fun conn => { conn with wire := conn.wire ++ [frame] }) rfl j
    · rfl
  | depart =>
    cases ran
    exact unlogged (w.connection.observe_modify Connection.published k
      (fun conn => { conn with live := false }) rfl j) rfl
  | consume ch header queue tag =>
    simp only [World.runSection] at ran
    split at ran
    · cases ran
      exact unlogged rfl rfl
    · next made =>
      obtain ⟨q, -, rfl⟩ := World.newConsumer_ok made
      cases ran
      exact unlogged rfl rfl
  | _ =>
    simp only [World.runSection, World.declareQueue, World.declareExchange] at ran
    repeat' split at ran
    all_goals first | contradiction | (cases ran; exact unlogged rfl rfl)

/-- A goroutine that runs its next section still has one request to finish. -/
private theorem inOrder_of_runSection (before : InOrder (w.connection k).published (first :: rest))
    (ran : w.runSection k choice first = some (w', next)) (inside : k < w.connection.size) :
    InOrder (w'.connection k).published (next ++ rest) := by
  rw [published_of_runSection ran inside k, if_pos rfl]
  have unlogged (silent : first.begins = []) :
      InOrder ((w.connection k).published ++ first.begins) (first :: rest) := by
    rwa [silent, List.append_nil]
  have quiet (silent : first.begins = []) {sections : List Section}
      (idle : ∀ s ∈ sections, s.inCall = false ∧ s.opensCall = false) :
      InOrder ((w.connection k).published ++ first.begins) (sections ++ rest) :=
    (unlogged silent).advance (fun s member => (idle s member).2)
      (fun s member => Section.follows_of_outside (idle s member).1)
  cases first with
  | publish event report =>
    have logged := before.relog rfl ((w.connection k).published ++ [event])
    simp only [World.runSection] at ran
    split at ran <;> cases ran
    · apply logged.advance <;> cases report <;> simp [Section.opensCall, Section.Follows]
    · apply logged.advance <;> simp [Section.opensCall, Section.Follows]
  | route e event =>
    have current : (w.connection k).published.getLast? = some event := before.follows _ (List.mem_cons_self ..)
    simp only [World.runSection] at ran
    split at ran <;> cases ran
    apply (unlogged rfl).advance
    · simp [Section.opensCall]
    · simp [Section.Follows, Section.begins, current]
  | takeTag q event =>
    have current : (w.connection k).published.getLast? = some event := before.follows _ (List.mem_cons_self ..)
    simp only [World.runSection] at ran
    split at ran <;> cases ran
    apply (unlogged rfl).advance
    · simp [Section.opensCall]
    · simp [Section.Follows, Section.begins, current, World.stamped, Message.Carries]
  | nackRange ch tag requeue =>
    simp only [World.runSection] at ran
    split at ran <;> cases ran
    exact (unlogged rfl).advance_opening rfl _ rfl [] (by simp)
  | nackScan consumers tag requeue =>
    cases consumers with
    | nil =>
      cases ran
      exact quiet rfl (by simp)
    | cons c others =>
      simp only [World.runSection] at ran
      split at ran <;> cases ran
      · exact (unlogged rfl).advance_opening rfl _ rfl [] (by simp)
      · split_ifs with again dropped
        · exact quiet rfl (by simp [Section.inCall, Section.opensCall])
        · exact quiet rfl (by simp [Section.inCall, Section.opensCall])
        · exact (unlogged rfl).advance_opening rfl _ rfl [.signal _] (by simp [Section.inCall, Section.opensCall])
  | ackScan consumers tag =>
    refine quiet rfl ?_
    cases consumers with
    | nil =>
      cases ran
      simp
    | cons c others =>
      simp only [World.runSection] at ran
      split at ran <;> cases ran <;> simp [Section.inCall, Section.opensCall]
  | teardown =>
    simp only [World.runSection] at ran
    split at ran <;> cases ran
    refine quiet rfl fun s member => ?_
    rcases List.mem_append.mp member with cleanup | last
    · obtain ⟨ch, -, rfl⟩ := List.mem_map.mp cleanup
      exact ⟨rfl, rfl⟩
    · rw [List.mem_singleton.mp last]
      exact ⟨rfl, rfl⟩
  | _ =>
    refine quiet rfl ?_
    simp only [World.runSection] at ran
    repeat' split at ran
    all_goals first | contradiction | (cases ran; simp [Section.inCall, Section.opensCall])

theorem published_setTodo (w : World) (k j : ConnectionRef) (todo : List Section) :
    ((w.setTodo k todo).connection j).published = (w.connection j).published :=
  w.connection.observe_modify Connection.published k ({ · with todo }) rfl j

private theorem published_handle (w : World) (k j : ConnectionRef) (env : Envelope) :
    ((w.handle k env).1.connection j).published = (w.connection j).published := by
  refine w.handle_cases k env (P := fun w' _ => (w'.connection j).published = (w.connection j).published)
    (fun id _ => ?_) (fun _ => ?_) (fun _ => rfl) (fun _ _ => rfl)
  · exact w.connection.observe_modify Connection.published k
      (fun conn => { conn with channels := conn.channels.insert id w.channel.size }) rfl j
  · exact w.connection.observe_modify Connection.published k
      (fun conn => { conn with channels := conn.channels.erase env.channelID }) rfl j

/-- Only its own goroutine adds to the calls of a connection. -/
theorem published_of_step {label : Label} (stepped : w.step? label = some w') {j : ConnectionRef}
    (other : ∀ choice, label ≠ .run j choice) : (w'.connection j).published = (w.connection j).published := by
  cases label with
  | accept =>
    cases stepped
    exact w.connection.observe_alloc Connection.published { live := true } rfl j
  | request k env =>
    simp only [World.step?] at stepped
    split at stepped <;> cases stepped
    rw [published_setTodo, published_handle]
  | disconnect k =>
    simp only [World.step?] at stepped
    split at stepped <;> cases stepped
    rw [published_setTodo]
  | run k choice =>
    obtain ⟨first, rest, middle, next, -, ran, rfl, inside⟩ := World.run_inv stepped
    have distinct : j ≠ k := fun same => other choice (same ▸ rfl)
    rw [published_setTodo, published_of_runSection ran inside, if_neg distinct, List.append_nil]
  | written q =>
    simp only [World.step?] at stepped
    split at stepped <;> cases stepped
    simp only [World.delivered, World.apply, World.modifyConnection, World.count]
    rw [w.connection.observe_modify Connection.published _ _ rfl j]
  | _ =>
    simp only [World.step?] at stepped
    repeat' split at stepped
    all_goals first | contradiction | (cases stepped; rfl)

/-- Calls are only ever added to the log of a connection. -/
private theorem published_grows {label : Label} (stepped : w.step? label = some w') (j : ConnectionRef) :
    (w.connection j).published <+: (w'.connection j).published := by
  by_cases own : ∃ choice, label = .run j choice
  · obtain ⟨choice, rfl⟩ := own
    obtain ⟨first, rest, middle, next, -, ran, rfl, inside⟩ := World.run_inv stepped
    rw [published_setTodo, published_of_runSection ran inside]
    exact List.prefix_append _ _
  · rw [published_of_step stepped fun choice same => own ⟨choice, same⟩]

private theorem inOrder_of_handle (w : World) (k : ConnectionRef) (env : Envelope) (published : List Publish) :
    InOrder published (w.handle k env).2 := by
  -- A handler starts on one section that can begin a call, or on sections that cannot.
  have single (first : Section) (outside : first.inCall = false) : InOrder published [first] :=
    ⟨by simpa using Section.follows_of_outside outside, by simp, by simp⟩
  have idle {sections : List Section} (idle : ∀ s ∈ sections, s.inCall = false ∧ s.opensCall = false) :
      InOrder published sections := .of_idle idle
  refine w.handle_cases k env (P := fun _ next => InOrder published next)
    (fun _ _ => single _ rfl) (fun _ => ?_) (fun _ => single _ rfl) (fun ch _ => ?_)
  · cases (w.connection k).channels.lookup env.channelID
    · exact single _ rfl
    · exact idle (by simp [Section.inCall, Section.opensCall])
  · dsimp only [Model.route]
    cases env.request <;> dsimp only <;> cases env.malformed <;>
      first | exact single _ rfl | exact idle (by simp [Section.inCall, Section.opensCall])

end Run

/-- What has been appended to the queues is in the order of each connection's calls. -/
structure Calls (w : World) : Prop where
  inOrder : ∀ k, InOrder (w.connection k).published (w.todo k)
  recorded : ∀ q, ∀ entry ∈ (w.queue q).log.enqueued, ∃ event,
    (w.connection entry.publisher).published[entry.call]? = some event ∧ entry.message.Carries event
  sorted : ∀ q, (w.queue q).log.enqueued.Pairwise fun a b => a.publisher = b.publisher → a.call ≤ b.call

namespace Calls

variable {w w' : World} {label : Label} {effect : Effect}

private theorem init : Calls broker.init where
  inOrder _ := .of_idle (by simp [World.todo, broker, default])
  recorded _ _ member := absurd member (by simp [broker, default])
  sorted _ := .nil

private theorem inOrder_step (calls : Calls w) (stepped : w.step? label = some w') (j : ConnectionRef) :
    InOrder (w'.connection j).published (w'.todo j) := by
  by_cases own : ∃ choice, label = .run j choice
  · obtain ⟨choice, rfl⟩ := own
    obtain ⟨first, rest, middle, next, pending, ran, rfl, inside⟩ := World.run_inv stepped
    have rests := World.rests_of_runSection ran
    rw [published_setTodo, World.todo_setTodo _ (rests.size ▸ inside), Function.update_self]
    exact inOrder_of_runSection (pending ▸ calls.inOrder j) ran inside
  · have other : ∀ choice, label ≠ .run j choice := fun choice same => own ⟨choice, same⟩
    obtain ⟨effect, -, happens⟩ := World.happens_of_step stepped
    rw [published_of_step stepped other]
    rcases World.todo_of_other happens other with kept | ⟨env, -, started⟩ | ⟨-, ended⟩
    · exact kept ▸ calls.inOrder j
    · exact started ▸ inOrder_of_handle w j env _
    · exact ended ▸ .of_idle (by simp [Section.inCall, Section.opensCall])

/-- An entry's call stays in the log of its publisher. -/
theorem recorded_grows (stepped : w.step? label = some w') {entry : Entry}
    (recorded : ∃ event, (w.connection entry.publisher).published[entry.call]? = some event ∧
      entry.message.Carries event) :
    ∃ event, (w'.connection entry.publisher).published[entry.call]? = some event ∧ entry.message.Carries event := by
  obtain ⟨event, found, carries⟩ := recorded
  obtain ⟨more, grown⟩ := published_grows stepped entry.publisher
  refine ⟨event, ?_, carries⟩
  rw [← grown, List.getElem?_append_left (List.getElem?_eq_some_iff.mp found).1, found]

private theorem step (calls : Calls w) (stepped : w.step? label = some w') : Calls w' := by
  obtain ⟨effect, store, happens⟩ := World.happens_of_step stepped
  have appended : ∀ q, (w'.queue q).log.enqueued = (w.queue q).log.enqueued ∨
      ∃ k msg event, (w'.queue q).log.enqueued = (w.queue q).log.enqueued ++ [⟨k, w.currentCall k, msg⟩] ∧
        (w.connection k).published.getLast? = some event ∧ msg.Carries event := by
    intro q
    rw [store]
    have changed := w.toStore.onQueue effect q
    generalize (w.toStore.apply effect).queue q = queue at changed ⊢
    cases changed with
    | newQueue => exact .inl (congrArg (·.log.enqueued) (w.queue.beyond _ (Nat.le_refl _))).symm
    | enqueue =>
      cases happens with
      | @enqueue _ k choice _ msg free advances =>
        obtain ⟨rest, pending, -⟩ := advances.todo
        obtain ⟨event, last, carries⟩ := (calls.inOrder k).follows _ (pending ▸ List.mem_cons_self ..)
        exact .inr ⟨k, msg, event, rfl, last, carries⟩
    | _ => exact .inl rfl
  have last {k : ConnectionRef} {event : Publish} (found : (w.connection k).published.getLast? = some event) :
      (w.connection k).published[w.currentCall k]? = some event := by
    rw [← found, List.getLast?_eq_getElem?]
    rfl
  refine ⟨calls.inOrder_step stepped, fun q entry member => recorded_grows stepped ?_, fun q => ?_⟩
  · rcases appended q with same | ⟨k, msg, event, grown, found, carries⟩
    · exact calls.recorded q entry (same ▸ member)
    · rcases List.mem_append.mp (grown ▸ member) with old | new
      · exact calls.recorded q entry old
      · obtain rfl := List.mem_singleton.mp new
        exact ⟨event, last found, carries⟩
  · rcases appended q with same | ⟨k, msg, event, grown, found, -⟩
    · exact same ▸ calls.sorted q
    · rw [grown, List.pairwise_append]
      refine ⟨calls.sorted q, List.pairwise_singleton .., fun a earlier b new publisher => ?_⟩
      obtain rfl := List.mem_singleton.mp new
      obtain ⟨sent, called, -⟩ := calls.recorded q a earlier
      have inside := (List.getElem?_eq_some_iff.mp called).1
      rw [publisher] at inside
      exact Nat.le_sub_one_of_lt inside

end Calls

/-- The sections of `HandleNack` and `unregisterConsumer`. -/
def Section.putsBack : Section → Bool
  | .nackScan .. | .requeue .. | .unregister _ => true
  | _ => false

/-- Steps without nacks, unregistrations and failed writes. -/
def NothingPutBack (w : World) : Label → Prop
  | .run k _ => ∀ first ∈ (w.todo k).head?, first.putsBack = false
  | .failed _ | .rollback _ => False
  | _ => True

instance (w : World) : ∀ label, Decidable (NothingPutBack w label)
  | .run _ _ => inferInstanceAs (Decidable (∀ first ∈ _, _))
  | .failed _ | .rollback _ => .isFalse id
  | .accept | .request .. | .disconnect _ | .lock _ | .probe .. | .exhausted _ | .record _ | .wait _
  | .resume _ | .written _ => .isTrue trivial

theorem calls_of_reachable {ok : World → Label → Prop} {w : World} (reached : broker.Reachable ok w) : Calls w :=
  reached.invariant Calls.init fun _ calls _ stepped => calls.step stepped

section Fifo

variable {w w' : World} {label : Label} {effect : Effect} {q : QueueRef}

private theorem World.Advances.not_putsBack {k : ConnectionRef} {choice : Choice} {first : Section}
    {next : List Section}
    (forward : NothingPutBack w (.run k choice)) (advances : w.Advances w' k first next) :
    first.putsBack = false := by
  obtain ⟨rest, pending, -⟩ := advances.todo
  exact forward first (by rw [pending]; rfl)

private theorem forward_of_mirrors {op : Op Message ConsumerRef} (forward : NothingPutBack w label)
    (happens : Happens w label w' effect) (mirrors : Mirrors q effect op) : Ledger.Forward op := by
  cases happens with
  | nack _ advances | requeue _ advances | unregisterConsumer _ _ _ advances =>
    exact absurd (advances.not_putsBack forward) (by simp [Section.putsBack])
  | failed | rollback => exact forward.elim
  | _ => cases op <;> trivial

theorem fifo_of_reachable (reached : broker.Reachable NothingPutBack w) : ∀ q, Ledger.Fifo (w.ledger q) :=
  ledger_invariant Ledger.fifo_initial
    (fun _ forward happens mirrors step fifo => fifo.step step (forward_of_mirrors forward happens mirrors)) reached

theorem addressed_of_reachable (reached : broker.Reachable NothingPutBack w) :
    ∀ q, Ledger.Addressed (w.ledger q) :=
  ledger_invariant Ledger.addressed_initial
    (fun _ forward happens mirrors step kept => kept.step step (forward_of_mirrors forward happens mirrors)) reached

/-- The deliver frames of a queue name the consumers they were written to. -/
theorem consumerTag_of_reachable {ok : World → Label → Prop} (reached : broker.Reachable ok w) (q : QueueRef) :
    ∀ delivery ∈ (w.queue q).log.delivered, delivery.1 < w.consumer.size ∧
      delivery.2.consumerTag = (w.consumer delivery.1).tag := by
  refine reached.invariant (P := fun w => ∀ q, ∀ delivery ∈ (w.queue q).log.delivered,
    delivery.1 < w.consumer.size ∧ delivery.2.consumerTag = (w.consumer delivery.1).tag) ?_ ?_ q
  · intro q delivery member
    exact absurd member (by simp [broker, default])
  · intro source target label before named _ stepped q delivery member
    obtain ⟨effect, store, happens⟩ := World.happens_of_step stepped
    have extension := source.toStore.extends_apply effect
    have changed := source.toStore.onQueue effect q
    rw [← store] at extension changed
    have old : ∀ j, delivery ∈ (source.queue j).log.delivered → delivery.1 < target.consumer.size ∧
        delivery.2.consumerTag = (target.consumer delivery.1).tag := fun j earlier =>
      ⟨(named j delivery earlier).1.trans_le extension.consumers,
        (named j delivery earlier).2.trans (extension.tag (named j delivery earlier).1).symm⟩
    generalize target.queue q = queue at changed member
    cases changed with
    | newQueue => exact absurd member List.not_mem_nil
    | deliver =>
      rcases List.mem_append.mp member with earlier | new
      · exact old q earlier
      · obtain rfl := List.mem_singleton.mp new
        cases happens with
        | written writing rests =>
          have phase := (wellformed_of_reachable before).phase writing
          exact ⟨phase.1.trans_le extension.consumers, (extension.tag phase.1).symm⟩
    | _ => exact old _ member

/-- The frame in which a delivery goes to a consumer. -/
def World.deliverFrame (w : World) (c : ConsumerRef) (event : Deliver) : Frame :=
  ⟨⟨(w.channel (w.consumer c).channel).id, 0⟩, .deliver event⟩

/-- All deliveries in the order in which they were written: those of a queue are the ones in its log, and those to the
consumers of a connection are the deliver frames on its wire. -/
structure World.Written (w : World) (order : List (QueueRef × ConsumerRef × Deliver)) : Prop where
  logged : ∀ q, (order.filter (·.1 = q)).map Prod.snd = (w.queue q).log.delivered
  framed : ∀ k, (w.wire k).filter (!·.isReply) =
    (order.filter (w.owner ·.2.1 = k)).map fun delivery => w.deliverFrame delivery.2.1 delivery.2.2

/-- A write that has returned nil is in the log of its queue and on the wire of its consumer. -/
private theorem World.written_inv (stepped : w.step? (.written q) = some w') :
    ∃ c msg, (w.queue q).dispatcher = .writing c msg ∧
      w'.queue = w.queue.modify q (·.deliver c (msg.deliver (w.consumer c).tag)) ∧
      (w.owner c < w.connection.size → w'.wire = Function.update w.wire (w.owner c)
        (w.wire (w.owner c) ++ [w.deliverFrame c (msg.deliver (w.consumer c).tag)])) := by
  simp only [step?] at stepped
  split at stepped <;> cases stepped
  next c msg phase =>
    refine ⟨c, msg, phase, rfl, fun inside => funext fun k => ?_⟩
    let write (conn : Connection) : Connection :=
      { conn with wire := conn.wire ++ [w.deliverFrame c (msg.deliver (w.consumer c).tag)] }
    by_cases same : k = w.owner c
    · subst same
      rw [Function.update_self]
      exact congrArg Connection.wire (w.connection.cell_modify_self write inside)
    · rw [Function.update_of_ne same]
      exact congrArg Connection.wire (w.connection.cell_modify_of_ne write same)

/-- Only a write that returns nil is logged as a delivery. -/
theorem World.delivered_of_step (stepped : w.step? label = some w') (other : ∀ q, label ≠ .written q) (q : QueueRef) :
    (w'.queue q).log.delivered = (w.queue q).log.delivered := by
  obtain ⟨effect, store, happens⟩ := happens_of_step stepped
  have changed := w.toStore.onQueue effect q
  rw [← store] at changed
  generalize w'.queue q = queue at changed ⊢
  cases changed with
  | newQueue => exact (congrArg (·.log.delivered) (w.queue.beyond _ (Nat.le_refl _))).symm
  | deliver =>
    cases happens with
    | written => exact absurd rfl (other q)
  | _ => rfl

/-- Only a write that returns nil puts a deliver frame on a wire. -/
theorem World.deliveries_of_step {ok : World → Label → Prop} (reached : broker.Reachable ok w)
    (stepped : w.step? label = some w') (other : ∀ q, label ≠ .written q) (k : ConnectionRef) :
    (w'.wire k).filter (!·.isReply) = (w.wire k).filter (!·.isReply) := by
  rcases wire_of_step stepped k with same | ⟨frame, appended, ⟨choice, rest, -, pending⟩ | ⟨q, c, msg, same, -⟩⟩
  · rw [same]
  · have plain := (confirming_of_reachable reached k).plain (.reply frame) (pending ▸ List.mem_cons_self ..)
    have reply : frame.isReply = true := by
      obtain ⟨header, payload⟩ := frame
      cases payload with
      | deliver => contradiction
      | _ => rfl
    rw [appended, List.filter_append, List.filter_cons_of_neg (by simp [reply]), List.filter_nil, List.append_nil]
  · exact absurd same (other q)

/-- A delivery is written after all the others, and what is written keeps its consumer and its channel. -/
theorem World.Written.step {ok : World → Label → Prop} {order : List (QueueRef × ConsumerRef × Deliver)}
    (written : w.Written order) (reached : broker.Reachable ok w) (stepped : w.step? label = some w') :
    ∃ order', w'.Written order' := by
  have owned := owned_of_reachable reached
  have grows := grows_of_step stepped
  have inside (delivery : QueueRef × ConsumerRef × Deliver) (member : delivery ∈ order) :
      delivery.2.1 < w.consumer.size := by
    refine (consumerTag_of_reachable reached delivery.1 delivery.2 ?_).1
    rw [← written.logged]
    exact List.mem_map.2 ⟨delivery, List.mem_filter.2 ⟨member, decide_eq_true rfl⟩, rfl⟩
  have frame (c : ConsumerRef) (event : Deliver) (inside : c < w.consumer.size) :
      w'.deliverFrame c event = w.deliverFrame c event := by
    unfold deliverFrame
    rw [grows.store.channel inside, (grows.identity _ (owned.channelOf c inside)).1]
  have framed (k : ConnectionRef) :
      (order.filter (w'.owner ·.2.1 = k)).map (fun delivery => w'.deliverFrame delivery.2.1 delivery.2.2) =
        (w.wire k).filter (!·.isReply) := by
    rw [written.framed, List.filter_congr fun delivery member => by rw [owned.owner_step grows (inside _ member)]]
    exact List.map_congr_left fun delivery member => frame _ _ (inside _ (List.mem_of_mem_filter member))
  by_cases delivery : ∃ q, label = .written q
  · obtain ⟨q, rfl⟩ := delivery
    obtain ⟨c, msg, writing, queue, wire⟩ := written_inv stepped
    have known := ((wellformed_of_reachable reached).phase writing).1
    refine ⟨order ++ [(q, c, msg.deliver (w.consumer c).tag)], fun p => ?_, fun k => ?_⟩
    · rw [List.filter_append, List.map_append, written.logged, queue]
      by_cases same : p = q
      · subst same
        rw [w.queue.cell_modify_self _ (inside_of_phase writing Dispatcher.noConfusion)]
        simp [Queue.deliver]
      · rw [w.queue.cell_modify_of_ne _ same]
        simp [Ne.symm same]
    · have accepted : w.owner c < w.connection.size := conn_inside_of_reachable reached _ (owned.channelOf c known)
      rw [List.filter_append, List.map_append, framed, wire accepted]
      by_cases same : k = w.owner c
      · subst same
        rw [Function.update_self, List.filter_append]
        have delivers (event : Deliver) : (w.deliverFrame c event).isReply = false := rfl
        simp [owned.owner_step grows known, frame c _ known, delivers]
      · rw [Function.update_of_ne same]
        simp [owned.owner_step grows known, Ne.symm same]
  · have other (q : QueueRef) : label ≠ .written q := fun same => delivery ⟨q, same⟩
    refine ⟨order, fun q => ?_, fun k => ?_⟩
    · rw [written.logged, delivered_of_step stepped other]
    · rw [framed, deliveries_of_step reached stepped other]

theorem written_of_reachable {ok : World → Label → Prop} (reached : broker.Reachable ok w) :
    ∃ order, w.Written order :=
  reached.invariant (P := fun w : World => ∃ order, w.Written order) ⟨[], fun _ => rfl, fun _ => rfl⟩
    fun before holds _ stepped => holds.elim fun _ written => written.step before stepped

/-- FIFO delivery: what has been written, then what is being written, then the buffer, are the enqueued
messages in their order. So the delivered messages of one publisher come in the order of its calls, each
with the contents of its call, and every deliver frame names a consumer registered on the queue. The deliveries of
the queues, in some order of all of them, are the deliver frames on the wires of the consumers' connections. -/
theorem fifo_delivery (reached : broker.Reachable NothingPutBack w) (q : QueueRef) :
    let log := (w.queue q).log
    let delivered := log.enqueued.take log.delivered.length
    log.delivered.map (·.2.message) ++ ((w.queue q).dispatcher.delivery.toList.map Prod.snd ++ (w.queue q).messages) =
        log.enqueued.map Entry.message ∧
      log.delivered.map (·.2.message) = delivered.map Entry.message ∧
      (delivered.Pairwise fun a b => a.publisher = b.publisher → a.call ≤ b.call) ∧
      (∀ entry ∈ delivered, ∃ event,
        (w.connection entry.publisher).published[entry.call]? = some event ∧ entry.message.Carries event) ∧
      (∀ delivery ∈ log.delivered, delivery.1 ∈ (w.queue q).consumers ∧
        delivery.2.consumerTag = (w.consumer delivery.1).tag) ∧
      ∃ order, w.Written order := by
  have calls := calls_of_reachable reached
  have fifo : (w.queue q).log.delivered.map (·.2.message) ++
      ((w.queue q).dispatcher.delivery.toList.map Prod.snd ++ (w.queue q).messages) =
        (w.queue q).log.enqueued.map Entry.message := by
    simpa only [Ledger.Fifo, World.ledger, Queue.ledger, List.map_map,
      Function.comp_def]
      using fifo_of_reachable reached q
  refine ⟨fifo, ?_, (calls.sorted q).sublist (List.take_sublist ..), ?_, ?_, written_of_reachable reached⟩
  · rw [List.map_take, ← fifo]
    exact (List.take_left' (List.length_map _)).symm
  · exact fun entry member => calls.recorded q entry (List.mem_of_mem_take member)
  · intro delivery member
    refine ⟨?_, (consumerTag_of_reachable reached q delivery member).2⟩
    exact (addressed_of_reachable reached q).1 (delivery.1, delivery.2.message)
      (List.mem_map.mpr ⟨delivery, member, rfl⟩)

/-- Two messages of one publisher, of which the first is on the wire and the second is being written. -/
theorem fifo_delivery_while_writing :
    let w := broker.replay NothingPutBack
      (topology ++ consuming ++ publishing [7] ++ publishing [8] ++ dispatching 0 0 ++ [.written 0] ++ dispatching 0 0)
    let log := (w.queue 0).log
    log.delivered.map (·.2.message) = [⟨1, [7], "ex", "key"⟩] ∧
      (w.wire 0).filter (!·.isReply) = [⟨⟨1, 0⟩, .deliver ⟨1, [7], "ex", "key", "ch.1.consumer.1"⟩⟩] ∧
      (w.queue 0).dispatcher = .writing 0 ⟨2, [8], "ex", "key"⟩ ∧
      log.delivered.map (·.2.message) ++
          ((w.queue 0).dispatcher.delivery.toList.map Prod.snd ++ (w.queue 0).messages) =
        log.enqueued.map Entry.message :=
  ⟨by decide +kernel, by decide +kernel, by decide +kernel, (fifo_delivery (.of_replay _) 0).1⟩

end Fifo

end GolangMQ.Model
