import GolangMQ.Machine.Worklists
import GolangMQ.Dispatch.Wakeup
import GolangMQ.Requests.Completion
import Mathlib.Algebra.Order.BigOperators.Group.Finset

/-! # The broker comes to rest

Between two events from outside (a connection, a request, a disconnect, a write that fails) the goroutines of the
broker work on what they have. No scheduler can keep them busy for ever: a handler replaces the section it has run
by simpler ones, and the dispatcher of a queue scans its consumers once for each message. A handler may wake a
dispatcher again, so the sections come first in the measure and the dispatchers second.

A write to a client that has stopped reading waits for ever. Which connections writes return on is therefore a
parameter, `returns`. Where no goroutine can move, every handler has returned and every dispatcher sleeps, except those
that wait for such a write; nobody waits for a lock, and as a handler replies last, it leaves nobody unsignalled.
-/

namespace GolangMQ.Model

open Machine

/-- The dispatcher waits for a signal. -/
def Dispatcher.asleep : Dispatcher → Bool
  | .parked _ false => true
  | _ => false

theorem Dispatcher.asleep_iff {phase : Dispatcher} : phase.asleep = true ↔ ∃ site, phase = .parked site false := by
  cases phase with
  | parked site woken => cases woken <;> simp [asleep]
  | _ => simp [asleep]

namespace World

/-- The handler of the connection is about to write a reply. -/
def replying (w : World) (k : ConnectionRef) : Bool :=
  match w.todo k with
  | .reply _ :: _ => true
  | _ => false

/-- The connection that the dispatcher of a queue is writing to. -/
def addressee (w : World) (q : QueueRef) : Option ConnectionRef :=
  match (w.queue q).dispatcher with
  | .writing c _ => some (w.owner c)
  | _ => none

theorem mem_addressee {w : World} {q : QueueRef} {k : ConnectionRef} :
    k ∈ w.addressee q ↔ ∃ c msg, (w.queue q).dispatcher = .writing c msg ∧ w.owner c = k := by
  unfold addressee
  cases (w.queue q).dispatcher <;> simp

/-- The steps that goroutines take by themselves, where a write to a connection returns if `returns` says so and waits
for ever if not. A write to a consumer that fails is an event from outside: the dispatcher takes the delivery back and
tries again, for as long as writes fail. -/
def Works (returns : ConnectionRef → Prop) (w : World) : Label → Prop
  | .run k _ => w.replying k = true → returns k
  | .written q => q < w.queue.size ∧ ∀ k ∈ w.addressee q, returns k
  | .lock q | .probe q _ | .exhausted q | .record q | .wait q | .resume q | .rollback q => q < w.queue.size
  | .accept | .request .. | .disconnect _ | .failed _ => False

instance (returns : ConnectionRef → Prop) [DecidablePred returns] (w : World) :
    ∀ label, Decidable (w.Works returns label)
  | .run k _ => inferInstanceAs (Decidable (w.replying k = true → returns k))
  | .written q => inferInstanceAs (Decidable (q < w.queue.size ∧ ∀ k ∈ w.addressee q, returns k))
  | .lock q | .probe q _ | .exhausted q | .record q | .wait q | .resume q | .rollback q =>
    inferInstanceAs (Decidable (q < w.queue.size))
  | .accept | .request .. | .disconnect _ | .failed _ => .isFalse not_false

/-- Some goroutine moves. -/
def Moves (returns : ConnectionRef → Prop) (w w' : World) : Prop :=
  ∃ label, w.Works returns label ∧ w.step? label = some w'

/-- Every handler has returned or has only the write of a reply left, which does not return; every dispatcher waits for
a signal or for such a write. -/
structure AtRest (returns : ConnectionRef → Prop) (w : World) : Prop where
  handlers : ∀ k < w.connection.size, w.todo k = [] ∨ (∃ frame, w.todo k = [.reply frame]) ∧ ¬ returns k
  dispatchers : ∀ q < w.queue.size, (w.queue q).dispatcher.asleep = true ∨ ∃ k ∈ w.addressee q, ¬ returns k

end World

variable {w w' : World} {label : Label} {q : QueueRef} {k : ConnectionRef} {returns : ConnectionRef → Prop}

section Replies

/-- What a section leads to owes a reply at its end only. -/
private theorem owes_last_of_runs {choice : Choice} {first : Section} {next : List Section}
    (runs : Runs w k choice first w' next) : ∀ s ∈ next.dropLast, s.owes = false := by
  cases owes : first.owes with
  | false => exact fun s member => owes_of_leads (leads_of_runs runs (List.dropLast_subset _ member)) owes
  | true =>
    cases runs with
    | @publishUnknown event report => cases report <;> simp
    | publish | consumeRefused | attach | reply | unsent => simp
    | consume => simp [Section.owes]
    | _ => contradiction

private theorem owes_last_of_handle (w : World) (k : ConnectionRef) (env : Envelope) :
    ∀ s ∈ (w.handle k env).2.dropLast, s.owes = false := by
  refine w.handle_cases k env (P := fun _ next => ∀ s ∈ next.dropLast, s.owes = false) (fun _ _ => by simp)
    (fun _ => ?_) (fun _ => by simp) (fun ch _ => ?_)
  · rw [List.dropLast_concat]
    cases (w.connection k).channels.lookup env.channelID <;> simp [Section.owes]
  · unfold Model.route
    cases env.request <;> dsimp only <;> first | (split <;> simp [Section.owes]) | simp [Section.owes]

/-- A handler replies last. -/
theorem owes_last_of_reachable {ok : World → Label → Prop} (reached : broker.Reachable ok w) :
    ∀ k, ∀ s ∈ (w.todo k).dropLast, s.owes = false := by
  refine reached.invariant (P := fun w => ∀ k, ∀ s ∈ (w.todo k).dropLast, s.owes = false)
    (fun k s member => absurd member List.not_mem_nil) ?_
  intro source target label _ last _ stepped k
  have stepped : source.step? label = some target := stepped
  have changed {v : World} {j : ConnectionRef} {sections : List Section}
      (todo : v.todo = Function.update source.todo j sections) (new : ∀ s ∈ sections.dropLast, s.owes = false) :
      ∀ s ∈ (v.todo k).dropLast, s.owes = false := by
    rw [todo]
    by_cases same : k = j
    · rwa [same, Function.update_self]
    · rw [Function.update_of_ne same]
      exact last k
  cases World.steps_of_step stepped with
  | accept =>
    have same : _ = source.todo k := source.connection.observe_alloc Connection.todo { live := true } rfl k
    exact fun s member => last k s (same ▸ member)
  | @request j env alive idle =>
    exact changed ((source.handle_spec j env).1.todo_setTodo (World.inside_of_live alive) _)
      (owes_last_of_handle source j env)
  | @disconnect j alive idle => exact changed (source.todo_setTodo (World.inside_of_live alive) _) (by simp)
  | @run j choice first rest next middle inside pending runs rests =>
    refine changed (rests.todo_setTodo inside _) ?_
    have before := last j
    rw [pending] at before
    cases rest with
    | nil =>
      rw [List.append_nil]
      exact owes_last_of_runs runs
    | cons second others =>
      rw [List.dropLast_append_of_ne_nil (List.cons_ne_nil _ _)]
      rw [List.dropLast_cons_cons] at before
      have silent := before first (List.mem_cons_self ..)
      exact List.forall_mem_append.2 ⟨fun s led => owes_of_leads (leads_of_runs runs led) silent,
        fun s later => before s (List.mem_cons_of_mem _ later)⟩
  | dispatch _ _ rests =>
    rw [rests.todo]
    exact last k

/-- A handler that is about to write a reply has nothing else to do. -/
private theorem only_reply_of_replying {ok : World → Label → Prop} (reached : broker.Reachable ok w)
    (replying : w.replying k = true) : ∃ frame, w.todo k = [.reply frame] := by
  have last := owes_last_of_reachable reached k
  unfold World.replying at replying
  split at replying
  · next frame rest pending =>
    cases rest with
    | nil => exact ⟨frame, pending⟩
    | cons second others =>
      rw [pending, List.dropLast_cons_cons] at last
      have owes := last _ (List.mem_cons_self ..)
      contradiction
  · contradiction

end Replies

/-- How much a section can lead to: the depth of the calls to come, and the length of the loop it is in. -/
def Section.rank : Section → ℕ ×ₗ ℕ
  | .signal _ | .reply _ | .requeue .. | .declareQueue .. | .declareExchange _ | .bind .. | .depart => toLex (0, 0)
  | .enqueue .. | .register _ | .attach .. | .ackQueue .. | .bindQueue .. | .unregister _ => toLex (1, 0)
  | .takeTag .. | .consume .. | .ack .. | .cleanup _ => toLex (2, 0)
  | .route .. | .teardown => toLex (3, 0)
  | .ackScan consumers _ => toLex (3, consumers.length)
  | .publish .. | .ackRange .. => toLex (4, 0)
  | .nackScan consumers _ _ => toLex (5, consumers.length)
  | .nackRange .. => toLex (6, 0)

private theorem Leads.rank_lt {first s : Section} (leads : Leads first s) : s.rank < first.rank := by
  cases leads <;> simp [Section.rank, Prod.Lex.toLex_lt_toLex]

/-- A bound on the moves a dispatcher has before it sleeps: it scans the consumers once for each message and once
to find that there is nothing to do. -/
def Queue.workload (queue : Queue) : ℕ :=
  let lap := queue.consumers.card + 4
  match queue.dispatcher with
  | .top => (queue.messages.length + 1) * lap
  | .scanning passed => queue.messages.length * lap + (queue.consumers \ passed.toFinset).card + 3
  | .selected _ | .waiting _ => queue.messages.length * lap + 2
  | .parked _ false => 0
  | .parked _ true | .writing .. => (queue.messages.length + 1) * lap + 1
  | .failed .. => (queue.messages.length + 2) * lap + 1

section Workload

/-- The scan starts, or there is no message. -/
private theorem Queue.workload_lock (queue : Queue)
    (stands : queue.dispatcher = .top ∨ queue.dispatcher = .parked .noMessage true) :
    { queue with
      dispatcher := if queue.messages = [] then .waiting .noMessage else .scanning [] }.workload < queue.workload := by
  have before : (queue.messages.length + 1) * (queue.consumers.card + 4) ≤ queue.workload := by
    rcases stands with top | woken
    · rw [workload, top]
    · rw [workload, woken]
      exact Nat.le_succ _
  refine Nat.lt_of_lt_of_le ?_ before
  by_cases empty : queue.messages = []
  · simp only [if_pos empty, workload, Nat.add_mul]
    omega
  · simp only [if_neg empty, workload, List.toFinset_nil, Finset.sdiff_empty, Nat.add_mul]
    omega

/-- One more consumer has been looked at. -/
private theorem Queue.workload_probe (queue : Queue) {passed : List ConsumerRef} {c : ConsumerRef} (free : Bool)
    (stands : queue.dispatcher = .scanning passed) (member : c ∈ queue.consumers) (fresh : c ∉ passed) :
    { queue with dispatcher := if free then .selected c else .scanning (c :: passed) }.workload < queue.workload := by
  have left : c ∈ queue.consumers \ passed.toFinset :=
    Finset.mem_sdiff.2 ⟨member, fun seen => fresh (List.mem_toFinset.1 seen)⟩
  have fewer : (queue.consumers \ (c :: passed).toFinset).card < (queue.consumers \ passed.toFinset).card := by
    rw [List.toFinset_cons, Finset.sdiff_insert]
    exact Finset.card_erase_lt_of_mem left
  cases free with
  | true =>
    simp only [workload, stands, if_true]
    omega
  | false =>
    simp only [workload, stands, Bool.false_eq_true, if_false]
    omega

private theorem Queue.workload_pop (queue : Queue) {c : ConsumerRef} {msg : Message} {rest : List Message}
    (stands : queue.dispatcher = .selected c) (head : queue.messages = msg :: rest) :
    (queue.pop c msg).workload < queue.workload := by
  simp only [workload, pop, stands, head, List.tail_cons, List.length_cons]
  omega

private theorem Queue.workload_deliver (queue : Queue) {c : ConsumerRef} {msg : Message} (event : Deliver)
    (stands : queue.dispatcher = .writing c msg) : (queue.deliver c event).workload < queue.workload := by
  simp only [workload, deliver, stands]
  omega

private theorem Queue.workload_rollback (queue : Queue) {c : ConsumerRef} {msg : Message}
    (stands : queue.dispatcher = .failed c msg) : (queue.rollback msg).workload < queue.workload := by
  simp only [workload, rollback, pushFront, stands, List.length_cons, Nat.add_mul]
  omega

/-- The queue whose dispatcher moves. -/
def Label.queue : Label → Option QueueRef
  | .lock q | .probe q _ | .exhausted q | .record q | .wait q | .resume q | .written q | .failed q
  | .rollback q => some q
  | .accept | .request .. | .disconnect _ | .run .. => none

/-- Every move of a dispatcher lowers the workload of its queue and leaves the other queues alone. -/
theorem workload_lt_of_step (works : w.Works returns label) (mine : label.queue = some q)
    (stepped : w.step? label = some w') :
    w'.queue.size = w.queue.size ∧ (∀ p ≠ q, w'.queue p = w.queue p) ∧
      (w'.queue q).workload < (w.queue q).workload := by
  obtain ⟨effect, store, happens⟩ := World.happens_of_step stepped
  have changed (inside : q < w.queue.size) (f : Queue → Queue) (heap : w'.queue = w.queue.modify q f)
      (lower : (f (w.queue q)).workload < (w.queue q).workload) :
      w'.queue.size = w.queue.size ∧ (∀ p ≠ q, w'.queue p = w.queue p) ∧
        (w'.queue q).workload < (w.queue q).workload := by
    rw [heap]
    refine ⟨rfl, fun p other => Heap.cell_modify_of_ne _ _ other, ?_⟩
    rw [Heap.cell_modify_self _ _ inside]
    exact lower
  cases happens with
  | @lock _ j stands =>
    obtain rfl := Option.some.inj mine
    exact changed works ({ · with dispatcher := _ }) (by rw [store]; rfl) ((w.queue j).workload_lock stands)
  | @probe _ j c passed stands member =>
    obtain rfl := Option.some.inj mine
    have fresh : c ∉ passed := by
      simp only [World.step?, stands] at stepped
      split at stepped
      · next unseen => exact unseen.2
      · contradiction
    exact changed works ({ · with dispatcher := _ }) (by rw [store]; rfl)
      ((w.queue j).workload_probe _ stands member fresh)
  | exhausted stands | wait stands | resume stands =>
    obtain rfl := Option.some.inj mine
    refine changed works ({ · with dispatcher := _ }) (by rw [store]; rfl) ?_
    simp only [Queue.workload, stands]
    omega
  | @record _ j c msg _ stands head =>
    obtain rfl := Option.some.inj mine
    exact changed works (·.pop c msg) (by rw [store]; rfl) ((w.queue j).workload_pop stands head)
  | @written _ j c msg stands =>
    obtain rfl := Option.some.inj mine
    exact changed works.1 (·.deliver c (msg.deliver (w.consumer c).tag)) (by rw [store]; rfl)
      ((w.queue j).workload_deliver _ stands)
  | @rollback _ j c msg stands =>
    obtain rfl := Option.some.inj mine
    exact changed works (·.rollback msg) (by rw [store]; rfl) ((w.queue j).workload_rollback stands)
  | _ => contradiction

end Workload

namespace World

/-- The ranks of the sections that all connections still have to run. -/
def pending (w : World) : Multiset (ℕ ×ₗ ℕ) :=
  Worklists.tasks (fun k => (w.todo k).map Section.rank) w.connection.size

def workload (w : World) : ℕ := ∑ q ∈ Finset.range w.queue.size, (w.queue q).workload

end World

private theorem pending_lt_of_run {choice : Choice} (stepped : w.step? (.run k choice) = some w') :
    w'.pending.IsDershowitzMannaLT w.pending := by
  cases World.steps_of_step stepped with
  | @run _ _ first rest next middle inside pending runs rests =>
    have head : (w.todo k).map Section.rank = first.rank :: rest.map Section.rank := by rw [pending, List.map_cons]
    have ranks : (fun j => (((middle.setTodo k (next ++ rest)).todo j).map Section.rank)) =
        Function.update (fun j => (w.todo j).map Section.rank) k (next.map Section.rank ++ rest.map Section.rank) := by
      funext j
      rw [rests.todo_setTodo inside, ← List.map_append]
      exact Function.apply_update (fun _ => List.map Section.rank) w.todo k (next ++ rest) j
    have size : (middle.setTodo k (next ++ rest)).connection.size = w.connection.size := rests.size
    rw [World.pending, World.pending, ranks, size]
    refine Worklists.tasks_update_lt inside head fun rank member => ?_
    obtain ⟨s, led, rfl⟩ := List.mem_map.1 member
    exact (leads_of_runs runs led).rank_lt
  | dispatch => contradiction

private theorem workload_lt_of_dispatch (works : w.Works returns label) (mine : label.queue = some q)
    (stepped : w.step? label = some w') : w'.pending = w.pending ∧ w'.workload < w.workload := by
  have inside : q < w.queue.size := by
    cases label with
    | accept | request | disconnect | run | failed => contradiction
    | written =>
      cases mine
      exact works.1
    | _ =>
      cases mine
      exact works
  obtain ⟨size, others, lower⟩ := workload_lt_of_step works mine stepped
  constructor
  · cases World.steps_of_step stepped with
    | dispatch _ _ rests => rw [World.pending, World.pending, rests.todo, rests.size]
    | _ => contradiction
  · rw [World.workload, World.workload, size]
    refine Finset.sum_lt_sum (fun p _ => ?_) ⟨q, Finset.mem_range.2 inside, lower⟩
    by_cases same : p = q
    · exact same ▸ lower.le
    · rw [others p same]

/-- However they are scheduled, the goroutines stop. -/
theorem wellFounded_moves (returns : ConnectionRef → Prop) :
    WellFounded fun w' w : World => w.Moves returns w' := by
  refine Worklists.wellFounded_of_lowers World.pending World.workload fun w w' moved => ?_
  obtain ⟨label, works, stepped⟩ := moved
  cases mine : label.queue with
  | some q => exact .inr (workload_lt_of_dispatch works mine stepped)
  | none =>
    cases label with
    | run k choice => exact .inl (pending_lt_of_run stepped)
    | _ => contradiction

section Progress

/-- A dispatcher that does not sleep moves, unless it waits for a write: it waits for nobody once it has its lock. -/
theorem moves_of_awake (wellformed : Wellformed w) (inside : q < w.queue.size)
    (awake : (w.queue q).dispatcher.asleep = false) (returning : ∀ k ∈ w.addressee q, returns k) :
    ∃ w', w.Moves returns w' := by
  have moves (label : Label) (works : w.Works returns label) (enabled : (w.step? label).isSome) :
      ∃ w', w.Moves returns w' := by
    obtain ⟨w', stepped⟩ := Option.isSome_iff_exists.1 enabled
    exact ⟨w', label, works, stepped⟩
  cases stands : (w.queue q).dispatcher with
  | top => exact moves (.lock q) inside (by simp [World.step?, stands])
  | scanning passed =>
    by_cases all : passed.toFinset = (w.queue q).consumers
    · exact moves (.exhausted q) inside (by simp [World.step?, stands, all])
    · have seen : passed.toFinset ⊆ (w.queue q).consumers := fun c member =>
        (wellformed.phase stands).2 c (List.mem_toFinset.1 member)
      obtain ⟨c, registered, unseen⟩ := Finset.exists_of_ssubset (seen.ssubset_of_ne all)
      rw [List.mem_toFinset] at unseen
      exact moves (.probe q c) inside (by simp [World.step?, stands, registered, unseen])
  | selected c =>
    obtain ⟨msg, rest, messages⟩ := List.exists_cons_of_ne_nil (wellformed.phase stands).1
    exact moves (.record q) inside (by simp [World.step?, stands, messages])
  | waiting site => exact moves (.wait q) inside (by simp [World.step?, stands])
  | parked site woken =>
    cases woken with
    | false =>
      rw [stands] at awake
      contradiction
    | true =>
      cases site with
      | noMessage => exact moves (.lock q) inside (by simp [World.step?, stands])
      | noConsumer => exact moves (.resume q) inside (by simp [World.step?, stands])
  | writing c msg => exact moves (.written q) ⟨inside, returning⟩ (by simp [World.step?, stands])
  | failed c msg => exact moves (.rollback q) inside (by simp [World.step?, stands])

/-- A handler that has something to do moves, unless it waits for a write, once no dispatcher is inside its lock. -/
private theorem moves_of_pending (inside : k < w.connection.size) (unlocked : w.Unlocked) (pending : w.todo k ≠ [])
    (returning : w.replying k = true → returns k) : ∃ w', w.Moves returns w' := by
  obtain ⟨w', choices, ran, idle⟩ := World.exists_serves inside unlocked
  cases choices with
  | nil =>
    cases ran
    exact absurd idle pending
  | cons choice rest =>
    obtain ⟨middle, stepped, -⟩ := Option.bind_eq_some_iff.1 ran
    exact ⟨middle, .run k choice, returning, stepped⟩

private theorem atRest_of_stuck (reached : broker.Reachable anyStep w) (stuck : ¬ ∃ w', w.Moves returns w') :
    w.AtRest returns := by
  have wellformed := wellformed_of_reachable reached
  have dispatchers (q : QueueRef) (inside : q < w.queue.size) :
      (w.queue q).dispatcher.asleep = true ∨ ∃ k ∈ w.addressee q, ¬ returns k := by
    by_contra! moving
    exact stuck (moves_of_awake wellformed inside (Bool.eq_false_of_not_eq_true moving.1) moving.2)
  -- Neither a dispatcher that sleeps nor one that writes is inside its lock.
  have unlocked : w.Unlocked := World.unlocked_of_declared fun q inside => by
    rw [World.lockFree]
    rcases dispatchers q inside with asleep | ⟨k, writes, -⟩
    · obtain ⟨site, parked⟩ := Dispatcher.asleep_iff.1 asleep
      rw [parked]
      rfl
    · obtain ⟨c, msg, writing, -⟩ := World.mem_addressee.1 writes
      rw [writing]
      rfl
  refine ⟨fun k inside => ?_, dispatchers⟩
  by_cases idle : w.todo k = []
  · exact .inl idle
  · have waits : ¬ (w.replying k = true → returns k) := fun returning =>
      stuck (moves_of_pending inside unlocked idle returning)
    rw [Classical.not_imp] at waits
    exact .inr ⟨only_reply_of_replying reached waits.1, waits.2⟩

end Progress

/-- A handler that waits for the write of its reply owes no signal. -/
theorem World.AtRest.not_owed (rest : w.AtRest returns) (q : QueueRef) : ¬ w.Owed q := by
  refine not_owed_of_accepted fun k inside waiting => ?_
  rcases rest.handlers k inside with idle | ⟨⟨frame, replying⟩, -⟩
  · rw [idle] at waiting
    exact List.not_mem_nil waiting
  · rw [replying, List.mem_singleton] at waiting
    contradiction

/-- The broker comes to rest after every event from outside, whichever writes return: no schedule of its goroutines
goes on for ever, and they can move until every handler has returned and every dispatcher sleeps, except those that
wait for a write. Then, if the signals were timely, no queue whose dispatcher sleeps has both a message and a
consumer with room for it. -/
theorem broker_comes_to_rest (returns : ConnectionRef → Prop) :
    (WellFounded fun w' w : World => w.Moves returns w') ∧
    (∀ w, broker.Reachable anyStep w → Inevitable (World.Moves returns) (World.AtRest returns) w) ∧
    ∀ w, broker.Reachable TimelySignals w → w.AtRest returns → ∀ q, (w.queue q).dispatcher.asleep = true →
      (w.queue q).messages = [] ∨ ∀ c ∈ (w.queue q).consumers, (w.consumer c).Full := by
  refine ⟨wellFounded_moves returns, fun w reached => ?_, fun w reached rest q asleep => ?_⟩
  · refine .of_wellFounded (wellFounded_moves returns) (I := broker.Reachable anyStep) ?_ ?_ reached
    · rintro before after reached ⟨label, -, stepped⟩
      exact reached.next label stepped
    · intro w reached
      by_cases moves : ∃ w', w.Moves returns w'
      · exact .inr moves
      · exact .inl (atRest_of_stuck reached moves)
  · obtain ⟨site, parked⟩ := Dispatcher.asleep_iff.1 asleep
    exact (((awake_of_reachable reached).2 q).asleep site parked).imp_right (Or.resolve_right · (rest.not_owed q))

/-- Eleven messages have been published and ten delivered to the only consumer. -/
def restSaturated : World := broker.replay TimelySignals (saturated ++ [.lock 0, .probe 0 0, .exhausted 0, .wait 0])

theorem broker_comes_to_rest_saturated :
    restSaturated.AtRest (fun _ => True) ∧ (restSaturated.queue 0).messages ≠ [] ∧
      ∀ c ∈ (restSaturated.queue 0).consumers, (restSaturated.consumer c).Full := by
  have idle : ∀ k < restSaturated.connection.size, restSaturated.todo k = [] := by decide +kernel
  have asleep : ∀ q < restSaturated.queue.size, (restSaturated.queue q).dispatcher.asleep = true := by decide +kernel
  have rest : restSaturated.AtRest (fun _ => True) :=
    ⟨fun k inside => .inl (idle k inside), fun q inside => .inl (asleep q inside)⟩
  have left : (restSaturated.queue 0).messages ≠ [] := by decide +kernel
  have drained := (broker_comes_to_rest fun _ => True).2.2 restSaturated (.of_replay _) rest 0 (by decide +kernel)
  exact ⟨rest, left, drained.resolve_left left⟩

end GolangMQ.Model
