import GolangMQ.Requests.Enrolment
import GolangMQ.Requests.Routing
import Mathlib.Algebra.BigOperators.Ring.Finset

/-! # Counters and gauges

The counters are labelled by queue names, which are as good as the queues. Each of them is incremented where
its event happens or a few statements later, in the same goroutine; so between requests `Enqueued` and the removals
are the lengths of the queue's log, and registrations less unregistrations are the number of
consumers. With the custody of messages conserved this gives the balance of the plan for the metrics.
-/

namespace GolangMQ.Model

open Custody Machine

/-- The consumer that is about to be put into the map of its queue. -/
def Section.registers : Section → Option ConsumerRef
  | .register c => some c
  | _ => none

/-- The pending sections that are about a consumer of queue `q`. -/
def World.waiting (w : World) (who : Section → Option ConsumerRef) (q : QueueRef) : ℕ :=
  (tally (fun s => (who s).map fun c => (w.consumer c).queue) w.connection.size w.todo).count q

/-- The counters for a name agree with a queue, up to registrations that are under way. -/
structure Metrics.Matches (m : Metrics) (name : String) (queue : Queue) (attaching registering : ℕ) : Prop where
  enqueued : m.enqueued name = queue.log.enqueued.length
  settled : m.acked name + m.nacked name false = queue.log.settled.length
  removed : m.nacked name false = m.deadLettered name + m.dropped name
  enrolled :
    m.consumersRegistered name + attaching = m.consumersUnregistered name + queue.consumers.card + registering

/-- The counters agree with the queues. -/
structure Metered (w : World) : Prop where
  declared : ∀ q < w.queue.size, w.metrics.Matches (w.queue q).name (w.queue q) (w.waiting Section.attaches q)
    (w.waiting Section.registers q)
  undeclared : ∀ name, name ∉ w.queues → w.metrics.Matches name {} 0 0

/-- The counters for a name are the same. -/
structure Metrics.Same (m m' : Metrics) (name : String) : Prop where
  enqueued : m'.enqueued name = m.enqueued name
  acked : m'.acked name = m.acked name
  nacked : m'.nacked name = m.nacked name
  deadLettered : m'.deadLettered name = m.deadLettered name
  dropped : m'.dropped name = m.dropped name
  consumersRegistered : m'.consumersRegistered name = m.consumersRegistered name
  consumersUnregistered : m'.consumersUnregistered name = m.consumersUnregistered name

variable {w w' middle : World} {label : Label} {k : ConnectionRef} {choice : Choice} {first : Section}
  {next rest : List Section} {c : ConsumerRef} {q : QueueRef}

/-- What a queue's counters are about. -/
structure Queue.Like (queue queue' : Queue) : Prop where
  enqueued : queue'.log.enqueued = queue.log.enqueued
  settled : queue'.log.settled = queue.log.settled
  consumers : queue'.consumers = queue.consumers

/-- The effects that the counters are about. -/
def Effect.counted : Effect → Bool
  | .newQueue .. | .enqueue .. | .ack .. | .nack .. | .registerConsumer _ | .unregisterConsumer .. => true
  | _ => false

private theorem Store.like_apply (s : Store) {effect : Effect} (uncounted : effect.counted = false) (q : QueueRef) :
    (s.queue q).Like ((s.apply effect).queue q) := by
  have changed := s.onQueue effect q
  generalize (s.apply effect).queue q = queue at changed ⊢
  cases changed with
  | newQueue | enqueue | ack | nack | registerConsumer | unregisterConsumer => contradiction
  | _ => exact ⟨rfl, rfl, rfl⟩

private theorem Metrics.Matches.of_same {m m' : Metrics} {name : String} {queue queue' : Queue}
    {attaching attaching' registering registering' : ℕ} (matched : m.Matches name queue attaching registering)
    (same : m.Same m' name) (like : queue.Like queue')
    (shift : attaching' + registering = attaching + registering') :
    m'.Matches name queue' attaching' registering' := by
  have enrolled := matched.enrolled
  constructor
  · rw [same.enqueued, like.enqueued, matched.enqueued]
  · rw [same.acked, same.nacked, like.settled, matched.settled]
  · rw [same.nacked, same.deadLettered, same.dropped, matched.removed]
  · rw [same.consumersRegistered, same.consumersUnregistered, like.consumers]
    omega

/-- The sections that `who` selects refer to the consumer they are about. -/
def Section.Mentions (who : Section → Option ConsumerRef) : Prop := ∀ s c, who s = some c → c ∈ s.consumerRefs

private theorem Section.mentions_attaches : Section.Mentions Section.attaches := by
  intro s c attaches
  cases s <;> first | contradiction | (cases attaches; simp)

private theorem Section.mentions_registers : Section.Mentions Section.registers := by
  intro s c registers
  cases s <;> first | contradiction | (cases registers; simp)

section Waiting

variable {who : Section → Option ConsumerRef} (mentions : Section.Mentions who) (refs : Refs w)
include mentions refs

/-- The queues of the consumers that sections wait for do not change. -/
private theorem World.waiting_eq (stepped : w.step? label = some w') (q : QueueRef) :
    w.waiting who q =
      (tally (fun s => (who s).map fun c => (w'.consumer c).queue) w.connection.size w.todo).count q := by
  have grows := World.grows_of_step stepped
  refine congrArg (Multiset.count q) (tally_congr _ fun i _ s member => ?_)
  cases asked : who s with
  | none => rfl
  | some c =>
    have known := (refs.pending i s member).consumers c (mentions s c asked)
    exact congrArg some (grows.store.queue known).symm

/-- No consumer belongs to a queue that has not been declared. -/
private theorem World.waiting_of_beyond (beyond : w.queue.size ≤ q) : w.waiting who q = 0 := by
  refine Multiset.count_eq_zero.2 fun member => ?_
  obtain ⟨i, -, s, pending, asked⟩ := mem_tally.1 member
  obtain ⟨c, found, rfl⟩ := Option.map_eq_some_iff.1 asked
  exact absurd (refs.queueOf c ((refs.pending i s pending).consumers c (mentions s c found))) (Nat.not_lt.2 beyond)

/-- Only the goroutine of a connection changes what waits for a queue. -/
private theorem World.waiting_of_other (plain : ∀ k env, ∀ s ∈ (w.handle k env).2, who s = none)
    (ending : who .teardown = none) (other : ∀ k choice, label ≠ .run k choice) (stepped : w.step? label = some w')
    (q : QueueRef) : w'.waiting who q = w.waiting who q := by
  rw [waiting_eq mentions refs stepped]
  obtain ⟨effect, -, happens⟩ := happens_of_step stepped
  refine congrArg (Multiset.count q) ?_
  cases happens with
  | accepted size todo =>
    rw [size, todo]
    refine tally_succ _ ?_
    rw [World.todo, w.connection.beyond _ (Nat.le_refl _)]
    rfl
  | @requested _ k env size inside idle todo =>
    rw [size, todo]
    refine tally_start _ inside idle (List.filterMap_eq_nil_iff.2 fun s member => ?_)
    rw [plain k env s member]
    rfl
  | disconnected size inside idle todo =>
    rw [size, todo]
    refine tally_start _ inside idle ?_
    simp [ending]
  | quiet | newQueue | newConsumer | takeTag | enqueue | signal | registerConsumer | unregisterConsumer | ack | nack
  | requeue => exact absurd rfl (other _ _)
  | _ => exact World.Rests.tally_eq _ (by assumption)

variable (pending : w.todo k = first :: rest) (rests : w.Rests middle)
  (stepped : w.step? (.run k choice) = some (middle.setTodo k (next ++ rest)))
include pending rests stepped

/-- What waits for a queue after one section has run. -/
private theorem World.waiting_of_run (q : QueueRef) :
    (middle.setTodo k (next ++ rest)).waiting who q +
        (((who first).map fun c => (middle.consumer c).queue).toList).count q =
      w.waiting who q + (next.filterMap fun s => (who s).map fun c => (middle.consumer c).queue).count q := by
  obtain ⟨_, _, _, _, _, _, _, inside⟩ := run_inv stepped
  have advanced := tally_advance (fun s => (who s).map fun c => (middle.consumer c).queue) inside pending next
  have counted := congrArg (Multiset.count q) advanced
  rw [Multiset.count_add, Multiset.count_add, Multiset.coe_count, Multiset.coe_count] at counted
  have size : (middle.setTodo k (next ++ rest)).connection.size = w.connection.size := rests.size
  rw [waiting_eq mentions refs stepped, World.waiting, rests.todo_setTodo inside, size]
  exact counted

/-- A section that is about no consumer and leads to none. -/
private theorem World.waiting_of_aside (aside : who first = none) (quiet : ∀ s ∈ next, who s = none) (q : QueueRef) :
    (middle.setTodo k (next ++ rest)).waiting who q = w.waiting who q := by
  have none : next.filterMap (fun s => (who s).map fun c => (middle.consumer c).queue) = [] :=
    List.filterMap_eq_nil_iff.2 fun s member => by rw [quiet s member]; rfl
  simpa [aside, none] using waiting_of_run mentions refs pending rests stepped q

/-- A section that was awaited for consumer `c` and leads to none. -/
private theorem World.waiting_of_awaited (awaited : who first = some c) (quiet : ∀ s ∈ next, who s = none) :
    (∀ q ≠ (w.consumer c).queue, (middle.setTodo k (next ++ rest)).waiting who q = w.waiting who q) ∧
      (middle.setTodo k (next ++ rest)).waiting who (w.consumer c).queue + 1 = w.waiting who (w.consumer c).queue := by
  have none : next.filterMap (fun s => (who s).map fun c => (middle.consumer c).queue) = [] :=
    List.filterMap_eq_nil_iff.2 fun s member => by rw [quiet s member]; rfl
  have known := (refs.pending k first (pending ▸ List.mem_cons_self ..)).consumers c (mentions first c awaited)
  have kept : (middle.consumer c).queue = (w.consumer c).queue := (World.grows_of_step stepped).store.queue known
  have counted := waiting_of_run mentions refs pending rests stepped
  simp only [awaited, none, Option.map_some, Option.toList_some, kept, List.count_nil, add_zero] at counted
  refine ⟨fun q other => ?_, by simpa using counted (w.consumer c).queue⟩
  simpa [List.count_singleton, other.symm] using counted q

end Waiting

/-- The sections a request starts with concern no consumer that is being registered. -/
private theorem World.plain_handle (w : World) (k : ConnectionRef) (env : Envelope) :
    ∀ s ∈ (w.handle k env).2, s.attaches = none ∧ s.registers = none := by
  intro s member
  cases World.handled_of_mem member with
  | routed found routed => cases routed <;> exact ⟨rfl, rfl⟩
  | _ => exact ⟨rfl, rfl⟩

namespace Metered

/-- A step that no counter is about. -/
theorem silent (metered : Metered w) (stepped : w.step? label = some w')
    (same : ∀ name, w.metrics.Same w'.metrics name)
    (like : ∀ q, (w.queue q).Like (w'.queue q)) (queues : w'.queues = w.queues) (size : w'.queue.size = w.queue.size)
    (shift : ∀ q, w'.waiting Section.attaches q + w.waiting Section.registers q =
      w.waiting Section.attaches q + w'.waiting Section.registers q) : Metered w' := by
  have grows := World.grows_of_step stepped
  refine ⟨fun q inside => ?_, fun name undeclared => ?_⟩
  · rw [size] at inside
    rw [grows.store.name q inside]
    exact (metered.declared q inside).of_same (same _) (like q) (shift q)
  · rw [queues] at undeclared
    exact (metered.undeclared name undeclared).of_same (same name) ⟨rfl, rfl, rfl⟩ rfl

/-- An event on queue `j` that the counters for its name are about. -/
theorem tick (metered : Metered w) (named : Named w) {j : QueueRef} (inside : j < w.queue.size)
    (stepped : w.step? label = some w') (queues : w'.queues = w.queues) (size : w'.queue.size = w.queue.size)
    (elsewhere : ∀ name ≠ (w.queue j).name, w.metrics.Same w'.metrics name)
    (others : ∀ q ≠ j, w'.queue q = w.queue q)
    (waits : ∀ q ≠ j, w'.waiting Section.attaches q = w.waiting Section.attaches q ∧
      w'.waiting Section.registers q = w.waiting Section.registers q)
    (here : w'.metrics.Matches (w.queue j).name (w'.queue j) (w'.waiting Section.attaches j)
      (w'.waiting Section.registers j)) : Metered w' := by
  have grows := World.grows_of_step stepped
  refine ⟨fun q declared => ?_, fun name undeclared => ?_⟩
  · rw [size] at declared
    rw [grows.store.name q declared]
    by_cases same : q = j
    · subst same
      exact here
    · have name : (w.queue q).name ≠ (w.queue j).name := by
        intro equal
        have found := named q declared
        rw [equal, named j inside] at found
        exact same (Option.some.inj found).symm
      obtain ⟨attaching, registering⟩ := waits q same
      rw [attaching, registering, others q same]
      exact (metered.declared q declared).of_same (elsewhere _ name) ⟨rfl, rfl, rfl⟩ rfl
  · rw [queues] at undeclared
    have other : name ≠ (w.queue j).name := by
      rintro rfl
      exact undeclared (AList.lookup_isSome.1 (by rw [named j inside]; rfl))
    exact (metered.undeclared name undeclared).of_same (elsewhere name other) ⟨rfl, rfl, rfl⟩ rfl

/-- A section that changes queue `j` and nothing that waits for a queue. -/
theorem event (metered : Metered w) (named : Named w) {j : QueueRef} (inside : j < w.queue.size)
    (f : Queue → Queue) (stepped : w.step? label = some w') (queues : w'.queues = w.queues)
    (changed : w'.queue = w.queue.modify j f) (elsewhere : ∀ name ≠ (w.queue j).name, w.metrics.Same w'.metrics name)
    (waits : ∀ q, w'.waiting Section.attaches q = w.waiting Section.attaches q ∧
      w'.waiting Section.registers q = w.waiting Section.registers q)
    (here : w'.metrics.Matches (w.queue j).name (f (w.queue j)) (w.waiting Section.attaches j)
      (w.waiting Section.registers j)) : Metered w' := by
  refine metered.tick named inside stepped queues (by rw [changed]; rfl) elsewhere (fun q other => ?_)
    (fun q _ => waits q) ?_
  · rw [changed, w.queue.cell_modify_of_ne f other]
  · rwa [(waits j).1, (waits j).2, changed, w.queue.cell_modify_self f inside]

end Metered

private theorem bump_of_ne {κ : Type*} [DecidableEq κ] {counter : κ → ℕ} {label name : κ} (other : name ≠ label) :
    bump counter label name = counter name :=
  Function.update_of_ne other ..

@[simp] theorem bump_self {κ : Type*} [DecidableEq κ] (counter : κ → ℕ) (label : κ) :
    bump counter label label = counter label + 1 :=
  Function.update_self ..

private theorem Enrolled.new (enrolled : Enrolled w k (.register c :: rest)) : ¬ w.registered c := by
  cases enrolled.enrolling with
  | none quiet => exact absurd (quiet _ (List.mem_cons_self ..)) (by simp [Section.joins])
  | register new => exact new

/-- `HandleNack` counts under the name of its queue. -/
private theorem World.settleNack_same (w : World) (msg : Message) (tag : UInt16) (requeue : Bool) {name : String}
    (other : name ≠ w.queueName c) : w.metrics.Same (w.settleNack c msg tag requeue).metrics name := by
  refine ⟨rfl, rfl, Function.update_of_ne other .., ?_, ?_, rfl, rfl⟩
  · simp only [World.settleNack, World.count, World.apply]
    split_ifs
    · rfl
    · exact bump_of_ne other
  · simp only [World.settleNack, World.count, World.apply]
    split_ifs
    · rfl
    · exact bump_of_ne other

/-- A removed message is either a dead letter or dropped. -/
theorem Metrics.Matches.nack {queue : Queue} {attaching registering : ℕ} (msg : Message) (tag : UInt16)
    (requeue : Bool) (matched : w.metrics.Matches (w.queueName c) queue attaching registering) :
    (w.settleNack c msg tag requeue).metrics.Matches (w.queueName c) (queue.settle (if requeue then [] else [msg]))
      attaching registering := by
  obtain ⟨enqueued, settled, removed, enrolled⟩ := matched
  have counted : (w.settleNack c msg tag requeue).metrics.nacked (w.queueName c) =
    bump (w.metrics.nacked (w.queueName c)) requeue := Function.update_self ..
  refine ⟨enqueued, ?_, ?_, enrolled⟩
  · rw [counted]
    change w.metrics.acked (w.queueName c) + _ = _
    cases requeue with
    | true => simpa [Queue.settle, bump] using settled
    | false =>
      simp only [Queue.settle, bump_self, Bool.false_eq_true, if_false, List.length_append, List.length_singleton]
      omega
  · rw [counted]
    simp only [World.settleNack, World.count, World.apply]
    cases requeue with
    | true => simpa [bump] using removed
    | false =>
      by_cases plain : (w.queue (w.consumer c).queue).dlx = ""
      · simp only [plain, bump_self, or_true, if_true, if_false, ne_eq, not_true_eq_false, Bool.false_eq_true, or_false]
        omega
      · simp only [plain, bump_self, or_true, if_true, if_false, ne_eq, not_false_eq_true, Bool.false_eq_true, or_false]
        omega

/-- Only `HandleConsume` leads to the registration of a consumer. -/
private theorem aside_of_runs {first : Section} {next : List Section} (runs : Runs w k choice first w' next)
    (other : ∀ ch header queue tag, first ≠ .consume ch header queue tag) :
    ∀ s ∈ next, s.attaches = none ∧ s.registers = none := by
  intro s member
  cases leads_of_runs runs member with
  | consumeRefused | consumeRegister | consumeAttach => exact (other _ _ _ _ rfl).elim
  | _ => exact ⟨rfl, rfl⟩

/-- One section of a goroutine. -/
private theorem metered_of_run (metered : Metered w) (wellformed : Wellformed w) (named : Named w)
    (enrolled : Enrolled w k (w.errands k)) (stepped : w.step? (.run k choice) = some w') : Metered w' := by
  have refs := wellformed.toRefs
  have ran := World.steps_of_step stepped
  cases ran with
  | @run _ _ first rest next middle inside pending runs rests =>
    have known : first.Known w.toStore := refs.pending k first (pending ▸ List.mem_cons_self ..)
    have leads := aside_of_runs runs
    -- What happens to a section that registers nobody and leads to no such section.
    have idle (aside : first.attaches = none ∧ first.registers = none)
        (quiet : ∀ s ∈ next, s.attaches = none ∧ s.registers = none) (q : QueueRef) :
        (middle.setTodo k (next ++ rest)).waiting Section.attaches q = w.waiting Section.attaches q ∧
          (middle.setTodo k (next ++ rest)).waiting Section.registers q = w.waiting Section.registers q :=
      ⟨World.waiting_of_aside Section.mentions_attaches refs pending rests stepped aside.1
          (fun s member => (quiet s member).1) q,
        World.waiting_of_aside Section.mentions_registers refs pending rests stepped aside.2
          (fun s member => (quiet s member).2) q⟩
    have plain (aside : first.attaches = none ∧ first.registers = none)
        (quiet : ∀ s ∈ next, s.attaches = none ∧ s.registers = none)
        (same : ∀ name, w.metrics.Same middle.metrics name) (like : ∀ q, (w.queue q).Like (middle.queue q))
        (queues : middle.queues = w.queues) (size : middle.queue.size = w.queue.size) :
        Metered (middle.setTodo k (next ++ rest)) := by
      refine metered.silent stepped same like queues size fun q => ?_
      rw [(idle aside quiet q).1, (idle aside quiet q).2]
    cases runs with
    | @enqueue j msg free =>
      have known : j < w.queue.size := known.queues j (by simp)
      obtain ⟨enqueued, settled, removed, enrolled⟩ := metered.declared j known
      refine metered.event named known (·.enqueue ⟨k, w.currentCall k, msg⟩) stepped rfl rfl (fun name other => ?_)
        (idle ⟨rfl, rfl⟩ (leads (by simp))) ⟨?_, settled, removed, enrolled⟩
      · exact ⟨bump_of_ne other, rfl, rfl, rfl, rfl, rfl, rfl⟩
      · exact (bump_self ..).trans (by simp [Queue.enqueue, enqueued])
    | @ackQueue j tag c free member found =>
      have known : j < w.queue.size := known.queues j (by simp)
      obtain ⟨enqueued, settled, removed, enrolled⟩ := metered.declared j known
      obtain ⟨msg, held, -⟩ := (wellformed.books c).lookup_of_mem found
      refine metered.event named known (·.settle ((w.consumer c).pendingMessages.lookup tag).toList) stepped rfl rfl
        (fun name other => ?_) (idle ⟨rfl, rfl⟩ (leads (by simp)))
        ⟨enqueued, ?_, removed, enrolled⟩
      · exact ⟨rfl, bump_of_ne other, rfl, rfl, rfl, rfl, rfl⟩
      · change bump w.metrics.acked (w.queue j).name (w.queue j).name + w.metrics.nacked (w.queue j).name false = _
        rw [bump_self]
        simp only [Queue.settle, held, Option.toList_some, List.length_append, List.length_singleton]
        omega
    | @nack c remaining tag requeue msg found =>
      have known := refs.queueOf c (known.consumers c (by simp))
      refine metered.event named known (·.settle (if requeue then [] else [msg])) stepped rfl rfl
        (fun name other => w.settleNack_same msg tag requeue other) (idle ⟨rfl, rfl⟩ (leads (by simp)))
        ((metered.declared _ known).nack msg tag requeue)
    | @register c free =>
      have known := refs.queueOf c (known.consumers c (by simp))
      rw [World.errands, pending, List.filter_cons_of_pos rfl] at enrolled
      have new : c ∉ (w.queue (w.consumer c).queue).consumers := fun member => enrolled.new ⟨_, member⟩
      obtain ⟨enqueued, settled, removed, enrolled⟩ := metered.declared _ known
      have attaching := World.waiting_of_aside Section.mentions_attaches refs pending rests stepped rfl
        (by simp [Section.attaches])
      obtain ⟨others, registering⟩ := World.waiting_of_awaited Section.mentions_registers refs pending rests stepped
        (c := c) rfl (by simp [Section.registers])
      refine metered.tick named known stepped rfl rfl (fun name other => ⟨rfl, rfl, rfl, rfl, rfl, rfl, rfl⟩)
        (fun q other => w.queue.cell_modify_of_ne (·.registerConsumer c) other)
        (fun q other => ⟨attaching q, others q other⟩) ?_
      have queue : (w.apply (.registerConsumer c)).queue (w.consumer c).queue = _ :=
        w.queue.cell_modify_self (·.registerConsumer c) known
      have joined : (insert c (w.queue (w.consumer c).queue).consumers).card = _ := Finset.card_insert_of_notMem new
      rw [attaching]
      change w.metrics.Matches _ ((w.apply (.registerConsumer c)).queue (w.consumer c).queue) _ _
      rw [queue]
      refine ⟨enqueued, settled, removed, ?_⟩
      simp only [Queue.registerConsumer, joined]
      omega
    | @attach c header =>
      have known := refs.queueOf c (known.consumers c (by simp))
      obtain ⟨enqueued, settled, removed, enrolled⟩ := metered.declared _ known
      have registering := World.waiting_of_aside Section.mentions_registers refs pending rests stepped rfl
        (by simp [Section.registers])
      obtain ⟨others, attaching⟩ := World.waiting_of_awaited Section.mentions_attaches refs pending rests stepped
        (c := c) rfl (by simp [Section.attaches])
      refine metered.tick named known stepped rfl rfl (fun name other => ?_) (fun q other => rfl)
        (fun q other => ⟨others q other, registering q⟩) ⟨enqueued, settled, removed, ?_⟩
      · exact ⟨rfl, rfl, rfl, rfl, rfl, bump_of_ne other, rfl⟩
      · change bump w.metrics.consumersRegistered (w.queueName c) (w.queueName c) + _ =
          w.metrics.consumersUnregistered (w.queueName c) + (w.queue (w.consumer c).queue).consumers.card + _
        change w.metrics.consumersRegistered (w.queueName c) + _ =
          w.metrics.consumersUnregistered (w.queueName c) + _ + _ at enrolled
        rw [bump_self, registering]
        omega
    | @unregister c free member all =>
      have known := refs.queueOf c (known.consumers c (by simp))
      obtain ⟨enqueued, settled, removed, enrolled⟩ := metered.declared _ known
      refine metered.event named known (·.unregisterConsumer c choice.messages) stepped rfl rfl (fun name other => ?_)
        (idle ⟨rfl, rfl⟩ (leads (by simp))) ⟨enqueued, settled, removed, ?_⟩
      · exact ⟨rfl, rfl, rfl, rfl, rfl, rfl, bump_of_ne other⟩
      · have left := Finset.card_erase_add_one member
        change w.metrics.consumersRegistered _ + _ =
          bump w.metrics.consumersUnregistered (w.queueName c) (w.queueName c) +
            ((w.queue (w.consumer c).queue).consumers.erase c).card + _
        rw [bump_self]
        change _ = w.metrics.consumersUnregistered (w.queueName c) + _ + _ at enrolled
        omega
    | @consume ch header queue tag q declared fresh =>
      refine metered.silent stepped (fun _ => ⟨rfl, rfl, rfl, rfl, rfl, rfl, rfl⟩) (fun _ => ⟨rfl, rfl, rfl⟩) rfl rfl
        fun j => ?_
      have attaching := World.waiting_of_run Section.mentions_attaches refs pending rests stepped j
      have registering := World.waiting_of_run Section.mentions_registers refs pending rests stepped j
      let new := ((w.apply (.newConsumer (w.consumerTag ch tag) q ch)).consumer w.consumer.size).queue
      change _ + 0 = _ + List.count j [new] at attaching registering
      omega
    | @declareQueue name dlx dlxRoutingKey fresh =>
      have idle := idle ⟨rfl, rfl⟩ (by simp)
      refine ⟨fun q known => ?_, fun other undeclared => ?_⟩
      · rw [(idle q).1, (idle q).2]
        rcases Nat.lt_succ_iff_lt_or_eq.1 known with old | rfl
        · have queue : (w.queue.alloc { name, dlx, dlxRoutingKey }) q = w.queue q :=
            w.queue.cell_alloc_of_ne _ (Nat.ne_of_lt old)
          change w.metrics.Matches ((w.queue.alloc { name, dlx, dlxRoutingKey }) q).name
            ((w.queue.alloc { name, dlx, dlxRoutingKey }) q) _ _
          rw [queue]
          exact metered.declared q old
        · have queue : (w.queue.alloc { name, dlx, dlxRoutingKey }) w.queue.size = _ := w.queue.cell_alloc_self _
          change w.metrics.Matches ((w.queue.alloc { name, dlx, dlxRoutingKey }) w.queue.size).name
            ((w.queue.alloc { name, dlx, dlxRoutingKey }) w.queue.size) _ _
          rw [queue, World.waiting_of_beyond Section.mentions_attaches refs (Nat.le_refl _),
            World.waiting_of_beyond Section.mentions_registers refs (Nat.le_refl _)]
          obtain ⟨enqueued, settled, removed, enrolled⟩ := metered.undeclared name fresh
          exact ⟨enqueued, settled, removed, enrolled⟩
      · exact metered.undeclared other fun before => undeclared (AList.mem_insert _ |>.2 (.inr before))
    | consumeRefused =>
      exact plain ⟨rfl, rfl⟩ (by simp [Section.attaches, Section.registers])
        (fun _ => ⟨rfl, rfl, rfl, rfl, rfl, rfl, rfl⟩) (fun _ => ⟨rfl, rfl, rfl⟩) rfl rfl
    | takeTag | signal | requeue =>
      exact plain ⟨rfl, rfl⟩ (leads (by simp))
        (fun _ => ⟨rfl, rfl, rfl, rfl, rfl, rfl, rfl⟩) (fun q => w.like_apply rfl q) rfl rfl
    | _ =>
      exact plain ⟨rfl, rfl⟩ (leads (by simp))
        (fun _ => ⟨rfl, rfl, rfl, rfl, rfl, rfl, rfl⟩) (fun _ => ⟨rfl, rfl, rfl⟩) rfl rfl
  | dispatch ofDispatcher => contradiction

/-- A dispatcher counts deliveries and failed writes only. -/
private theorem World.same_of_dispatches (dispatches : label.ofDispatcher = true) (stepped : w.step? label = some w')
    (name : String) : w.metrics.Same w'.metrics name := by
  cases label with
  | accept | request | disconnect | run => contradiction
  | _ =>
    simp only [step?] at stepped
    repeat' split at stepped
    all_goals first | contradiction | (cases stepped; exact ⟨rfl, rfl, rfl, rfl, rfl, rfl, rfl⟩)

/-- What no goroutine of a connection does, the counters for queues are not about. -/
private theorem metered_of_other (metered : Metered w) (refs : Refs w) (other : ∀ k choice, label ≠ .run k choice)
    (stepped : w.step? label = some w') : Metered w' := by
  have attaching := World.waiting_of_other Section.mentions_attaches refs
    (fun k env s member => (w.plain_handle k env s member).1) rfl other stepped
  have registering := World.waiting_of_other Section.mentions_registers refs
    (fun k env s member => (w.plain_handle k env s member).2) rfl other stepped
  have shift (q : QueueRef) : w'.waiting Section.attaches q + w.waiting Section.registers q =
      w.waiting Section.attaches q + w'.waiting Section.registers q := by
    rw [attaching q, registering q]
  obtain ⟨effect, store, happens⟩ := World.happens_of_step stepped
  have uncounted : effect.counted = false := by
    cases happens with
    | newQueue | enqueue | ack | nack | registerConsumer | unregisterConsumer => exact absurd rfl (other _ _)
    | _ => rfl
  have like (q : QueueRef) : (w.queue q).Like (w'.queue q) := by
    rw [store]
    exact w.like_apply uncounted q
  have size : w'.queue.size = w.queue.size := by
    rw [store]
    refine Store.size_apply fun name dlx key same => ?_
    rw [same] at uncounted
    contradiction
  cases World.steps_of_step stepped with
  | accept => exact metered.silent stepped (fun _ => ⟨rfl, rfl, rfl, rfl, rfl, rfl, rfl⟩) like rfl size shift
  | @request k env =>
    have kept : (w.handle k env).1.metrics = w.metrics ∧ (w.handle k env).1.queues = w.queues :=
      w.handle_cases k env (P := fun w' _ => w'.metrics = w.metrics ∧ w'.queues = w.queues)
        (fun _ _ => ⟨rfl, rfl⟩) (fun _ => ⟨rfl, rfl⟩) (fun _ => ⟨rfl, rfl⟩) (fun _ _ => ⟨rfl, rfl⟩)
    refine metered.silent stepped (fun name => ?_) like kept.2 size shift
    change w.metrics.Same (w.handle k env).1.metrics name
    rw [kept.1]
    exact ⟨rfl, rfl, rfl, rfl, rfl, rfl, rfl⟩
  | disconnect => exact metered.silent stepped (fun _ => ⟨rfl, rfl, rfl, rfl, rfl, rfl, rfl⟩) like rfl size shift
  | @run k choice => exact absurd rfl (other k choice)
  | dispatch dispatches aligned =>
    exact metered.silent stepped (World.same_of_dispatches dispatches stepped) like aligned.queues size shift

theorem metered_of_reachable {ok : World → Label → Prop} (reached : broker.Reachable ok w) : Metered w := by
  refine reached.invariant (P := Metered) ⟨fun q inside => absurd inside (Nat.not_lt_zero q), fun _ _ => ?_⟩ ?_
  · exact ⟨rfl, rfl, rfl, rfl⟩
  intro source target label before metered _ stepped
  have stepped : source.step? label = some target := stepped
  have wellformed := wellformed_of_reachable before
  by_cases runs : ∃ k choice, label = .run k choice
  · obtain ⟨k, choice, rfl⟩ := runs
    exact metered_of_run metered wellformed (named_of_reachable before) (enrolled_of_reachable before k) stepped
  · exact metered_of_other metered wellformed.toRefs (fun k choice same => runs ⟨k, choice, same⟩) stepped

/-- With nothing on its way, what was enqueued is queued, held by a consumer or settled. -/
private theorem enqueued_eq (reached : broker.Reachable IntactRollback w)
    (bounded : ∀ q, (w.queue q).log.tagged ≤ 65535)
    (idle : ∀ k, w.todo k = []) (q : QueueRef) :
    ((w.queue q).log.enqueued.length : ℤ) =
      (w.queue q).messages.length + ∑ c ∈ (w.queue q).consumers, (w.consumer c).inflight +
        (w.queue q).log.settled.length := by
  have conserved := congrArg Multiset.card (conserved_of_reachable reached q (distinct_of_bound (bounded q)))
  have transit : w.transit q = 0 := tally_idle _ fun k _ => idle k
  have limbo : w.limbo q = 0 := tally_idle _ fun k _ => idle k
  have wellformed := wellformed_of_reachable reached
  have held (c : ConsumerRef) (member : c ∈ (w.queue q).consumers) :
      (((w.consumer c).held q).card : ℤ) = (w.consumer c).inflight := by
    rw [Consumer.held, if_pos (wellformed.members q c member).2, Multiset.coe_card, AList.length_values]
    exact ((bookkept_of_intact reached bounded).balanced c).counted.symm
  rw [← Finset.sum_congr rfl held, ← Nat.cast_sum]
  simp only [World.ledger, Queue.ledger, Ledger.custody, Ledger.live, Multiset.card_add, Multiset.coe_card, transit,
    limbo, Multiset.card_sum, List.length_map, add_zero] at conserved
  omega

/-- Counters and gauges balance between requests, when a failed write is one step with its dispatch. -/
theorem counters_balance (reached : atomicDispatch.Reachable anyStep w) (idle : ∀ k, w.todo k = [])
    (bounded : ∀ q, (w.queue q).log.enqueued.length ≤ 65535) {name : String}
    (declared : w.queues.lookup name = some q) :
    (w.metrics.enqueued name : ℤ) = (w.queue q).messages.length +
        ∑ c ∈ (w.queue q).consumers, (w.consumer c).inflight + w.metrics.acked name + w.metrics.nacked name false ∧
      w.metrics.nacked name false = w.metrics.deadLettered name + w.metrics.dropped name ∧
      (w.metrics.consumersRegistered name : ℤ) - w.metrics.consumersUnregistered name = (w.queue q).consumers.card := by
  have intact := intact_of_atomicDispatch reached
  have tagged (q : QueueRef) : (w.queue q).log.tagged ≤ 65535 := by
    have transit : w.transit q = 0 := tally_idle _ fun k _ => idle k
    rw [tagged_eq intact, transit]
    exact bounded q
  have waiting (who : Section → Option ConsumerRef) (q : QueueRef) : w.waiting who q = 0 := by
    rw [World.waiting, tally_idle _ fun k _ => idle k]
    rfl
  obtain ⟨history, recorded⟩ := exists_history intact.any
  obtain rfl := (routed_of_reachable recorded).queueNames name q declared
  have known := (wellformed_of_reachable intact).queues _ q declared
  obtain ⟨enqueued, settled, removed, enrolled⟩ := (metered_of_reachable intact).declared q known
  have balance := enqueued_eq intact tagged idle q
  rw [waiting, waiting] at enrolled
  refine ⟨?_, removed, ?_⟩
  · omega
  · omega

/-- The first message has been acknowledged, the second one refused, and the write of the third has failed. -/
def settledTwice : List AtomicLabel :=
  (topology ++ consuming ++ publishing [7] ++ publishing [8] ++ publishing [9] ++
    dispatching 0 0 ++ [Label.written 0] ++
    served 0 ⟨1, 0, false, .ack 1⟩ [{ refs := [0] }, {}, {}, { refs := [0] }, {}] ++
    dispatching 0 0 ++ [Label.written 0] ++ served 0 ⟨1, 0, false, .nack 2 (some false)⟩ [{ refs := [0] }, {}, {}] ++
    [Label.lock 0, .probe 0 0]).map .step ++ [.failedDispatch 0]

theorem counters_balance_after_failure :
    let w := atomicDispatch.replay anyStep settledTwice
    w.metrics.enqueued "q" = 3 ∧ (w.queue 0).messages = [⟨3, [9], "ex", "key"⟩] ∧ w.metrics.dropped "q" = 1 ∧
      (w.metrics.enqueued "q" : ℤ) = (w.queue 0).messages.length +
        ∑ c ∈ (w.queue 0).consumers, (w.consumer c).inflight + w.metrics.acked "q" + w.metrics.nacked "q" false := by
  intro w
  have idle : ∀ k, w.todo k = [] := w.connection.forall_cell (P := (·.todo = [])) rfl (by decide +kernel)
  have bounded : ∀ q, (w.queue q).log.enqueued.length ≤ 65535 :=
    w.queue.forall_cell (P := (·.log.enqueued.length ≤ 65535)) (Nat.zero_le _) (by decide +kernel)
  have declared : w.queues.lookup "q" = some 0 := by decide +kernel
  have balance := counters_balance (.of_replay settledTwice) idle bounded declared
  exact ⟨by decide +kernel, by decide +kernel, by decide +kernel, balance.1⟩

end GolangMQ.Model
