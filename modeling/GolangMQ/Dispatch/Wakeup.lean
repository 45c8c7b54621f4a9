import GolangMQ.Model.Wellformed

/-! # When the dispatcher sleeps on available work

Every handler that makes work available signals after its change, so a sleeping dispatcher either has
nothing to do or is owed a signal. The argument has one gap: `HandleNack` changes `inflight` under the
lock of the consumer only, so its signal can come after `selectConsumer` has passed that consumer over
and before `cond.Wait` has registered the dispatcher. `TimelySignals` excludes exactly such a signal.
-/

namespace GolangMQ.Model

open Machine

/-- The consumer has as many messages in flight as it may have. -/
def Consumer.Full (c : Consumer) : Prop := c.prefetch ≤ c.inflight

instance (c : Consumer) : Decidable c.Full := inferInstanceAs (Decidable (_ ≤ _))

theorem Consumer.full_iff (c : Consumer) : c.Full ↔ c.free = false := by
  simp [Full, free]

/-- The consumers a dispatcher that holds the lock has found to be full. -/
def Dispatcher.passedOver (consumers : Finset ConsumerRef) : Dispatcher → Finset ConsumerRef
  | .scanning passed => passed.toFinset
  | .waiting .noConsumer => consumers
  | _ => ∅

private theorem Queue.passedOver_signal (queue : Queue) :
    queue.signal.dispatcher.passedOver queue.signal.consumers = queue.dispatcher.passedOver queue.consumers := by
  unfold signal
  dsimp only
  split
  · next parked => rw [parked]; rfl
  · rfl

/-- After a signal nobody sleeps who has not been woken. -/
private theorem Queue.signal_woken (queue : Queue) (site : WaitSite) :
    queue.signal.dispatcher ≠ .parked site false := by
  unfold signal
  dsimp only
  split
  · simp
  · next other => exact other site

namespace World

def passedOver (w : World) (q : QueueRef) : Finset ConsumerRef :=
  (w.queue q).dispatcher.passedOver (w.queue q).consumers

/-- A handler stands between its change to `q` and the signal that follows it. -/
def Owed (w : World) (q : QueueRef) : Prop := ∃ k, .signal q ∈ w.todo k

end World

/-- The queue a section signals. -/
def Section.signals : Section → Option QueueRef
  | .signal q => some q
  | _ => none

/-- No signal is given while the dispatcher holds the lock and has passed over a consumer as full that
has room by now. -/
def TimelySignals (w : World) : Label → Prop
  | .run k _ => ∀ q ∈ (w.todo k).head?.bind Section.signals, ∀ c ∈ w.passedOver q, (w.consumer c).Full
  | _ => True

instance (w : World) : ∀ label, Decidable (TimelySignals w label)
  | .run _ _ => inferInstanceAs (Decidable (∀ q ∈ _, ∀ c ∈ w.passedOver q, (w.consumer c).Full))
  | .accept | .request .. | .disconnect _ | .lock _ | .probe .. | .exhausted _ | .record _ | .wait _
  | .resume _ | .written _ | .failed _ | .rollback _ => .isTrue trivial

section Owed

variable {w w' : World} {k : ConnectionRef} {first : Section} {next : List Section} {q : QueueRef}

private theorem World.Advances.owed_of_next (advances : w.Advances w' k first next) (signals : .signal q ∈ next) :
    w'.Owed q := by
  obtain ⟨rest, -, todo⟩ := advances.todo
  refine ⟨k, ?_⟩
  rw [todo, Function.update_self]
  exact List.mem_append_left rest signals

/-- Only the section that gives it takes a signal off the list. -/
theorem World.Advances.owed_of_owed (advances : w.Advances w' k first next) (other : first ≠ .signal q)
    (owed : w.Owed q) : w'.Owed q := by
  obtain ⟨rest, pending, todo⟩ := advances.todo
  obtain ⟨j, waiting⟩ := owed
  refine ⟨j, ?_⟩
  by_cases same : j = k
  · subst same
    rw [pending] at waiting
    rw [todo, Function.update_self]
    exact List.mem_append_right next (List.mem_of_ne_of_mem (Ne.symm other) waiting)
  · rwa [advances.todo_other same]

private theorem owed_of_start {sections : List Section} (idle : w.todo k = [])
    (todo : w'.todo = Function.update w.todo k sections) (owed : w.Owed q) : w'.Owed q := by
  obtain ⟨j, waiting⟩ := owed
  refine ⟨j, ?_⟩
  have other : j ≠ k := by
    rintro rfl
    rw [idle] at waiting
    exact List.not_mem_nil waiting
  rwa [todo, Function.update_of_ne other]

/-- A signal stays owed until it is given. -/
private theorem owed_step {label : Label} {effect : Effect} (happens : Happens w label w' effect) (owed : w.Owed q) :
    w'.Owed q ∨ effect = .signal q := by
  cases happens with
  | accepted size todo => exact .inl (by unfold World.Owed; rwa [todo])
  | requested size inside idle todo | disconnected size inside idle todo =>
    exact .inl (owed_of_start idle todo owed)
  | @quiet _ k choice first next advances silent quiet =>
    refine .inl (advances.owed_of_owed ?_ owed)
    rintro rfl
    contradiction
  | @signal _ k choice j advances =>
    by_cases mine : j = q
    · exact .inr (mine ▸ rfl)
    · exact .inl (advances.owed_of_owed (fun same => mine (Section.signal.inj same)) owed)
  | newQueue advances | newConsumer _ advances | takeTag _ advances | enqueue _ advances
  | registerConsumer _ advances | unregisterConsumer _ _ _ advances | ack _ _ _ advances
  | nack _ advances | requeue _ advances => exact .inl (advances.owed_of_owed (by simp) owed)
  | lock _ rests | probe _ _ rests | exhausted _ _ rests | wait _ rests | resume _ rests | record _ _ rests
  | written _ rests | failed _ rests | rollback _ rests =>
    exact .inl (by unfold World.Owed; rwa [rests.todo])

end Owed

section Returning

def Section.isRequeue : Section → Bool
  | .requeue .. => true
  | _ => false

/-- A goroutine that is about to put a message back does so next, and signals afterwards. -/
structure Returning (todo : List Section) : Prop where
  last : ∀ s ∈ todo.tail, s.isRequeue = false
  owes : ∀ q msg, todo.head? = some (.requeue q msg) → .signal q ∈ todo.tail

variable {first : Section} {next rest : List Section}

private theorem Returning.of_quiet {sections : List Section} (quiet : ∀ s ∈ sections, s.carries = false) :
    Returning sections where
  last s member := by
    have silent := quiet s (List.mem_of_mem_tail member)
    cases s <;> trivial
  owes q msg head := absurd (quiet _ (List.mem_of_mem_head? head)) (by simp [Section.carries])

private theorem Returning.advance (before : Returning (first :: rest)) (new : ∀ s ∈ next, s.isRequeue = false) :
    Returning (next ++ rest) := by
  have none_ : ∀ s ∈ next ++ rest, s.isRequeue = false := by
    intro s member
    rcases List.mem_append.mp member with new_ | old
    · exact new s new_
    · exact before.last s old
  exact ⟨fun s member => none_ s (List.mem_of_mem_tail member),
    fun q msg head => absurd (none_ _ (List.mem_of_mem_head? head)) (by simp [Section.isRequeue])⟩

private theorem Returning.advance_nack (before : Returning (first :: rest)) (w : World) (c : ConsumerRef)
    (msg : Message)
    (requeue : Bool) : Returning (w.afterNack c msg requeue ++ rest) := by
  cases requeue with
  | true =>
    refine ⟨fun s member => ?_, fun q msg' head => ?_⟩
    · rcases List.mem_cons.mp member with rfl | old
      · rfl
      · exact before.last s old
    · obtain ⟨rfl, -⟩ := Section.requeue.inj (Option.some.inj head)
      exact List.mem_cons_self ..
  | false =>
    apply before.advance
    by_cases dropped : (w.queue (w.consumer c).queue).dlx = "" <;>
      simp [World.afterNack, dropped, Section.isRequeue]

private theorem returning_step {w w' : World} {label : Label} {effect : Effect} (happens : Happens w label w' effect)
    (returning : ∀ k, Returning (w.todo k)) (j : ConnectionRef) : Returning (w'.todo j) := by
  have advanced {k : ConnectionRef} {first : Section} {next : List Section} (advances : w.Advances w' k first next)
      (new : ∀ rest, Returning (first :: rest) → Returning (next ++ rest)) : Returning (w'.todo j) := by
    obtain ⟨rest, pending, todo⟩ := advances.todo
    by_cases same : j = k
    · subst same
      rw [todo, Function.update_self]
      exact new rest (pending ▸ returning j)
    · exact advances.todo_other same ▸ returning j
  have started {k : ConnectionRef} {sections : List Section} (todo : w'.todo = Function.update w.todo k sections)
      (quiet : ∀ s ∈ sections, s.carries = false) : Returning (w'.todo j) := by
    by_cases same : j = k
    · subst same
      rw [todo, Function.update_self]
      exact .of_quiet quiet
    · rw [todo, Function.update_of_ne same]
      exact returning j
  cases happens with
  | accepted size todo => exact todo ▸ returning j
  | requested size inside idle todo => exact started todo (w.handle_spec _ _).2.2
  | disconnected size inside idle todo => exact started todo (by simp [Section.carries])
  | quiet advances silent quiet =>
    refine advanced advances fun rest before => before.advance fun s member => ?_
    have silent := quiet s member
    cases s <;> trivial
  | nack found advances => exact advanced advances fun rest before => before.advance_nack ..
  | newQueue advances | newConsumer _ advances | takeTag _ advances | enqueue _ advances | signal advances
  | registerConsumer _ advances | unregisterConsumer _ _ _ advances | ack _ _ _ advances | requeue _ advances =>
    exact advanced advances fun rest before => before.advance (by simp [Section.isRequeue])
  | lock _ rests | probe _ _ rests | exhausted _ _ rests | wait _ rests | resume _ rests | record _ _ rests
  | written _ rests | failed _ rests | rollback _ rests => exact rests.todo ▸ returning j

end Returning

/-- A dispatcher that has passed consumers over, or that sleeps, has nothing to do or is owed a signal. -/
structure Awake (w : World) (q : QueueRef) : Prop where
  passed : (∀ c ∈ w.passedOver q, (w.consumer c).Full) ∨ w.Owed q
  asleep : ∀ site, (w.queue q).dispatcher = .parked site false →
    (w.queue q).messages = [] ∨ (∀ c ∈ (w.queue q).consumers, (w.consumer c).Full) ∨ w.Owed q

section Awake

variable {w w' : World} {label : Label} {effect : Effect} {q : QueueRef}

private theorem passedOver_subset (wellformed : Wellformed w) (q : QueueRef) :
    w.passedOver q ⊆ (w.queue q).consumers := by
  have phase := wellformed.phases q
  unfold World.passedOver
  cases stands : (w.queue q).dispatcher with
  | scanning passed =>
    rw [stands] at phase
    exact fun c member => phase.2 c (List.mem_toFinset.mp member)
  | waiting site => cases site <;> simp [Dispatcher.passedOver]
  | _ => exact Finset.empty_subset _

/-- What is owed a signal is awake. -/
theorem Awake.of_owed (owed : w.Owed q) : Awake w q := ⟨.inr owed, fun _ _ => .inr (.inr owed)⟩

/-- A dispatcher that has passed nobody over and does not sleep is awake. -/
theorem Awake.of_busy (clear : w.passedOver q = ∅) (busy : ∀ site, (w.queue q).dispatcher ≠ .parked site false) :
    Awake w q :=
  ⟨.inl (by simp [clear]), fun site asleep => absurd asleep (busy site)⟩

/-- A step that leaves the queue and the fullness of its consumers alone, and gives no signal on it. -/
theorem Awake.of_same (awake : Awake w q) (wellformed : Wellformed w)
    (dispatcher : (w'.queue q).dispatcher = (w.queue q).dispatcher)
    (messages : (w'.queue q).messages = (w.queue q).messages)
    (consumers : (w'.queue q).consumers = (w.queue q).consumers)
    (full : ∀ c ∈ (w.queue q).consumers, (w.consumer c).Full → (w'.consumer c).Full)
    (owed : w.Owed q → w'.Owed q) : Awake w' q where
  passed := by
    have same : w'.passedOver q = w.passedOver q := by unfold World.passedOver; rw [dispatcher, consumers]
    rw [same]
    exact awake.passed.imp (fun all c member => full c (passedOver_subset wellformed q member) (all c member)) owed
  asleep site sleeps := by
    rw [messages, consumers]
    rw [dispatcher] at sleeps
    exact (awake.asleep site sleeps).imp_right (Or.imp (fun all c member => full c member (all c member)) owed)

/-- A move of the dispatcher changes nothing of its queue but where it stands. -/
theorem queue_dispatcher {phase : Dispatcher} (store : w'.toStore = w.toStore.apply (.dispatcher q phase))
    (inside : q < w.queue.size) : w'.queue q = { w.queue q with dispatcher := phase } := by
  rw [store]
  exact w.queue.cell_modify_self ({ · with dispatcher := phase }) inside

/-- The moves of the dispatcher under the lock: it passes over full consumers only. -/
private theorem awake_of_dispatcher {phase : Dispatcher} (wellformed : Wellformed w) (awake : Awake w q)
    (store : w'.toStore = w.toStore.apply (.dispatcher q phase))
    (happens : Happens w label w' (.dispatcher q phase)) : Awake w' q := by
  have consumer : w'.consumer = w.consumer := by rw [store]; rfl
  have owed : w.Owed q → w'.Owed q := fun owed => (owed_step happens owed).resolve_right (by simp)
  have before := awake.passed
  unfold World.passedOver at before
  cases happens with
  | lock stands rests =>
    by_cases inside : q < w.queue.size
    · have queue := queue_dispatcher store inside
      split at queue <;> refine .of_busy ?_ ?_ <;> simp [World.passedOver, queue, Dispatcher.passedOver]
    · have undeclared : w'.queue q = default := by
        rw [store]
        exact Heap.beyond _ q (Nat.le_of_not_lt inside)
      refine .of_busy ?_ ?_ <;> simp [World.passedOver, undeclared, default, Dispatcher.passedOver]
  | @probe _ _ c passed stands member rests =>
    have queue := queue_dispatcher store (World.inside_of_phase stands (by simp))
    split at queue
    · refine .of_busy ?_ ?_ <;> simp [World.passedOver, queue, Dispatcher.passedOver]
    · next occupied =>
      have full : (w.consumer c).Full := (w.consumer c).full_iff.mpr (Bool.eq_false_of_not_eq_true occupied)
      rw [stands] at before
      refine ⟨before.imp (fun all c' found => ?_) owed, by simp [queue]⟩
      rw [consumer]
      simp only [World.passedOver, queue, Dispatcher.passedOver, List.toFinset_cons, Finset.mem_insert] at found
      rcases found with rfl | found
      · exact full
      · exact all c' found
  | exhausted stands all rests =>
    have queue := queue_dispatcher store (World.inside_of_phase stands (by simp))
    rw [stands] at before
    refine ⟨before.imp (fun full c found => ?_) owed, by simp [queue]⟩
    rw [consumer]
    simp only [World.passedOver, queue, Dispatcher.passedOver] at found
    exact full c (all ▸ found)
  | @wait _ _ site stands rests =>
    have queue := queue_dispatcher store (World.inside_of_phase stands (by simp))
    refine ⟨.inl (by simp [World.passedOver, queue, Dispatcher.passedOver]), fun _ _ => ?_⟩
    rw [queue, consumer]
    cases site with
    | noMessage => exact .inl (wellformed.phase stands)
    | noConsumer =>
      rw [stands] at before
      exact .inr (before.imp_right owed)
  | resume stands rests | failed stands rests =>
    have queue := queue_dispatcher store (World.inside_of_phase stands (by simp))
    refine .of_busy ?_ ?_ <;> simp [World.passedOver, queue, Dispatcher.passedOver]

/-- Every timely step leaves each dispatcher awake, or with nothing to do. -/
private theorem awake_step (wellformed : Wellformed w) (awake : ∀ q, Awake w q) (returning : ∀ k, Returning (w.todo k))
    (timely : TimelySignals w label) (store : w'.toStore = w.toStore.apply effect)
    (happens : Happens w label w' effect) (q : QueueRef) : Awake w' q := by
  have owed (other : effect ≠ .signal q) (owed : w.Owed q) : w'.Owed q := (owed_step happens owed).resolve_right other
  by_cases other : w.toStore.target effect ≠ some q
  · have queue : w'.queue q = w.queue q := by
      rw [store]
      exact Store.queue_of_other other
    refine (awake q).of_same wellformed (by rw [queue]) (by rw [queue]) (by rw [queue]) (fun c member full => ?_)
      (owed (by rintro rfl; exact other rfl))
    rwa [wellformed.consumer_of_other store happens other member]
  rw [not_not] at other
  cases effect with
  | silent | newConsumer => contradiction
  | newQueue =>
    obtain rfl := Option.some.inj other
    refine .of_busy ?_ ?_ <;> simp [store, Store.apply, World.passedOver, Dispatcher.passedOver]
  | takeTag j =>
    obtain rfl := Option.some.inj other
    have same {β : Type} (observe : Queue → β) (kept : ∀ queue, observe (Queue.takeTag queue) = observe queue) :
        observe (w'.queue j) = observe (w.queue j) := by
      rw [store]
      exact w.queue.observe_modify observe j Queue.takeTag (kept _) j
    refine (awake j).of_same wellformed (same _ fun _ => rfl) (same _ fun _ => rfl) (same _ fun _ => rfl) ?_
      (owed (by simp))
    rw [store]
    exact fun c _ full => full
  | enqueue | ack | registerConsumer | unregisterConsumer =>
    obtain rfl := Option.some.inj other
    cases happens
    exact .of_owed (World.Advances.owed_of_next ‹_› (by simp))
  | nack =>
    obtain rfl := Option.some.inj other
    cases happens with
    | nack found advances => exact .of_owed (advances.owed_of_next (by simp [World.afterNack]))
  | requeue j msg =>
    obtain rfl := Option.some.inj other
    cases happens with
    | @requeue _ k choice _ _ free advances =>
      obtain ⟨rest, pending, -⟩ := advances.todo
      have later := (returning k).owes j msg (by rw [pending]; rfl)
      exact .of_owed (owed (by simp) ⟨k, List.mem_of_mem_tail later⟩)
  | signal j =>
    obtain rfl := Option.some.inj other
    cases happens with
    | @signal _ k choice _ advances =>
      have inside : j < w.queue.size := advances.knownQueue wellformed.toRefs (by simp)
      have queue : w'.queue j = (w.queue j).signal := by
        rw [store]
        exact w.queue.cell_modify_self Queue.signal inside
      have passed : w'.passedOver j = w.passedOver j := by
        unfold World.passedOver
        rw [queue]
        exact Queue.passedOver_signal _
      obtain ⟨rest, pending, -⟩ := advances.todo
      have full := timely j (by rw [pending]; rfl)
      refine ⟨.inl ?_, fun site asleep => absurd asleep (queue ▸ Queue.signal_woken _ site)⟩
      rw [passed, store]
      exact full
  | dispatcher j phase =>
    obtain rfl := Option.some.inj other
    exact awake_of_dispatcher wellformed (awake j) store happens
  | record j c msg =>
    obtain rfl := Option.some.inj other
    cases happens with
    | record stands head rests =>
      have queue : w'.queue j = (w.queue j).pop c msg := by
        rw [store]
        exact w.queue.cell_modify_self (·.pop c msg) (World.inside_of_phase stands (by simp))
      refine .of_busy ?_ ?_ <;> simp [World.passedOver, queue, Queue.pop, Dispatcher.passedOver]
  | deliver j c msg =>
    obtain rfl := Option.some.inj other
    cases happens with
    | written stands rests =>
      have queue : w'.queue j = (w.queue j).deliver c (msg.deliver (w.consumer c).tag) := by
        rw [store]
        exact w.queue.cell_modify_self (·.deliver c (msg.deliver (w.consumer c).tag))
          (World.inside_of_phase stands (by simp))
      refine .of_busy ?_ ?_ <;> simp [World.passedOver, queue, Queue.deliver, Dispatcher.passedOver]
  | rollback j c msg =>
    obtain rfl := Option.some.inj other
    cases happens with
    | rollback stands rests =>
      have queue : w'.queue j = (w.queue j).rollback msg := by
        rw [store]
        exact w.queue.cell_modify_self (·.rollback msg) (World.inside_of_phase stands (by simp))
      refine .of_busy ?_ ?_ <;> simp [World.passedOver, queue, Queue.rollback, Dispatcher.passedOver]

theorem awake_of_reachable (reached : broker.Reachable TimelySignals w) :
    (∀ k, Returning (w.todo k)) ∧ ∀ q, Awake w q := by
  refine reached.invariant (P := fun w => (∀ k, Returning (w.todo k)) ∧ ∀ q, Awake w q) ⟨fun k => ?_, fun q => ?_⟩ ?_
  · exact .of_quiet (by simp [World.todo, broker, default])
  · refine .of_busy ?_ ?_ <;> simp [World.passedOver, broker, default, Dispatcher.passedOver]
  · rintro source target label before ⟨returning, awake⟩ timely stepped
    obtain ⟨effect, store, happens⟩ := World.happens_of_step stepped
    exact ⟨returning_step happens returning,
      awake_step (wellformed_of_reachable before) awake returning timely store happens⟩

end Awake

theorem not_owed_of_accepted {w : World} {q : QueueRef} (none : ∀ k < w.connection.size, .signal q ∉ w.todo k) :
    ¬ w.Owed q := by
  rintro ⟨k, waiting⟩
  by_cases inside : k < w.connection.size
  · exact none k inside waiting
  · rw [World.todo, w.connection.beyond k (Nat.le_of_not_lt inside)] at waiting
    exact List.not_mem_nil waiting

/-- Nobody is owed anything by a world whose connections have nothing to do. -/
private theorem not_owed_of_idle {w : World} (idle : ∀ k < w.connection.size, w.todo k = []) (q : QueueRef) :
    ¬ w.Owed q :=
  not_owed_of_accepted fun k inside waiting => List.not_mem_nil (idle k inside ▸ waiting)

/-- Eleven messages for a consumer that may have ten in flight. -/
def saturated : List Label :=
  topology ++ consuming ++ (List.replicate 11 (publishing [7])).flatten ++
    (List.replicate 10 (dispatching 0 0 ++ [.written 0])).flatten

/-- The dispatcher never sleeps on available work, in runs whose signals are timely. -/
theorem no_lost_wakeup_of_timely {w : World} {q : QueueRef} (reached : broker.Reachable TimelySignals w)
    {site : WaitSite} (asleep : (w.queue q).dispatcher = .parked site false) (settled : ¬ w.Owed q) :
    (w.queue q).messages = [] ∨
      ∀ c ∈ (w.queue q).consumers, (w.consumer c).prefetch ≤ (w.consumer c).inflight := by
  rcases ((awake_of_reachable reached).2 q).asleep site asleep with empty | full | owed
  · exact .inl empty
  · exact .inr full
  · exact absurd owed settled

/-- The dispatcher waits with one message left because its only consumer has ten in flight. -/
theorem no_lost_wakeup_while_saturated :
    let w := broker.replay TimelySignals (saturated ++ [.lock 0, .probe 0 0, .exhausted 0, .wait 0])
    (w.queue 0).dispatcher = .parked .noConsumer false ∧ (w.queue 0).messages ≠ [] ∧
      ((w.queue 0).messages = [] ∨
        ∀ c ∈ (w.queue 0).consumers, (w.consumer c).prefetch ≤ (w.consumer c).inflight) :=
  have asleep := by decide +kernel
  ⟨asleep, by decide +kernel,
    no_lost_wakeup_of_timely (.of_replay _) asleep (not_owed_of_idle (by decide +kernel) 0)⟩

/-- The dispatcher finds the consumer full; a nack makes room and signals; only then does the dispatcher wait. -/
def signalledBeforeWait : List Label :=
  saturated ++ [.lock 0, .probe 0 0] ++
    served 0 ⟨1, 0, false, .nack 1 (some false)⟩ [{ refs := [0] }, {}, {}] ++ [.exhausted 0, .wait 0]

theorem lost_wakeup_of_signal_before_wait :
    ¬ ∀ w, broker.Reachable anyStep w → ∀ q site, (w.queue q).dispatcher = .parked site false → ¬ w.Owed q →
      (w.queue q).messages = [] ∨
        ∀ c ∈ (w.queue q).consumers, (w.consumer c).prefetch ≤ (w.consumer c).inflight := by
  intro awake
  have asleep := awake (broker.replay anyStep signalledBeforeWait) (.of_replay _) 0 .noConsumer
    (by decide +kernel) (not_owed_of_idle (by decide +kernel) 0)
  revert asleep
  decide +kernel

end GolangMQ.Model
