import GolangMQ.Requests.Settlement

/-! # Acks and nacks of one channel leave the others alone

`Broker.Ack` searches all consumers of a queue for the tag, whichever channel the ack came on, and other
goroutines run between `HandleAck`'s lookup and this search. While no write fails and tags do not repeat,
the consumer that the lookup has found keeps the tag until the search: whoever could take it away works on
consumers of another connection, or is this goroutine itself. It is then the only one the search can find.
-/

namespace GolangMQ.Model

open Custody Machine

/-- The step is not that of a failed write. -/
def Steady (_ : World) (label : Label) : Prop := label.fails = false

instance (w : World) (label : Label) : Decidable (Steady w label) := inferInstanceAs (Decidable (_ = _))

/-- The sections between `HandleAck`'s lookup and the removal in `Broker.Ack`. -/
def Section.looksUp : Section → Bool
  | .ack .. | .ackQueue .. => true
  | _ => false

/-- The consumer `c` is one that the lookup can have found. -/
def Section.BackedBy (w : World) (c : ConsumerRef) : Section → Prop
  | .ack name tag => w.queueName c = name ∧ tag ∈ (w.consumer c).inflightTags
  | .ackQueue q tag => (w.consumer c).queue = q ∧ tag ∈ (w.consumer c).inflightTags
  | _ => True

/-- An ack under way has a consumer of its own connection that still has the tag in flight. -/
structure Backed (w : World) : Prop where
  tail : ∀ k, ∀ s ∈ (w.todo k).tail, s.looksUp = false
  head : ∀ k, ∀ s ∈ (w.todo k).head?, s.looksUp = true → ∃ c < w.consumer.size, w.owner c = k ∧ s.BackedBy w c

variable {w w' : World} {label : Label} {effect : Effect} {k : ConnectionRef} {q : QueueRef} {c : ConsumerRef}
  {tag : UInt16} {choice : Choice} {first : Section} {next : List Section}

private theorem intact_of_steady (reached : broker.Reachable Steady w) : broker.Reachable IntactRollback w :=
  reached.mono fun _ label steady => by cases label <;> trivial

theorem exclusive_of_steady (reached : broker.Reachable Steady w) (bounded : (w.queue q).log.tagged ≤ 65535) :
    Ledger.Exclusive Message.deliveryTag (w.ledger q) := by
  have distinct := distinct_of_bound bounded
  exact (conserved_of_reachable (intact_of_steady reached) q distinct).exclusive (sound_of_reachable reached q) distinct

/-- The goroutine of another connection does not take a tag away from a consumer. -/
private theorem inflight_kept (wellformed : Wellformed w) (owned : Owned w) (backed : Backed w)
    (sound : ∀ q, Ledger.Sound Message.deliveryTag stamp (w.ledger q))
    (exclusive : ∀ q, Ledger.Exclusive Message.deliveryTag (w.ledger q)) (steady : Steady w label)
    (stepped : w.step? label = some w') (other : ∀ choice, label ≠ .run (w.owner c) choice)
    (inside : c < w.consumer.size) (inflight : tag ∈ (w.consumer c).inflightTags) :
    tag ∈ (w'.consumer c).inflightTags := by
  obtain ⟨effect, store, happens⟩ := World.happens_of_step stepped
  have changed := w.toStore.onConsumer effect c
  rw [store]
  generalize (w.toStore.apply effect).consumer c = consumer at changed ⊢
  cases changed with
  | same => exact inflight
  | newConsumer => exact absurd inside (Nat.lt_irrefl _)
  | unregisterConsumer =>
    cases happens with
    | @unregisterConsumer _ j choice _ free member all advances =>
      obtain ⟨rest, pending, -⟩ := advances.todo
      have mine := (owned.sections j _ (pending ▸ List.mem_cons_self ..)).consumers c (by simp)
      exact absurd rfl (mine.2 ▸ other choice)
  | ack =>
    cases happens with
    | @ack _ j choice _ _ _ free member found advances =>
      obtain ⟨rest, pending, -⟩ := advances.todo
      obtain ⟨holder, -, own, mine, holds⟩ := backed.head j _ (by rw [pending]; rfl) rfl
      have same := eq_of_inflight wellformed (sound _) (exclusive _) (wellformed.members _ c member).2 mine found holds
      subst same
      exact absurd rfl (own ▸ other choice)
  | nack =>
    cases happens with
    | @nack _ j choice _ rest' msg tag' requeue found advances =>
      obtain ⟨rest, pending, -⟩ := advances.todo
      have mine := (owned.sections j _ (pending ▸ List.mem_cons_self ..)).consumers c (by simp)
      exact absurd rfl (mine.2 ▸ other choice)
  | record => exact Finset.mem_insert_of_mem inflight
  | rollback =>
    cases happens
    exact absurd steady (by simp [Steady, Label.fails])

/-- What backs an ack still does after a step that leaves the tag in flight. -/
theorem Section.BackedBy.step {s : Section} (backed : s.BackedBy w c) (wellformed : Wellformed w) (grows : w.Grows w')
    (inside : c < w.consumer.size)
    (kept : ∀ tag ∈ (w.consumer c).inflightTags, tag ∈ (w'.consumer c).inflightTags) : s.BackedBy w' c := by
  have queue := grows.store.queue inside
  cases s with
  | ack name tag =>
    refine ⟨?_, kept tag backed.2⟩
    rw [World.queueName, queue, grows.store.name _ (wellformed.queueOf c inside)]
    exact backed.1
  | ackQueue q tag => exact ⟨queue.trans backed.1, kept tag backed.2⟩
  | _ => trivial

/-- A section leads to at most one lookup, to that one first, and then with nothing changed. -/
private theorem backed_of_runs {mine : ConsumerRef → Prop} (named : Named w) (wellformed : Wellformed w)
    (known : ∀ c ∈ first.consumerRefs, c < w.consumer.size ∧ mine c)
    (head : first.looksUp = true → ∃ c < w.consumer.size, mine c ∧ first.BackedBy w c)
    (runs : Runs w k choice first w' next) :
    (∀ s ∈ next.tail, s.looksUp = false) ∧ ∀ s ∈ next.head?, s.looksUp = true →
      w' = w ∧ ∃ c < w.consumer.size, mine c ∧ s.BackedBy w c := by
  have quiet (none : ∀ s ∈ next, s.looksUp = false) : (∀ s ∈ next.tail, s.looksUp = false) ∧
      ∀ s ∈ next.head?, s.looksUp = true → w' = w ∧ ∃ c < w.consumer.size, mine c ∧ s.BackedBy w c := by
    refine ⟨fun s member => none s (List.mem_of_mem_tail member), fun s member looksUp => ?_⟩
    rw [none s (List.mem_of_mem_head? member)] at looksUp
    contradiction
  have leads (s : Section) (member : s ∈ next) : Leads first s := leads_of_runs runs member
  cases runs with
  | @ackFound c rest tag found =>
    refine ⟨by simp, ?_⟩
    rintro s ⟨⟩ -
    obtain ⟨inside, own⟩ := known c (by simp)
    exact ⟨rfl, c, inside, own, rfl, found⟩
  | @ackNamed name tag q found =>
    refine ⟨by simp, ?_⟩
    rintro s ⟨⟩ -
    obtain ⟨c, inside, own, rfl, inflight⟩ := head rfl
    refine ⟨rfl, c, inside, own, ?_, inflight⟩
    exact Option.some.inj ((named _ (wellformed.queueOf c inside)).symm.trans found)
  | ackNext => exact quiet (by simp [Section.looksUp])
  | ackUnknown | ackUnnamed => exact quiet (by simp)
  | _ =>
    refine quiet fun s member => ?_
    cases leads s member <;> rfl

private theorem looksUp_handle (w : World) (k : ConnectionRef) (env : Envelope) :
    ∀ s ∈ (w.handle k env).2, s.looksUp = false := by
  intro s member
  cases World.handled_of_mem member with
  | routed found routed => cases routed <;> rfl
  | _ => rfl

namespace Backed

private theorem init : Backed broker.init where
  tail _ _ member := absurd member List.not_mem_nil
  head _ _ member := absurd member (by simp [broker, World.todo, default])

private theorem step (backed : Backed w) (wellformed : Wellformed w) (owned : Owned w) (named : Named w)
    (sound : ∀ q, Ledger.Sound Message.deliveryTag stamp (w.ledger q))
    (exclusive : ∀ q, Ledger.Exclusive Message.deliveryTag (w.ledger q)) (steady : Steady w label)
    (stepped : w.step? label = some w') : Backed w' := by
  have grows := World.grows_of_step stepped
  -- A goroutine that does not move keeps its sections, and what backs its ack keeps the tag.
  have rests (j : ConnectionRef) (still : ∀ choice, label ≠ .run j choice) (todo : w'.todo j = w.todo j) :
      (∀ s ∈ (w'.todo j).tail, s.looksUp = false) ∧ ∀ s ∈ (w'.todo j).head?, s.looksUp = true →
        ∃ c < w'.consumer.size, w'.owner c = j ∧ s.BackedBy w' c := by
    rw [todo]
    refine ⟨backed.tail j, fun s member looksUp => ?_⟩
    obtain ⟨c, inside, own, backs⟩ := backed.head j s member looksUp
    refine ⟨c, inside.trans_le grows.store.consumers, (owned.owner_step grows inside).trans own, ?_⟩
    refine backs.step wellformed grows inside fun tag inflight => ?_
    exact inflight_kept wellformed owned backed sound exclusive steady stepped (own ▸ still) inside inflight
  have starts (j : ConnectionRef) (quiet : ∀ s ∈ w'.todo j, s.looksUp = false) :
      (∀ s ∈ (w'.todo j).tail, s.looksUp = false) ∧ ∀ s ∈ (w'.todo j).head?, s.looksUp = true →
        ∃ c < w'.consumer.size, w'.owner c = j ∧ s.BackedBy w' c := by
    refine ⟨fun s member => quiet s (List.mem_of_mem_tail member), fun s member looksUp => ?_⟩
    rw [quiet s (List.mem_of_mem_head? member)] at looksUp
    contradiction
  have each : ∀ j, (∀ s ∈ (w'.todo j).tail, s.looksUp = false) ∧ ∀ s ∈ (w'.todo j).head?, s.looksUp = true →
      ∃ c < w'.consumer.size, w'.owner c = j ∧ s.BackedBy w' c := by
    intro j
    by_cases runs : ∃ choice, label = .run j choice
    · obtain ⟨choice, rfl⟩ := runs
      cases World.steps_of_step stepped with
      | @run _ _ first rest next middle inside pending runs stays =>
        have mine := owned.sections j first (pending ▸ List.mem_cons_self ..)
        have later : ∀ s ∈ rest, s.looksUp = false := fun s member => backed.tail j s (by rw [pending]; exact member)
        obtain ⟨tail, head⟩ := backed_of_runs named wellformed mine.consumers
          (backed.head j first (by rw [pending]; rfl)) runs
        rw [stays.todo_setTodo inside, Function.update_self]
        cases next with
        | nil =>
          refine ⟨fun s member => later s (List.mem_of_mem_tail member), fun s member looksUp => ?_⟩
          rw [later s (List.mem_of_mem_head? member)] at looksUp
          contradiction
        | cons new others =>
          refine ⟨fun s member => ?_, fun s member looksUp => ?_⟩
          · rcases List.mem_append.1 member with led | old
            · exact tail s led
            · exact later s old
          · obtain ⟨same, c, inside, own, backs⟩ := head s member looksUp
            subst same
            exact ⟨c, inside, own, by cases s <;> exact backs⟩
      | dispatch ofDispatcher => contradiction
    · have still : ∀ choice, label ≠ .run j choice := fun choice same => runs ⟨choice, same⟩
      obtain ⟨effect, -, happens⟩ := World.happens_of_step stepped
      rcases World.todo_of_other happens still with todo | ⟨env, rfl, todo⟩ | ⟨rfl, todo⟩
      · exact rests j still todo
      · exact starts j (todo ▸ looksUp_handle w j env)
      · exact starts j (by simp [todo, Section.looksUp])
  exact ⟨fun j => (each j).1, fun j => (each j).2⟩

end Backed

/-- Earlier states of a run have taken fewer tags. -/
private theorem bounded_before (stepped : w.step? label = some w') {bound : ℕ}
    (bounded : ∀ q, (w'.queue q).log.tagged ≤ bound) (q : QueueRef) : (w.queue q).log.tagged ≤ bound := by
  obtain ⟨effect, store, -⟩ := World.happens_of_step stepped
  exact (w.toStore.tagged_le effect q).trans (store ▸ bounded q)

theorem backed_of_reachable (reached : broker.Reachable Steady w) (bounded : ∀ q, (w.queue q).log.tagged ≤ 65535) :
    Backed w := by
  refine reached.invariant (P := fun w => (∀ q, (w.queue q).log.tagged ≤ 65535) → Backed w) (fun _ => .init) ?_ bounded
  intro source target label before backed steady stepped bounded
  have earlier := bounded_before stepped bounded
  exact (backed earlier).step (wellformed_of_reachable before) (owned_of_reachable before) (named_of_reachable before)
    (sound_of_reachable before) (fun q => exclusive_of_steady before (earlier q)) steady stepped

/-- The sections of the handlers of acks and nacks. -/
def Section.settling : Section → Bool
  | .ackRange .. | .ackScan .. | .ack .. | .ackQueue .. | .nackRange .. | .nackScan .. => true
  | s => s.spares

/-- A section of the handler of an ack or a nack that came on channel `ch`. -/
structure Section.For (w : World) (ch : ChannelRef) (s : Section) : Prop where
  settling : s.settling = true
  channels : ∀ ch' ∈ s.channelRefs, ch' = ch
  consumers : ∀ c ∈ s.consumerRefs, c < w.consumer.size ∧ (w.consumer c).channel = ch
  backed : s.looksUp = true → ∃ c < w.consumer.size, (w.consumer c).channel = ch ∧ s.BackedBy w c

private theorem Section.For.of_spares {ch : ChannelRef} {s : Section} (spares : s.spares = true) : s.For w ch := by
  cases s <;> first | contradiction | exact ⟨rfl, by simp, by simp, by simp [Section.looksUp]⟩

/-- Only consumers of its channel are touched by such a section. -/
theorem Section.For.consumer_eq {ch : ChannelRef} (mine : first.For w ch) (wellformed : Wellformed w)
    (sound : ∀ q, Ledger.Sound Message.deliveryTag stamp (w.ledger q))
    (exclusive : ∀ q, Ledger.Exclusive Message.deliveryTag (w.ledger q)) (runs : Runs w k choice first w' next)
    (other : (w.consumer c).channel ≠ ch) : w'.consumer c = w.consumer c := by
  cases runs with
  | @ackQueue q tag found free member inflight =>
    obtain ⟨holder, inside, here, queue, holds⟩ := mine.backed rfl
    obtain rfl := eq_of_inflight wellformed (sound q) (exclusive q)
      (wellformed.members q found member).2 queue inflight holds
    have elsewhere : c ≠ found := by
      rintro rfl
      exact other here
    exact w.consumer.cell_modify_of_ne (·.release tag) elsewhere
  | @nack found rest tag requeue msg holds =>
    have elsewhere : c ≠ found := by
      rintro rfl
      exact other (mine.consumers c (by simp)).2
    exact w.consumer.cell_modify_of_ne (·.release tag) elsewhere
  | consume | unregister => exact absurd mine.settling (by simp [Section.settling, Section.spares])
  | _ => rfl

/-- The handler of an ack or a nack stays with its channel. -/
structure Handling (w : World) (k : ConnectionRef) (ch : ChannelRef) : Prop where
  tail : ∀ s ∈ (w.todo k).tail, s.spares = true
  head : ∀ s ∈ (w.todo k).head?, s.For w ch

/-- What such a section leads to. -/
theorem Section.For.leads {ch : ChannelRef} (mine : first.For w ch) (wellformed : Wellformed w) (owned : Owned w)
    (named : Named w) (grows : w.Grows w') (runs : Runs w k choice first w' next) :
    (∀ s ∈ next.tail, s.spares = true) ∧ ∀ s ∈ next.head?, s.For w' ch := by
  have all (spares : ∀ s ∈ next, s.spares = true) : (∀ s ∈ next.tail, s.spares = true) ∧
    ∀ s ∈ next.head?, s.For w' ch :=
    ⟨fun s member => spares s (List.mem_of_mem_tail member),
      fun s member => .of_spares (spares s (List.mem_of_mem_head? member))⟩
  have lookups := (backed_of_runs named wellformed mine.consumers mine.backed runs).2
  by_cases spares : first.spares = true
  · exact all (spares_of_runs spares runs).2
  cases runs with
  | @ackRange ch' tag visited | @nackRange ch' tag requeue visited =>
    refine ⟨by simp, ?_⟩
    rintro s ⟨⟩
    refine ⟨rfl, by simp, fun c member => ?_, by simp [Section.looksUp]⟩
    obtain rfl := mine.channels ch' (by simp)
    exact owned.of_values (visited.subset member)
  | ackNext | nackNext =>
    refine ⟨by simp, ?_⟩
    rintro s ⟨⟩
    exact ⟨rfl, by simp, fun c member => mine.consumers c (List.mem_cons_of_mem _ member), by simp [Section.looksUp]⟩
  | ackFound | ackNamed =>
    refine ⟨by simp, ?_⟩
    rintro s ⟨⟩
    exact ⟨rfl, by simp, by simp, fun looksUp => (lookups _ rfl looksUp).2⟩
  | nack => exact all (spares_afterNack w _ _ _)
  | ackUnknown | ackUnnamed | ackGone | nackUnknown | ackQueue => exact all (by simp [Section.spares])
  | _ => first | exact absurd rfl spares | exact absurd mine.settling Bool.false_ne_true

private theorem Handling.step {ch : ChannelRef} (handling : Handling w k ch) (wellformed : Wellformed w)
    (owned : Owned w)
    (named : Named w) (backed : Backed w) (sound : ∀ q, Ledger.Sound Message.deliveryTag stamp (w.ledger q))
    (exclusive : ∀ q, Ledger.Exclusive Message.deliveryTag (w.ledger q)) (conn : (w.channel ch).conn = k)
    (steady : Steady w label) (busy : ∀ env, label ≠ .request k env) (stays : label ≠ .disconnect k)
    (stepped : w.step? label = some w') : Handling w' k ch := by
  have grows := World.grows_of_step stepped
  by_cases runs : ∃ choice, label = .run k choice
  · obtain ⟨choice, rfl⟩ := runs
    cases World.steps_of_step stepped with
    | @run _ _ first rest next middle inside pending runs rests =>
      have later : ∀ s ∈ rest, s.spares = true := fun s member => handling.tail s (by rw [pending]; exact member)
      have mine := handling.head first (by rw [pending]; rfl)
      have inner : w.Grows middle := ⟨grows.store, grows.channels, grows.identity⟩
      obtain ⟨tail, head⟩ := mine.leads wellformed owned named inner runs
      have todo : (middle.setTodo k (next ++ rest)).todo k = next ++ rest := by
        rw [rests.todo_setTodo inside, Function.update_self]
      cases next with
      | nil =>
        refine ⟨fun s member => ?_, fun s member => ?_⟩
        · rw [todo] at member
          exact later s (List.mem_of_mem_tail member)
        · rw [todo] at member
          exact .of_spares (later s (List.mem_of_mem_head? member))
      | cons new others =>
        refine ⟨fun s member => ?_, fun s member => ?_⟩
        · rw [todo] at member
          rcases List.mem_append.1 member with led | old
          · exact tail s led
          · exact later s old
        · rw [todo] at member
          have for_ := head s member
          exact ⟨for_.settling, for_.channels, for_.consumers, fun looksUp => by
            obtain ⟨c, inside, here, backs⟩ := for_.backed looksUp
            exact ⟨c, inside, here, by cases s <;> exact backs⟩⟩
    | dispatch ofDispatcher => contradiction
  · have still : ∀ choice, label ≠ .run k choice := fun choice same => runs ⟨choice, same⟩
    obtain ⟨effect, -, happens⟩ := World.happens_of_step stepped
    have todo : w'.todo k = w.todo k := by
      rcases World.todo_of_other happens still with todo | ⟨env, same, -⟩ | ⟨same, -⟩
      · exact todo
      · exact absurd same (busy env)
      · exact absurd same stays
    refine ⟨todo ▸ handling.tail, fun s member => ?_⟩
    rw [todo] at member
    have for_ := handling.head s member
    refine ⟨for_.settling, for_.channels, fun c refers => ?_, fun looksUp => ?_⟩
    · obtain ⟨inside, here⟩ := for_.consumers c refers
      exact ⟨inside.trans_le grows.store.consumers, (grows.store.channel inside).trans here⟩
    · obtain ⟨c, inside, here, backs⟩ := for_.backed looksUp
      have own : w.owner c = k := by rw [World.owner, here, conn]
      refine ⟨c, inside.trans_le grows.store.consumers, (grows.store.channel inside).trans here, ?_⟩
      refine backs.step wellformed grows inside fun tag inflight => ?_
      exact inflight_kept wellformed owned backed sound exclusive steady stepped (own ▸ still) inside inflight

/-- A request on connection `k`, or its end. -/
def Label.begins (k : ConnectionRef) : Label → Bool
  | .request j _ | .disconnect j => j == k
  | _ => false

/-- No write fails, and connection `k` neither takes a new request nor ends. -/
def Meanwhile (k : ConnectionRef) (w : World) (label : Label) : Prop := Steady w label ∧ label.begins k = false

instance (k : ConnectionRef) (w : World) (label : Label) : Decidable (Meanwhile k w label) :=
  inferInstanceAs (Decidable (_ ∧ _))

/-- The handler starts on the channel that the envelope names. -/
private theorem handling_of_request {env : Envelope} {ch : ChannelRef}
    (opened : (w.channelsOf k).lookup env.channelID = some ch)
    (settles : ∃ tag, env.request.settles tag) (requested : w.step? (.request k env) = some w') : Handling w' k ch := by
  cases World.steps_of_step requested with
  | request alive idle =>
    have found : (w.connection k).channels.lookup env.channelID = some ch := opened
    have handled : w.handle k env = (w, Model.route ch env) := by
      obtain ⟨tag, asked | ⟨requeue, asked⟩⟩ := settles <;> simp only [World.handle, asked, found]
    have todo : ((w.handle k env).1.setTodo k (w.handle k env).2).todo k = Model.route ch env := by
      rw [(w.handle_spec k env).1.todo_setTodo (World.inside_of_live alive), Function.update_self, handled]
    have first : ∀ s ∈ (Model.route ch env).head?, s.For ((w.handle k env).1.setTodo k (w.handle k env).2) ch := by
      obtain ⟨tag, asked | ⟨requeue, asked⟩⟩ := settles <;> simp only [Model.route, asked] <;> split
      all_goals
        rintro s ⟨⟩
        first | exact .of_spares rfl | exact ⟨rfl, by simp, by simp, by simp [Section.looksUp]⟩
    refine ⟨fun s member => ?_, todo ▸ first⟩
    rw [todo] at member
    obtain ⟨tag, asked | ⟨requeue, asked⟩⟩ := settles <;> simp only [Model.route, asked] at member <;>
      split at member <;> contradiction
  | dispatch ofDispatcher => contradiction

/-- The handler stays with its channel for as long as it runs. -/
theorem handling_of_reachable {requested : World} {ch : ChannelRef} (before : broker.Reachable Steady requested)
    (starts : Handling requested k ch) (known : ch < requested.channel.size) (conn : (requested.channel ch).conn = k)
    (reached : (broker.startingAt requested).Reachable (Meanwhile k) w)
    (bounded : ∀ q, (w.queue q).log.tagged ≤ 65535) : Handling w k ch := by
  have all : ch < w.channel.size ∧ (w.channel ch).conn = k ∧
      ((∀ q, (w.queue q).log.tagged ≤ 65535) → Handling w k ch) := by
    refine reached.invariant (P := fun w => ch < w.channel.size ∧ (w.channel ch).conn = k ∧
      ((∀ q, (w.queue q).log.tagged ≤ 65535) → Handling w k ch)) ⟨known, conn, fun _ => starts⟩ ?_
    intro source target label during ⟨known, conn, handling⟩ ⟨steady, busy⟩ stepped
    have grows := World.grows_of_step stepped
    refine ⟨known.trans_le grows.channels, (grows.identity ch known).2.trans conn, fun bounded => ?_⟩
    have earlier := bounded_before stepped bounded
    have reached := before.continued (during.mono fun _ _ met => met.1)
    refine (handling earlier).step (wellformed_of_reachable reached) (owned_of_reachable reached)
      (named_of_reachable reached)
      (backed_of_reachable reached earlier) (sound_of_reachable reached)
      (fun q => exclusive_of_steady reached (earlier q)) conn steady ?_ ?_ stepped
    · rintro env rfl
      simp [Label.begins] at busy
    · rintro rfl
      simp [Label.begins] at busy
  exact all.2.2 bounded

/-- From the request on, for as long as it is handled and whatever else runs in between: every step of the handler
of an ack or a nack leaves the consumers of all other channels as they are. -/
theorem settlement_isolated {before requested : World} {env : Envelope} {ch : ChannelRef}
    (reached : broker.Reachable Steady before) (opened : (before.channelsOf k).lookup env.channelID = some ch)
    (settles : env.request.settles tag) (asked : before.step? (.request k env) = some requested)
    (handling : (broker.startingAt requested).Reachable (Meanwhile k) w)
    (bounded : ∀ q, (w.queue q).log.tagged ≤ 65535) (stepped : w.step? (.run k choice) = some w')
    (other : (w.consumer c).channel ≠ ch) :
    (w'.consumer c).inflight = (w.consumer c).inflight ∧ (w'.consumer c).inflightTags = (w.consumer c).inflightTags ∧
      (w'.consumer c).pendingMessages = (w.consumer c).pendingMessages := by
  have request : Steady before (.request k env) := rfl
  have during := (reached.step request asked).continued (handling.mono fun _ _ met => met.1)
  obtain ⟨known, -, conn⟩ := (owned_of_reachable reached).opened k env.channelID ch opened
  have grows := World.grows_of_step asked
  have mine := handling_of_reachable (reached.step request asked) (handling_of_request opened ⟨tag, settles⟩ asked)
    (known.trans_le grows.channels) ((grows.identity ch known).2.trans conn) handling bounded
  have same : w'.consumer c = w.consumer c := by
    cases World.steps_of_step stepped with
    | @run _ _ first rest next middle inside pending runs rests =>
      have head := mine.head first (by rw [pending]; rfl)
      have kept : middle.consumer c = w.consumer c := head.consumer_eq (wellformed_of_reachable during)
        (sound_of_reachable during) (fun q => exclusive_of_steady during (bounded q)) runs other
      exact kept
    | dispatch ofDispatcher => contradiction
  rw [same]
  exact ⟨rfl, rfl, rfl⟩

/-- Two connections consume one queue, and each of them has one message in flight. -/
def sharing : List Label :=
  topology ++ consuming ++ .accept :: served 1 ⟨0, 0, false, .channelOpen 1⟩ [{}] ++
    served 1 ⟨1, 0, false, .consume "q" ""⟩ [{}, {}, {}, {}, {}] ++ publishing [7] ++ publishing [8] ++
    dispatching 0 0 ++ [.written 0] ++ dispatching 0 1 ++ [.written 0]

/-- The search of an ack from the first connection looks at the consumer of the second one first. -/
theorem settlement_isolated_of_sharing :
    let before := broker.replay Steady sharing
    let requested := (before.step? (.request 0 ⟨1, 0, false, .ack 1⟩)).getD before
    let w := (broker.startingAt requested).replay (Meanwhile 0) [.run 0 { refs := [0] }, .run 0 {}, .run 0 {}]
    let w' := (w.step? (.run 0 { refs := [1, 0] })).getD w
    (w'.consumer 0).inflightTags = ∅ ∧ (w.consumer 0).inflightTags = {1} ∧ (w.consumer 1).inflightTags = {2} ∧
      (w'.consumer 1).inflight = (w.consumer 1).inflight ∧
      (w'.consumer 1).inflightTags = (w.consumer 1).inflightTags ∧
      (w'.consumer 1).pendingMessages = (w.consumer 1).pendingMessages :=
  have asked := (Option.getD_of_ne_none (Option.isSome_iff_ne_none.1 (by decide +kernel)) _).symm
  have stepped := (Option.getD_of_ne_none (Option.isSome_iff_ne_none.1 (by decide +kernel)) _).symm
  have opened : ((broker.replay Steady sharing).channelsOf 0).lookup 1 = some 0 := by decide +kernel
  ⟨by decide +kernel, by decide +kernel, by decide +kernel,
    settlement_isolated (k := 0) (.of_replay sharing) opened (.inl rfl) asked (.of_replay _)
      (bounded_of_declared (by decide +kernel)) stepped (by decide +kernel)⟩

end GolangMQ.Model
