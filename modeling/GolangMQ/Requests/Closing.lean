import GolangMQ.Requests.Registries

/-! # Deliveries after `channel.close-ok`

`ChannelClose` takes the channel out of its map, unregisters its consumers and then replies. A dispatcher
that has recorded a delivery writes it after it has given up `Queue.mu`, so the consumer may be
unregistered, and `channel.close-ok` written, while the deliver frame is still on its way. When
`channel.close` unregisters no consumer during a write to it, and no open channel is replaced, the reply is the last
frame of its channel until the id is opened again. The end of a connection may unregister consumers during a write:
it replies to nothing, and leaves the map of channels alone.
-/

namespace GolangMQ.Model

open Machine

variable {w w' : World} {label : Label} {k : ConnectionRef} {choice : Choice} {first : Section}
  {next rest : List Section} {c : ConsumerRef} {ch : ChannelRef} {q : QueueRef} {msg : Message} {id : UInt16}

/-- The id in a `channel.close-ok` that is about to be written. -/
def Section.confirms : Section → Option UInt16
  | .reply ⟨_, .channelCloseOK id⟩ => some id
  | _ => none

/-- The frame is not a delivery. -/
def Frame.isReply (frame : Frame) : Bool :=
  match frame.payload with
  | .deliver _ => false
  | _ => true

/-- The section writes a deliver frame, which only dispatchers do. -/
def Section.delivers : Section → Bool
  | .reply ⟨_, .deliver _⟩ => true
  | _ => false

/-- What a section leads to neither confirms a close nor delivers. -/
private theorem plain_of_runs (runs : Runs w k choice first w' next) :
    ∀ s ∈ next, s.confirms = none ∧ s.delivers = false := by
  intro s member
  cases leads_of_runs runs member <;> exact ⟨rfl, rfl⟩

/-- The reply to `channel.close` comes last, and its channel is no longer in the map. -/
structure Confirming (w : World) (k : ConnectionRef) : Prop where
  last : ∀ s ∈ (w.todo k).dropLast, s.confirms = none
  erased : ∀ s ∈ w.todo k, ∀ id, s.confirms = some id → (w.channelsOf k).lookup id = none
  plain : ∀ s ∈ w.todo k, s.delivers = false

namespace Confirming

/-- Sections that confirm nothing. -/
theorem of_plain (plain : ∀ s ∈ w.todo k, s.confirms = none ∧ s.delivers = false) : Confirming w k where
  last s member := (plain s (List.dropLast_subset _ member)).1
  erased s member id confirms := by
    rw [(plain s member).1] at confirms
    contradiction
  plain s member := (plain s member).2

private theorem of_same (confirming : Confirming w k) (todo : w'.todo k = w.todo k)
    (channelsOf : w'.channelsOf k = w.channelsOf k) :
    Confirming w' k := by
  refine ⟨?_, ?_, ?_⟩
  · rw [todo]
    exact confirming.last
  · rw [todo, channelsOf]
    exact confirming.erased
  · rw [todo]
    exact confirming.plain

private theorem run (confirming : Confirming w k) (pending : w.todo k = first :: rest)
    (plain : ∀ s ∈ next, s.confirms = none ∧ s.delivers = false) (todo : w'.todo k = next ++ rest)
    (channelsOf : w'.channelsOf k = w.channelsOf k) : Confirming w' k := by
  have last := confirming.last
  have erased := confirming.erased
  have replies := confirming.plain
  rw [pending] at last erased replies
  refine ⟨fun s member => ?_, fun s member id confirms => ?_, fun s member => ?_⟩
  · rw [todo] at member
    cases rest with
    | nil =>
      rw [List.append_nil] at member
      exact (plain s (List.dropLast_subset _ member)).1
    | cons second others =>
      rw [List.dropLast_append_of_ne_nil (by simp)] at member
      rcases List.mem_append.1 member with new | old
      · exact (plain s new).1
      · exact last s (by rw [List.dropLast_cons_cons]; exact List.mem_cons_of_mem _ old)
  · rw [channelsOf]
    rw [todo] at member
    rcases List.mem_append.1 member with new | old
    · rw [(plain s new).1] at confirms
      contradiction
    · exact erased s (List.mem_cons_of_mem _ old) id confirms
  · rw [todo] at member
    rcases List.mem_append.1 member with new | old
    · exact (plain s new).2
    · exact replies s (List.mem_cons_of_mem _ old)

private theorem plain_route (ch : ChannelRef) (env : Envelope) :
    ∀ s ∈ Model.route ch env, s.confirms = none ∧ s.delivers = false := by
  intro s member
  cases World.routed_of_mem member <;> exact ⟨rfl, rfl⟩

private theorem request {env : Envelope} (alive : w.connected k = true) :
    Confirming ((w.handle k env).1.setTodo k (w.handle k env).2) k := by
  have inside := World.inside_of_live alive
  have started := (w.handle k env).1.aligned_setTodo k (w.handle k env).2
  have todo : ((w.handle k env).1.setTodo k (w.handle k env).2).todo k = (w.handle k env).2 := by
    rw [(w.handle_spec k env).1.todo_setTodo inside, Function.update_self]
  revert started todo
  generalize (w.handle k env).1.setTodo k (w.handle k env).2 = target
  refine w.handle_cases k env (P := fun v next => v.Aligned target → target.todo k = next → Confirming target k)
    (fun id _ _ todo => ?_) (fun _ started todo => ?_) (fun _ _ todo => ?_) (fun ch _ _ todo => ?_)
  · exact of_plain (by simp [todo, Section.confirms, Section.delivers])
  · have plain : ∀ s ∈ (((w.connection k).channels.lookup env.channelID).map Section.cleanup).toList,
        s.confirms = none ∧ s.delivers = false := by
      intro s member
      obtain ⟨ch, -, rfl⟩ := Option.map_eq_some_iff.1 (Option.mem_toList.1 member)
      exact ⟨rfl, rfl⟩
    refine ⟨fun s member => ?_, fun s member id confirms => ?_, fun s member => ?_⟩
    · rw [todo, List.dropLast_concat] at member
      exact (plain s member).1
    · rw [todo] at member
      rcases List.mem_append.1 member with cleanup | last
      · rw [(plain s cleanup).1] at confirms
        contradiction
      · rw [List.mem_singleton.1 last] at confirms
        cases confirms
        rw [started.channelsOf, w.channelsOf_modifyConnection inside, Function.update_self]
        exact AList.lookup_erase _ _
    · rw [todo] at member
      rcases List.mem_append.1 member with cleanup | last
      · exact (plain s cleanup).2
      · rw [List.mem_singleton.1 last]
        rfl
  · exact of_plain (by simp [todo, Section.confirms, Section.delivers])
  · exact of_plain (by rw [todo]; exact plain_route ch env)

end Confirming

theorem confirming_of_reachable {ok : World → Label → Prop} (reached : broker.Reachable ok w) :
    ∀ k, Confirming w k := by
  refine reached.invariant (P := fun w => ∀ k, Confirming w k) (fun k => .of_plain ?_) ?_
  · exact fun s member => absurd member List.not_mem_nil
  intro source target label before confirming _ stepped k
  have stepped : source.step? label = some target := stepped
  have tables := World.tables_of_step stepped
  cases World.steps_of_step stepped with
  | accept =>
    refine (confirming k).of_same ?_ ?_
    · exact source.connection.observe_alloc Connection.todo { live := true } rfl k
    · exact source.connection.observe_alloc Connection.channels { live := true } rfl k
  | @request j env alive idle =>
    by_cases same : k = j
    · subst same
      exact .request alive
    · refine (confirming k).of_same ?_ ?_
      · rw [(source.handle_spec j env).1.todo_setTodo (World.inside_of_live alive), Function.update_of_ne same]
      · cases tables with
        | kept _ channelsOf => rw [channelsOf]
        | opened _ _ _ _ channelsOf | closed _ _ _ _ channelsOf => rw [channelsOf, Function.update_of_ne same]
  | @disconnect j alive idle =>
    have todo := source.todo_setTodo (World.inside_of_live alive) [.teardown]
    by_cases same : k = j
    · subst same
      exact .of_plain (by simp [todo, Section.confirms, Section.delivers])
    · refine (confirming k).of_same ?_ ?_
      · rw [todo, Function.update_of_ne same]
      · rw [(source.aligned_setTodo j [.teardown]).channelsOf]
  | @run j choice first rest next middle inside pending runs rests =>
    have channelsOf : (middle.setTodo j (next ++ rest)).channelsOf = source.channelsOf := by cases tables <;> assumption
    have todo := rests.todo_setTodo inside (next ++ rest)
    by_cases same : k = j
    · subst same
      exact (confirming k).run pending (plain_of_runs runs) (by rw [todo, Function.update_self]) (by rw [channelsOf])
    · exact (confirming k).of_same (by rw [todo, Function.update_of_ne same]) (by rw [channelsOf])
  | dispatch _ aligned rests => exact (confirming k).of_same (congrFun rests.todo k) (congrFun aligned.channelsOf k)

/-- What a step writes to a connection: a reply of its own goroutine, or the delivery of a dispatcher. -/
theorem World.wire_of_step (stepped : w.step? label = some w') (k : ConnectionRef) :
    w'.wire k = w.wire k ∨ ∃ frame, w'.wire k = w.wire k ++ [frame] ∧
      ((∃ choice rest, label = .run k choice ∧ w.todo k = .reply frame :: rest) ∨
        ∃ q c msg, label = .written q ∧ (w.queue q).dispatcher = .writing c msg ∧ w.owner c = k ∧
          frame = ⟨⟨(w.channel (w.consumer c).channel).id, 0⟩, .deliver (msg.deliver (w.consumer c).tag)⟩) := by
  cases label with
  | accept =>
    cases stepped
    exact .inl (w.connection.observe_alloc Connection.wire { live := true } rfl k)
  | request j env =>
    cases steps_of_step stepped with
    | request alive idle =>
      refine .inl ?_
      rw [wire_setTodo]
      refine w.handle_cases j env (P := fun v _ => v.wire k = w.wire k) (fun id _ => ?_) (fun _ => ?_) (fun _ => rfl)
        (fun _ _ => rfl)
      · exact congrFun (wire_kept { w with channel := w.channel.alloc { id, conn := j } } j _ rfl) k
      · exact congrFun (w.wire_kept j _ rfl) k
    | dispatch ofDispatcher => contradiction
  | disconnect j =>
    cases steps_of_step stepped with
    | disconnect => exact .inl (by rw [wire_setTodo])
    | dispatch ofDispatcher => contradiction
  | run j choice =>
    cases steps_of_step stepped with
    | @run _ _ first rest next middle inside pending runs =>
      rw [wire_setTodo]
      rcases wire_of_runs inside runs with same | ⟨frame, rfl, written⟩
      · exact .inl (by rw [same])
      · by_cases here : k = j
        · subst here
          exact .inr ⟨frame, by rw [written, Function.update_self], .inl ⟨choice, rest, rfl, pending⟩⟩
        · exact .inl (by rw [written, Function.update_of_ne here])
    | dispatch ofDispatcher => contradiction
  | written q =>
    simp only [step?] at stepped
    split at stepped <;> cases stepped
    next c msg phase =>
      let channel := w.channel (w.consumer c).channel
      let write (conn : Connection) : Connection :=
        { conn with wire := conn.wire ++ [⟨⟨channel.id, 0⟩, .deliver (msg.deliver (w.consumer c).tag)⟩] }
      rcases w.connection.cell_modify_eq_or channel.conn write k with same | ⟨here, written⟩
      · exact .inl (congrArg Connection.wire same)
      · exact .inr ⟨_, congrArg Connection.wire written, .inr ⟨q, c, msg, rfl, phase, here.symm, rfl⟩⟩
  | _ =>
    simp only [step?] at stepped
    repeat' split at stepped
    all_goals first | contradiction | (cases stepped; exact .inl rfl)

/-- The dispatcher of the consumer's queue is writing a delivery to it. -/
def World.writingTo (w : World) (c : ConsumerRef) : Bool :=
  match (w.queue (w.consumer c).queue).dispatcher with
  | .writing c' _ => c' == c
  | _ => false

/-- The channel is in the map of its connection. `ChannelClose` takes it out before it cleans up; the end of the
connection does not. -/
def World.listed (w : World) (ch : ChannelRef) : Prop :=
  (w.channelsOf (w.channel ch).conn).lookup (w.channel ch).id = some ch

instance (w : World) (ch : ChannelRef) : Decidable (w.listed ch) := inferInstanceAs (Decidable (_ = _))

/-- The step unregisters, for a `channel.close`, a consumer during a write to it. -/
def World.cutsOff (w : World) : Label → Bool
  | .run k _ =>
    match w.todo k with
    | .unregister c :: _ => w.writingTo c && !decide (w.listed (w.consumer c).channel)
    | _ => false
  | _ => false

/-- No open channel with consumers is replaced, and `channel.close` unregisters no consumer during a write to it. -/
def Unhurried (w : World) (label : Label) : Prop := Unreplaced w label ∧ w.cutsOff label = false

instance (w : World) (label : Label) : Decidable (Unhurried w label) := inferInstanceAs (Decidable (_ ∧ _))

private theorem unreplaced_of_unhurried (reached : broker.Reachable Unhurried w) : broker.Reachable Unreplaced w :=
  reached.mono fun _ _ met => met.1

/-- A dispatcher that is writing was writing before, or has just recorded the delivery. -/
private theorem writing_before (stepped : w.step? label = some w')
    (writing : (w'.queue q).dispatcher = .writing c msg) :
    (w.queue q).dispatcher = .writing c msg ∨ label = .record q ∧ (w.queue q).dispatcher = .selected c := by
  obtain ⟨effect, store, happens⟩ := World.happens_of_step stepped
  rw [store] at writing
  have changed := w.toStore.onQueue effect q
  generalize (w.toStore.apply effect).queue q = queue at changed writing
  cases changed with
  | newQueue => contradiction
  | signal =>
    refine .inl ?_
    simp only [Queue.signal] at writing
    split at writing
    · contradiction
    · exact writing
  | dispatcher =>
    cases happens with
    | lock | probe =>
      dsimp only at writing
      split_ifs at writing
    | exhausted | wait | resume | failed => contradiction
  | record =>
    cases happens with
    | record phase =>
      cases writing
      exact .inr ⟨rfl, phase⟩
  | deliver | rollback => contradiction
  | _ => exact .inl writing

/-- The consumer has been unregistered by the end of its connection at most. -/
def World.inPlace (w : World) (c : ConsumerRef) : Prop :=
  w.registered c ∨ w.attached c ∧ w.listed (w.consumer c).channel

/-- The tag of a consumer that is about to be attached is free. -/
theorem Agrees.fresh_of_attach {header : Header} {others : List Section}
    (agrees : Agrees w k (.attach c header :: others)) :
    (w.consumer c).tag ∉ (w.channel (w.consumer c).channel).consumers := by
  cases agrees.joining with
  | none quiet => exact absurd (quiet _ (List.mem_cons_self ..)) (by simp [Section.joins])
  | attach _ fresh => exact fresh

private theorem Agrees.attached_of_unregister {others : List Section} (agrees : Agrees w k (.unregister c :: others))
    (own : w.owner c = k) (registered : w.registered c) : w.attached c := by
  rcases agrees.covered c own registered with ⟨header, pending⟩ | ⟨attached, -⟩
  · rcases List.mem_cons.1 pending with same | later
    · contradiction
    · have quiet := agrees.joining.quiet rfl _ later
      contradiction
  · exact attached

/-- Whoever has its place in the maps of its connection keeps it, or loses it while it is registered. -/
private theorem World.inPlace_of_listed (reached : broker.Reachable Unreplaced w) (stepped : w.step? label = some w')
    (inside : c < w.consumer.size) (attached : w.attached c) (listed : w.listed (w.consumer c).channel) :
    w'.inPlace c := by
  have wellformed := wellformed_of_reachable reached
  have owned := owned_of_reachable reached
  have grows := grows_of_step stepped
  have known := owned.channelOf c inside
  -- A request finds the goroutine idle, and then the consumer is registered, which a request does not change.
  have requested {env : Envelope} (same : label = .request (w.owner c) env) (alive : w.connected (w.owner c) = true)
      (idle : w.todo (w.owner c) = []) : w'.inPlace c := by
    have agrees := agrees_of_reachable reached (w.owner c)
    rw [errands, idle] at agrees
    have registered := (agrees.iff_of_idle rfl).2 ⟨attached, listed, alive⟩
    cases roster_of_step wellformed stepped with
    | kept same => exact .inl ((same c).2 registered)
    | joined | left => contradiction
  have stays (still : w'.attached c) (channelsOf : w'.channelsOf (w.owner c) = w.channelsOf (w.owner c)) :
      w'.inPlace c := by
    refine .inr ⟨still, ?_⟩
    unfold World.listed
    rw [grows.store.channel inside, (grows.identity _ known).1, (grows.identity _ known).2]
    exact (congrArg (AList.lookup _) channelsOf).trans listed
  cases tables_of_step stepped with
  | kept channel channelsOf | accepted channel channelsOf | departed _ channel channelsOf =>
    exact stays ((grows.attached_iff inside (by rw [channel])).2 attached) (by rw [channelsOf])
  | @attached j choice c' header rest _ pending channel channelsOf =>
    obtain ⟨mine, -⟩ := (owned.sections j _ (pending ▸ List.mem_cons_self ..)).consumers c' (by simp)
    have agrees := agrees_of_reachable reached j
    rw [errands, pending, List.filter_cons_of_pos rfl] at agrees
    exact stays ((attached_of_attach owned mine grows agrees.fresh_of_attach channel inside).2 (.inr attached))
      (by rw [channelsOf])
  | @opened j env id _ asked alive idle channel channelsOf =>
    by_cases own : w.owner c = j
    · subst own
      exact requested rfl alive idle
    · refine stays ((grows.attached_iff inside ?_).2 attached) (by rw [channelsOf, Function.update_of_ne own])
      rw [channel, w.channel.cell_alloc_of_ne _ (Nat.ne_of_lt known)]
  | @closed j env _ asked alive idle channel channelsOf =>
    by_cases own : w.owner c = j
    · subst own
      exact requested rfl alive idle
    · exact stays ((grows.attached_iff inside (by rw [channel])).2 attached)
        (by rw [channelsOf, Function.update_of_ne own])

/-- Whoever is being written to is registered, unless its connection has ended. -/
private theorem inPlace_of_writing (reached : broker.Reachable Unhurried w) :
    ∀ q c msg, (w.queue q).dispatcher = .writing c msg → w.inPlace c := by
  refine reached.invariant (P := fun w => ∀ q c msg, (w.queue q).dispatcher = .writing c msg → w.inPlace c) ?_ ?_
  · intro q c msg writing
    contradiction
  intro source target label before holds met stepped q c msg writing
  have stepped : source.step? label = some target := stepped
  have unreplaced := unreplaced_of_unhurried before
  have wellformed := wellformed_of_reachable before
  have stays (registered : source.registered c)
      (uncut : ∀ j choice rest, label = .run j choice → source.todo j = .unregister c :: rest →
        source.listed (source.consumer c).channel) : target.inPlace c := by
    cases World.roster_of_step wellformed stepped with
    | kept same => exact .inl ((same c).2 registered)
    | joined pending joined => exact .inl ((joined c).2 (.inr registered))
    | @left j choice c' rest _ pending left =>
      by_cases same : c = c'
      · subst same
        obtain ⟨inside, own⟩ :=
          ((owned_of_reachable before).sections j _ (pending ▸ List.mem_cons_self ..)).consumers c (by simp)
        have agrees := agrees_of_reachable unreplaced j
        rw [World.errands, pending, List.filter_cons_of_pos rfl] at agrees
        exact World.inPlace_of_listed unreplaced stepped inside (agrees.attached_of_unregister own registered)
          (uncut j choice rest rfl pending)
      · exact .inl ((left c).2 ⟨same, registered⟩)
  rcases writing_before stepped writing with old | ⟨rfl, selected⟩
  · rcases holds q c msg old with registered | ⟨attached, listed⟩
    · refine stays registered fun j choice rest same pending => ?_
      have uncut := met.2
      rw [same, World.cutsOff, pending] at uncut
      simpa [World.writingTo, (wellformed.phase old).2, old] using uncut
    · exact World.inPlace_of_listed unreplaced stepped (wellformed.phase old).1 attached listed
  · exact stays ⟨q, (wellformed.phase selected).2⟩ fun _ _ _ same => Label.noConfusion same

/-- Channel id `id` of connection `k` is closed: it is not in the map, and nobody is registered through it. -/
structure World.Silent (w : World) (k : ConnectionRef) (id : UInt16) : Prop where
  closed : (w.channelsOf k).lookup id = none
  left : ∀ c, w.owner c = k → (w.channel (w.consumer c).channel).id = id → ¬ w.registered c

private theorem World.Silent.not_inPlace (silent : w.Silent k id) (own : w.owner c = k)
    (here : (w.channel (w.consumer c).channel).id = id) : ¬ w.inPlace c := by
  rintro (registered | ⟨-, listed⟩)
  · exact silent.left c own here registered
  · rw [World.listed, here, show (w.channel (w.consumer c).channel).conn = k from own, silent.closed] at listed
    contradiction

/-- The channel is closed by the time its `channel.close-ok` is written. -/
private theorem silent_of_confirms {header : Header} (reached : broker.Reachable Unreplaced w)
    (replies : w.todo k = .reply ⟨header, .channelCloseOK id⟩ :: rest) : w.Silent k id := by
  have confirming := confirming_of_reachable reached k
  have closed : (w.channelsOf k).lookup id = none :=
    confirming.erased _ (by rw [replies]; exact List.mem_cons_self ..) id rfl
  have alone : rest = [] := by
    cases rest with
    | nil => rfl
    | cons second others =>
      have confirms := confirming.last (.reply ⟨header, .channelCloseOK id⟩) (by rw [replies]; simp)
      contradiction
  refine ⟨closed, fun c own here registered => ?_⟩
  have agrees := agrees_of_reachable reached k
  rw [World.errands, replies, alone] at agrees
  obtain ⟨-, opened, -⟩ := (Agrees.iff_of_idle agrees own).1 registered
  rw [here, show (w.channel (w.consumer c).channel).conn = k from own, closed] at opened
  contradiction

/-- The client opens channel `id` of connection `k`. -/
def Label.opens (k : ConnectionRef) (id : UInt16) : Label → Bool
  | .request j env => j == k && env.request == .channelOpen id
  | _ => false

/-- A closed channel stays closed until it is opened again. -/
theorem World.Silent.step (silent : w.Silent k id) (reached : broker.Reachable Unreplaced w)
    (stays : label.opens k id = false)
    (stepped : w.step? label = some w') : w'.Silent k id := by
  have wellformed := wellformed_of_reachable reached
  have owned := owned_of_reachable reached
  have grows := World.grows_of_step stepped
  have before (c : ConsumerRef) (inside : c < w.consumer.size) (own : w'.owner c = k)
      (here : (w'.channel (w'.consumer c).channel).id = id) : ¬ w.registered c := by
    refine silent.left c ((owned.owner_step grows inside).symm.trans own) ?_
    rw [grows.store.channel inside] at here
    exact (grows.identity _ (owned.channelOf c inside)).1.symm.trans here
  refine ⟨?_, fun c own here registered => ?_⟩
  · cases World.tables_of_step stepped with
    | kept _ channelsOf | accepted _ channelsOf | attached _ _ channelsOf | departed _ _ channelsOf =>
      rw [channelsOf]
      exact silent.closed
    | @opened j env id' _ asked alive idle channel channelsOf =>
      rw [channelsOf]
      by_cases same : k = j
      · subst same
        have other : id ≠ id' := by
          rintro rfl
          simp [Label.opens, asked] at stays
        rw [Function.update_self, AList.lookup_insert_ne other]
        exact silent.closed
      · rw [Function.update_of_ne same]
        exact silent.closed
    | @closed j env _ asked alive idle channel channelsOf =>
      rw [channelsOf]
      by_cases same : k = j
      · subst same
        rw [Function.update_self]
        by_cases here : id = env.channelID
        · rw [here, AList.lookup_erase]
        · rw [AList.lookup_erase_ne here]
          exact silent.closed
      · rw [Function.update_of_ne same]
        exact silent.closed
  · cases World.roster_of_step wellformed stepped with
    | kept same =>
      have was := (same c).1 registered
      exact before c (World.registered_inside wellformed was) own here was
    | @joined j choice c' rest _ pending joined =>
      rcases (joined c).1 registered with rfl | was
      · -- A consumer that is about to be registered has an open channel.
        obtain ⟨inside, mine⟩ := (owned.sections j _ (pending ▸ List.mem_cons_self ..)).consumers c (by simp)
        have same : j = k := mine.symm.trans ((owned.owner_step grows inside).symm.trans own)
        subst same
        rw [grows.store.channel inside, (grows.identity _ (owned.channelOf c inside)).1] at here
        have joining := (agrees_of_reachable reached j).joining
        rw [World.errands, pending, List.filter_cons_of_pos rfl] at joining
        generalize rest.filter Section.errand = others at joining
        cases joining with
        | none quiet => exact absurd (quiet _ (List.mem_cons_self ..)) (by simp [Section.joins])
        | register opened fresh =>
          have found := opened.1
          rw [here, show (w.channel (w.consumer c).channel).conn = j from mine, silent.closed] at found
          contradiction
      · exact before c (World.registered_inside wellformed was) own here was
    | left pending left =>
      have was := ((left c).1 registered).2
      exact before c (World.registered_inside wellformed was) own here was

/-- The client does not open channel `id` of connection `k` for now. -/
def Unopened (k : ConnectionRef) (id : UInt16) (_ : World) (label : Label) : Prop := label.opens k id = false

instance (k : ConnectionRef) (id : UInt16) (w : World) (label : Label) : Decidable (Unopened k id w label) :=
  inferInstanceAs (Decidable (_ = _))

/-- A frame that delivers on channel `id`. -/
def Frame.deliversOn (id : UInt16) (frame : Frame) : Prop :=
  frame.header.channelID = id ∧ ∃ event, frame.payload = .deliver event

/-- Once `channel.close-ok` has been written, nothing is delivered on the channel until it is opened again. -/
theorem no_deliver_after_close {before closed after : World} {header : Header}
    (reached : broker.Reachable Unhurried before)
    (replies : before.todo k = .reply ⟨header, .channelCloseOK id⟩ :: rest)
    (written : before.step? (.run k choice) = some closed)
    (later : (broker.startingAt closed).Reachable (fun w label => Unhurried w label ∧ Unopened k id w label) after) :
    ∃ more, after.wire k = closed.wire k ++ more ∧ ∀ frame ∈ more, ¬ frame.deliversOn id := by
  have steady : Unhurried before (.run k choice) := ⟨rfl, by rw [World.cutsOff, replies]⟩
  have confirmed := reached.step steady written
  have silent : closed.Silent k id :=
    (silent_of_confirms (unreplaced_of_unhurried reached) replies).step (unreplaced_of_unhurried reached) rfl written
  have all : after.Silent k id ∧ ∃ more, after.wire k = closed.wire k ++ more ∧
    ∀ frame ∈ more, ¬ frame.deliversOn id := by
    refine later.invariant (P := fun w => w.Silent k id ∧
      ∃ more, w.wire k = closed.wire k ++ more ∧ ∀ frame ∈ more, ¬ frame.deliversOn id)
        ⟨silent, [], (List.append_nil _).symm, by simp⟩ ?_
    intro source target label during ⟨silent, more, wire, quiet⟩ ⟨met, stays⟩ stepped
    have reached := confirmed.continued (during.mono fun _ _ met => met.1)
    refine ⟨silent.step (unreplaced_of_unhurried reached) stays stepped, ?_⟩
    rcases World.wire_of_step stepped k with same | ⟨frame, appended, source_⟩
    · exact ⟨more, same.trans wire, quiet⟩
    · refine ⟨more ++ [frame], by rw [appended, wire, List.append_assoc], fun frame' member => ?_⟩
      rcases List.mem_append.1 member with old | new
      · exact quiet frame' old
      · rw [List.mem_singleton.1 new]
        rintro ⟨here, event, delivers⟩
        rcases source_ with ⟨choice, rest, rfl, pending⟩ | ⟨q, c, msg, rfl, writing, own, rfl⟩
        · have plain := (confirming_of_reachable reached k).plain (.reply frame)
            (by rw [pending]; exact List.mem_cons_self ..)
          obtain ⟨header, payload⟩ := frame
          cases delivers
          contradiction
        · exact silent.not_inPlace own here (inPlace_of_writing reached q c msg writing)
  exact all.2

/-- A channel is closed up to its reply, from a state in which its consumer has been handed one message. -/
def closing : List Label :=
  [.request 0 ⟨1, 0, false, .channelClose⟩, .run 0 { refs := [0] },
    .run 0 { messages := [⟨1, [7], "ex", "key"⟩] }, .run 0 {}]

/-- The delivery has been written by the time the channel is closed. -/
theorem no_deliver_after_close_of_written :
    let before := broker.replay Unhurried
      (topology ++ consuming ++ publishing [7] ++ dispatching 0 0 ++ [.written 0] ++ closing)
    let closed := (before.step? (.run 0 {})).getD before
    let after := (broker.startingAt closed).replay (fun w label => Unhurried w label ∧ Unopened 0 1 w label)
      [.lock 0, .exhausted 0, .wait 0]
    (closed.wire 0).getLast? = some ⟨⟨1, 0⟩, .channelCloseOK 1⟩ ∧ (after.queue 0).messages = [⟨1, [7], "ex", "key"⟩] ∧
      ∃ more, after.wire 0 = closed.wire 0 ++ more ∧ ∀ frame ∈ more, ¬ frame.deliversOn 1 :=
  have replies : (broker.replay Unhurried (topology ++ consuming ++ publishing [7] ++ dispatching 0 0 ++ [.written 0] ++
      closing)).todo 0 = [.reply ⟨⟨1, 0⟩, .channelCloseOK 1⟩] := by decide +kernel
  have written := (Option.getD_of_ne_none (Option.isSome_iff_ne_none.1 (by decide +kernel)) _).symm
  ⟨by decide +kernel, by decide +kernel, no_deliver_after_close (.of_replay _) replies written (.of_replay _)⟩

/-- The dispatcher is still writing when the channel is closed, and the delivery follows the reply. -/
theorem delivered_after_close :
    ¬ ∀ (before closed after : World) (k : ConnectionRef) (id : UInt16) (header : Header) (rest : List Section)
      (choice : Choice), broker.Reachable anyStep before →
      before.todo k = .reply ⟨header, .channelCloseOK id⟩ :: rest → before.step? (.run k choice) = some closed →
      (broker.startingAt closed).Reachable (Unopened k id) after →
      ∃ more, after.wire k = closed.wire k ++ more ∧ ∀ frame ∈ more, ¬ frame.deliversOn id := by
  intro silent
  let before := broker.replay anyStep (topology ++ consuming ++ publishing [7] ++ dispatching 0 0 ++ closing)
  let closed := (before.step? (.run 0 {})).getD before
  let after := (broker.startingAt closed).replay (Unopened 0 1) [.written 0]
  let frame : Frame := ⟨⟨1, 0⟩, .deliver ⟨1, [7], "ex", "key", "ch.1.consumer.1"⟩⟩
  have written : before.step? (.run 0 {}) = some closed :=
    (Option.getD_of_ne_none (Option.isSome_iff_ne_none.1 (by decide +kernel)) _).symm
  obtain ⟨more, wire, quiet⟩ := silent before closed after 0 1 ⟨1, 0⟩ [] {} (.of_replay _) (by decide +kernel) written
    (.of_replay _)
  have delivered : after.wire 0 = closed.wire 0 ++ [frame] := by decide +kernel
  have same : more = [frame] := List.append_cancel_left (wire.symm.trans delivered)
  exact quiet frame (same ▸ List.mem_singleton_self _) ⟨rfl, _, rfl⟩

end GolangMQ.Model
