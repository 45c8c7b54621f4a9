import GolangMQ.Requests.Completion
import GolangMQ.Requests.Failure

/-! # Consumer tags

`NewConsumer` makes up a tag from the number of consumers that the channel has. The numbers of made-up tags grow with
the channel, so that two of them never clash, but a client may have chosen a tag of the same form. As long as clients
choose none that a later request would be given, a request without a tag always gets a new one.
-/

namespace GolangMQ.Model

open Machine

/-- The tag `NewConsumer` makes up for the `n`-th consumer of a channel. -/
def generatedTag (id : UInt16) (n : ℕ) : String := s!"ch.{id}.consumer.{n}"

private theorem generatedTag_injective (id : UInt16) : Function.Injective (generatedTag id) := by
  intro n m same
  have printed : n.repr = m.repr := (String.append_right_inj _).1 same
  have digits : Nat.toDigits 10 n = Nat.toDigits 10 m := by
    simpa only [Nat.repr_eq_ofList_toDigits, String.ofList_inj] using printed
  rw [← @Nat.ofDigitChars_ten_toDigits n, digits, Nat.ofDigitChars_ten_toDigits]

def Channel.count (channel : Channel) : ℕ := channel.consumers.keys.length

private theorem Channel.count_attach (channel : Channel) (tag : String) (c : ConsumerRef) :
    (channel.attach tag c).count = if tag ∈ channel.consumers then channel.count else channel.count + 1 := by
  have keys : (channel.attach tag c).consumers.keys = tag :: channel.consumers.keys.erase tag := AList.keys_insert _
  rw [count, count, keys, List.length_cons]
  split_ifs with taken
  · have some := List.length_pos_of_mem (AList.mem_keys.1 taken)
    rw [List.length_erase_of_mem (AList.mem_keys.1 taken)]
    omega
  · rw [List.erase_of_not_mem (mt AList.mem_keys.2 taken)]

/-- The channel will not make up this tag for any consumer after its next one. -/
def Channel.Modest (channel : Channel) (tag : String) : Prop :=
  ∀ n, channel.count + 1 < n → tag ≠ generatedTag channel.id n

private theorem Channel.Modest.mono {channel channel' : Channel} {tag : String} (modest : channel.Modest tag)
    (id : channel'.id = channel.id) (more : channel.count ≤ channel'.count) : channel'.Modest tag := by
  intro n beyond
  rw [id]
  exact modest n (by omega)

/-- No consumer has a tag that the channel is yet to make up. -/
def Channel.Unclaimed (channel : Channel) : Prop :=
  ∀ n, channel.count < n → generatedTag channel.id n ∉ channel.consumers

private theorem Channel.Unclaimed.attach {channel : Channel} {tag : String} {c : ConsumerRef}
    (unclaimed : channel.Unclaimed)
    (modest : channel.Modest tag) : (channel.attach tag c).Unclaimed := by
  intro n beyond member
  rw [Channel.count_attach] at beyond
  have known : generatedTag channel.id n = tag ∨ generatedTag channel.id n ∈ channel.consumers :=
    (AList.mem_insert _).1 member
  split_ifs at beyond with taken
  · exact unclaimed n beyond (known.elim (fun same => same ▸ taken) fun old => old)
  · rcases known with same | old
    · exact modest n beyond same.symm
    · exact unclaimed n (by omega) old

/-- What a pending section may still attach. -/
def Section.Modest (w : World) : Section → Prop
  | .consume ch _ _ tag => tag ≠ "" → (w.channel ch).Modest tag
  | .attach c _ => (w.channel (w.consumer c).channel).Modest (w.consumer c).tag
  | _ => True

/-- The sections that a consumer's tag passes through. -/
def Section.names : Section → Bool
  | .consume .. | .attach .. => true
  | _ => false

/-- A client that chooses a tag chooses none that its channel will make up for a later consumer. -/
def Unforged (w : World) : Label → Prop
  | .request k env =>
    match env.request with
    | .consume _ tag => env.malformed = false → tag ≠ "" → ∀ ch, (w.channelsOf k).lookup env.channelID = some ch →
        (w.channel ch).Modest tag
    | _ => True
  | _ => True

variable {w w' v : World} {label : Label} {k : ConnectionRef} {q : QueueRef} {c : ConsumerRef} {ch : ChannelRef}
  {choice : Choice} {first s : Section} {next : List Section} {queue tag : String}

private theorem Section.Modest.of_names (other : s.names = false) : s.Modest w := by
  cases s with
  | consume | attach => contradiction
  | _ => trivial

private theorem World.count_of_step (stepped : w.step? label = some w') (inside : ch < w.channel.size) :
    (w.channel ch).count ≤ (w'.channel ch).count := by
  cases World.tables_of_step stepped with
  | kept channel | accepted channel | closed _ _ _ channel | departed _ channel => rw [channel]
  | opened _ _ _ channel => rw [channel, w.channel.cell_alloc_of_ne _ (Nat.ne_of_lt inside)]
  | @attached k choice c header rest _ pending channel =>
    rw [channel]
    rcases w.channel.cell_modify_eq_or (w.consumer c).channel (·.attach (w.consumer c).tag c) ch with
      kept | ⟨-, written⟩
    · rw [kept]
    · rw [written, Channel.count_attach]
      split <;> omega

private theorem Section.Modest.mono (modest : s.Modest w) (owned : Owned w) (mine : s.OwnedBy w k)
    (stepped : w.step? label = some w') : s.Modest w' := by
  have grows := World.grows_of_step stepped
  cases s with
  | consume ch header queue tag =>
    obtain ⟨inside, -⟩ := mine.channels ch (by simp)
    exact fun chosen => (modest chosen).mono (grows.identity ch inside).1 (World.count_of_step stepped inside)
  | attach c header =>
    obtain ⟨known, -⟩ := mine.consumers c (by simp)
    have inside := owned.channelOf c known
    change (w'.channel (w'.consumer c).channel).Modest (w'.consumer c).tag
    rw [grows.store.channel known, grows.store.tag known]
    exact Channel.Modest.mono modest (grows.identity _ inside).1 (World.count_of_step stepped inside)
  | _ => trivial

private theorem World.consumerTag_empty (w : World) (ch : ChannelRef) :
    w.consumerTag ch "" = generatedTag (w.channel ch).id ((w.channel ch).count + 1) := if_pos rfl

private theorem World.consumerTag_chosen (w : World) (ch : ChannelRef) (chosen : tag ≠ "") :
    w.consumerTag ch tag = tag :=
  if_neg chosen

/-- A made-up tag is the one for the next consumer, so that no later one gets it again. -/
private theorem World.modest_consumerTag (modest : tag ≠ "" → (w.channel ch).Modest tag) :
    (w.channel ch).Modest (w.consumerTag ch tag) := by
  by_cases chosen : tag = ""
  · subst chosen
    rw [World.consumerTag_empty]
    intro n beyond same
    have := generatedTag_injective _ same
    omega
  · rw [World.consumerTag_chosen w ch chosen]
    exact modest chosen

private theorem modest_of_runs (modest : first.Modest w) (runs : Runs w k choice first w' next) :
    ∀ s ∈ next, s.Modest w' := by
  have unnamed (others : ∀ s ∈ next, s.names = false) : ∀ s ∈ next, s.Modest w' := fun s member =>
    .of_names (others s member)
  have leads (s : Section) (member : s ∈ next) : Leads first s := leads_of_runs runs member
  cases runs with
  | @consume ch header queue tag q declared fresh =>
    have new : (w.apply (.newConsumer (w.consumerTag ch tag) q ch)).consumer w.consumer.size =
        { tag := w.consumerTag ch tag, queue := q, channel := ch } := w.consumer.cell_alloc_self _
    have attached : (Section.attach w.consumer.size header).Modest
        (w.apply (.newConsumer (w.consumerTag ch tag) q ch)) := by
      dsimp only [Section.Modest]
      rw [new]
      exact World.modest_consumerTag modest
    simpa [Section.Modest] using attached
  | consumeRefused => exact unnamed (by simp [Section.names])
  | _ =>
    refine unnamed fun s member => ?_
    cases leads s member <;> rfl

/-- The sections an envelope leads to, when its client has chosen no tag that is yet to be made up. -/
private theorem modest_handle (env : Envelope) (unforged : Unforged w (.request k env)) :
    ∀ s ∈ (w.handle k env).2, s.Modest w := by
  refine w.handle_cases k env (P := fun _ next => ∀ s ∈ next, s.Modest w)
    (fun id _ => ?_) (fun _ => ?_) (fun _ => ?_) (fun ch found => ?_)
  · simp [Section.Modest]
  · intro s member
    rcases List.mem_append.1 member with cleanup | last
    · obtain ⟨ch, -, rfl⟩ := Option.map_eq_some_iff.1 (Option.mem_toList.1 cleanup)
      trivial
    · rw [List.mem_singleton.1 last]
      trivial
  · simp [Section.Modest]
  · cases decodes : env.malformed <;> cases asked : env.request
    all_goals simp [Model.route, asked, decodes, Section.Modest]
    intro chosen
    simp only [Unforged, asked] at unforged
    exact unforged decodes chosen ch found

/-- What holds between any two steps. -/
structure Unclaimed (w : World) : Prop where
  channels : ∀ ch, (w.channel ch).Unclaimed
  pending : ∀ k, ∀ s ∈ w.todo k, s.Modest w

namespace Unclaimed

private theorem init : Unclaimed broker.init where
  channels _ _ _ := AList.notMem_empty _
  pending _ _ member := absurd member List.not_mem_nil

private theorem channels_step (unclaimed : Unclaimed w) (stepped : w.step? label = some w') (ch : ChannelRef) :
    (w'.channel ch).Unclaimed := by
  cases World.tables_of_step stepped with
  | kept channel | accepted channel | closed _ _ _ channel | departed _ channel =>
    rw [channel]
    exact unclaimed.channels ch
  | opened _ _ _ channel =>
    rw [channel]
    by_cases new : ch = w.channel.size
    · rw [new, Heap.cell_alloc_self]
      exact fun _ _ => AList.notMem_empty _
    · rw [w.channel.cell_alloc_of_ne _ new]
      exact unclaimed.channels ch
  | @attached k choice c header rest _ pending channel =>
    rw [channel]
    rcases w.channel.cell_modify_eq_or (w.consumer c).channel (·.attach (w.consumer c).tag c) ch with
      kept | ⟨here, written⟩
    · rw [kept]
      exact unclaimed.channels ch
    · have modest : (Section.attach c header).Modest w := unclaimed.pending k _ (pending ▸ List.mem_cons_self ..)
      rw [written]
      subst here
      exact (unclaimed.channels _).attach modest

private theorem pending_step (unclaimed : Unclaimed w) (owned : Owned w) (unforged : Unforged w label)
    (stepped : w.step? label = some w') (j : ConnectionRef) : ∀ s ∈ w'.todo j, s.Modest w' := by
  have old : ∀ s ∈ w.todo j, s.Modest w' := fun s member =>
    (unclaimed.pending j s member).mono owned (owned.sections j s member) stepped
  by_cases own : ∃ choice, label = .run j choice
  · obtain ⟨choice, rfl⟩ := own
    obtain ⟨first, rest, middle, next, pending, ran, rfl, inside⟩ := World.run_inv stepped
    have led := modest_of_runs (unclaimed.pending j first (pending ▸ List.mem_cons_self ..)) (runs_of_runSection ran)
    rw [(World.rests_of_runSection ran).todo_setTodo inside, Function.update_self]
    intro s member
    rcases List.mem_append.1 member with new | waiting
    · exact led s new
    · exact old s (pending ▸ List.mem_cons_of_mem _ waiting)
  · obtain ⟨effect, -, happens⟩ := World.happens_of_step stepped
    rcases World.todo_of_other happens (not_exists.1 own) with same | ⟨env, rfl, asked⟩ | ⟨-, torn⟩
    · rw [same]
      exact old
    · rw [asked]
      exact fun s member => (modest_handle env unforged s member).mono owned
        (owned.ownedBy_handle j env s member) stepped
    · rw [torn]
      exact fun s member => .of_names (List.mem_singleton.1 member ▸ rfl)

end Unclaimed

theorem unclaimed_of_reachable (reached : broker.Reachable Unforged w) : Unclaimed w := by
  refine reached.invariant (P := Unclaimed) .init ?_
  intro source target label before unclaimed allowed stepped
  have owned := owned_of_reachable before
  exact ⟨unclaimed.channels_step stepped, unclaimed.pending_step owned allowed stepped⟩

/-- The connection got this answer, unless the write failed. -/
def World.Answers (w w' : World) (k : ConnectionRef) (frame : Frame) : Prop :=
  w'.wire k = w.wire k ++ [frame] ∨ w'.wire k = w.wire k

/-- `RegisterConsumer` has made a consumer with this tag. -/
structure World.Enrols (w w' : World) (k : ConnectionRef) (ch : ChannelRef) (q : QueueRef) (header : Header)
    (tag : String) : Prop where
  consumer : w'.consumer = w.consumer.alloc { tag, queue := q, channel := ch }
  queue : w'.queue = (w.queue.modify q (·.registerConsumer w.consumer.size)).modify q Queue.signal
  channel : w'.channel = w.channel.modify ch (·.attach tag w.consumer.size)
  answer : w.Answers w' k ⟨header, .consumeOK tag⟩

/-- `RegisterConsumer` has returned the error for a tag in use. -/
structure World.Refuses (w w' : World) (k : ConnectionRef) (ch : ChannelRef) (header : Header)
    (tag : String) : Prop where
  store : w'.toStore = w.toStore
  channel : w'.channel = w.channel
  answer : w.Answers w' k ⟨header, .error (.broker (.consumerTagInUse tag (w.channel ch).id))⟩

@[simp] theorem World.answers_setTodo {frame : Frame} {sections : List Section} :
    (w.setTodo k sections).Answers w' k frame ↔ w.Answers w' k frame := by
  simp only [World.Answers, World.wire_setTodo]

private theorem World.serves_reply {frame : Frame} (serves : v.Serves k w') (pending : v.todo k = [.reply frame]) :
    w'.toStore = v.toStore ∧ w'.channel = v.channel ∧ v.Answers w' k frame := by
  obtain ⟨_, _, _, runs, todo, serves⟩ := serves.cons_inv pending
  cases runs with
  | reply =>
    obtain rfl := serves.nil_inv todo
    refine ⟨rfl, rfl, ?_⟩
    rw [World.Answers, World.wire_setTodo]
    rcases v.connection.cell_modify_eq_or k (fun conn => { conn with wire := conn.wire ++ [frame] }) k with
      kept | ⟨-, written⟩
    · exact .inr (congrArg Connection.wire kept)
    · exact .inl (congrArg Connection.wire written)
  | unsent =>
    obtain rfl := serves.nil_inv todo
    exact ⟨rfl, rfl, .inr (by rw [World.wire_setTodo])⟩

private theorem World.serves_attach {header : Header} (serves : v.Serves k w')
    (pending : v.todo k = [.attach c header]) :
    w'.toStore = v.toStore ∧ w'.channel = v.channel.modify (v.consumer c).channel (·.attach (v.consumer c).tag c) ∧
      v.Answers w' k ⟨header, .consumeOK (v.consumer c).tag⟩ := by
  obtain ⟨_, _, _, runs, todo, serves⟩ := serves.cons_inv pending
  cases runs with
  | attach =>
    obtain ⟨store, channel, answer⟩ := World.serves_reply serves todo
    exact ⟨store, channel, World.answers_setTodo.1 answer⟩

/-- What is left of `RegisterConsumer` once the consumer has been made. -/
private theorem World.serves_register {header : Header} (serves : v.Serves k w')
    (pending : v.todo k = [.register c, .attach c header]) (made : v.consumer c = { tag, queue := q, channel := ch }) :
    w'.consumer = v.consumer ∧ w'.queue = (v.queue.modify q (·.registerConsumer c)).modify q Queue.signal ∧
      w'.channel = v.channel.modify ch (·.attach tag c) ∧ v.Answers w' k ⟨header, .consumeOK tag⟩ := by
  obtain ⟨_, _, _, runs, todo, serves⟩ := serves.cons_inv pending
  cases runs with
  | register =>
    obtain ⟨_, _, _, runs, todo, serves⟩ := serves.cons_inv todo
    cases runs with
    | signal =>
      obtain ⟨store, channel, answer⟩ := World.serves_attach serves todo
      have consumer : w'.consumer = v.consumer := (congrArg Store.consumer store).trans rfl
      have queue : w'.queue = (v.queue.modify (v.consumer c).queue (·.registerConsumer c)).modify (v.consumer c).queue
        Queue.signal := congrArg Store.queue store
      have channel : w'.channel = v.channel.modify (v.consumer c).channel (·.attach (v.consumer c).tag c) := channel
      have answer : v.Answers w' k ⟨header, .consumeOK (v.consumer c).tag⟩ :=
        World.answers_setTodo.1 (World.answers_setTodo.1 answer)
      rw [made] at queue channel answer
      exact ⟨consumer, queue, channel, answer⟩

private theorem World.serves_consume {header : Header} (serves : v.Serves k w')
    (pending : v.todo k = [.consume ch header queue tag]) (declared : v.queues.lookup queue = some q) :
    (v.consumerTag ch tag ∉ (v.channel ch).consumers ∧ v.Enrols w' k ch q header (v.consumerTag ch tag)) ∨
      (v.consumerTag ch tag ∈ (v.channel ch).consumers ∧ v.Refuses w' k ch header (v.consumerTag ch tag)) := by
  obtain ⟨_, _, _, runs, todo, serves⟩ := serves.cons_inv pending
  cases runs with
  | consumeRefused refused =>
    obtain ⟨store, channel, answer⟩ := World.serves_reply serves todo
    simp only [World.newConsumer, declared] at refused
    split_ifs at refused with taken
    cases refused
    exact .inr ⟨taken, store, channel, World.answers_setTodo.1 answer⟩
  | @consume _ _ _ _ q' found fresh =>
    obtain rfl : q' = q := Option.some.inj (found.symm.trans declared)
    obtain ⟨consumer, queue, channel, answer⟩ := World.serves_register serves todo (v.consumer.cell_alloc_self _)
    exact .inl ⟨fresh, consumer, queue, channel, World.answers_setTodo.1 answer⟩

private theorem World.handle_consume {env : Envelope} (opened : (w.channelsOf k).lookup env.channelID = some ch)
    (decodes : env.malformed = false) (asked : env.request = .consume queue tag) :
    w.handle k env = (w, [.consume ch env.header queue tag]) := by
  have found : (w.connection k).channels.lookup env.channelID = some ch := opened
  simp only [World.handle, asked, found, Model.route, decodes, Bool.false_eq_true, if_false]

/-- `RegisterConsumer` returns, and the connection gets the answer. -/
private theorem World.exists_serves_consume {header : Header} (inside : k < v.connection.size) (unlocked : v.Unlocked)
    (pending : v.todo k = [.consume ch header queue tag]) :
    ∃ w' answer, v.Serves k w' ∧ w'.wire k = v.wire k ++ [⟨header, answer⟩] := by
  cases made : v.newConsumer ch queue tag with
  | error error =>
    have ran : v.runSection k {} (.consume ch header queue tag) =
        some (v, [.reply ⟨header, .error (.broker error)⟩]) := by
      simp only [World.runSection, made]
    obtain ⟨w', answered⟩ := World.exists_serves_cons {} inside pending ran rfl fun _ _ => World.exists_serves_reply
    exact ⟨w', _, answered⟩
  | ok next =>
    have ran : v.runSection k {} (.consume ch header queue tag) =
        some (next, [.register v.consumer.size, .attach v.consumer.size header]) := by
      simp only [World.runSection, made]
    have free : next.Unlocked := unlocked.runs (runs_of_runSection ran)
    have silent : next.wire = v.wire := (World.wire_of_runs inside (runs_of_runSection ran)).resolve_right (by simp)
    have answered : ∃ w', v.Serves k w' ∧
        w'.wire k = v.wire k ++ [⟨header, .consumeOK (next.consumer v.consumer.size).tag⟩] := by
      refine World.exists_serves_cons {} inside pending ran silent fun registering same still left => ?_
      have registered : registering.runSection k {} (.register v.consumer.size) =
          some (registering.apply (.registerConsumer v.consumer.size),
            [.signal (registering.consumer v.consumer.size).queue]) := if_pos (same ▸ free _)
      subst same
      refine World.exists_serves_cons {} still left registered rfl fun signalling same still left => ?_
      subst same
      refine World.exists_serves_cons {} still left rfl rfl fun attaching same still left => ?_
      subst same
      exact World.exists_serves_cons {} still left rfl rfl fun _ _ => World.exists_serves_reply
    obtain ⟨w', answered⟩ := answered
    exact ⟨w', _, answered⟩

/-- A request is answered when the write succeeds. -/
private theorem World.exists_handles_consume {env : Envelope} (opened : (w.channelsOf k).lookup env.channelID = some ch)
    (decodes : env.malformed = false) (asked : env.request = .consume queue tag) (alive : w.connected k = true)
    (idle : w.todo k = []) (unlocked : w.Unlocked) :
    ∃ w', w.Handles k env w' ∧ ∃ answer, w'.wire k = w.wire k ++ [⟨env.header, answer⟩] := by
  have handled := World.handle_consume opened decodes asked
  have inside : k < w.connection.size := World.inside_of_live alive
  have todo : (w.setTodo k [.consume ch env.header queue tag]).todo k = [.consume ch env.header queue tag] := by
    rw [(World.Rests.refl w).todo_setTodo inside, Function.update_self]
  have still : k < (w.setTodo k [.consume ch env.header queue tag]).connection.size := by
    rw [World.setTodo, World.modifyConnection, Heap.size_modify]
    exact inside
  obtain ⟨w', answer, serves, wrote⟩ := World.exists_serves_consume still unlocked todo
  refine ⟨w', .intro alive idle ?_, answer, ?_⟩
  · rw [handled]
    exact serves
  · rw [wrote, World.wire_setTodo]

/-- A request without a tag gets a new one, and a request with a tag is refused exactly when the tag is in use, in the
runs in which no client has chosen a tag that was yet to be made up. -/
theorem generated_tags_fresh {env : Envelope} (reached : broker.Reachable Unforged w)
    (opened : (w.channelsOf k).lookup env.channelID = some ch) (decodes : env.malformed = false)
    (asked : env.request = .consume queue tag) (declared : w.queues.lookup queue = some q) :
    (w.connected k = true → w.todo k = [] → w.Unlocked →
      ∃ w', w.Handles k env w' ∧ ∃ answer, w'.wire k = w.wire k ++ [⟨env.header, answer⟩]) ∧
    ∀ w', w.Handles k env w' →
      (tag = "" → ∃ fresh ∉ (w.channel ch).consumers, w.Enrols w' k ch q env.header fresh) ∧
      (tag ≠ "" → (w.Refuses w' k ch env.header tag ↔ tag ∈ (w.channel ch).consumers) ∧
        (tag ∉ (w.channel ch).consumers → w.Enrols w' k ch q env.header tag)) := by
  refine ⟨World.exists_handles_consume opened decodes asked, fun w' handles => ?_⟩
  obtain ⟨-, -, serves, todo⟩ := handles.inv
  rw [World.handle_consume opened decodes asked] at serves todo
  have unclaimed := (unclaimed_of_reachable reached).channels ch
  have outcome : (w.consumerTag ch tag ∉ (w.channel ch).consumers ∧
        w.Enrols w' k ch q env.header (w.consumerTag ch tag)) ∨
      (w.consumerTag ch tag ∈ (w.channel ch).consumers ∧ w.Refuses w' k ch env.header (w.consumerTag ch tag)) := by
    rcases World.serves_consume serves todo declared with ⟨free, enrols⟩ | ⟨taken, refuses⟩
    · exact .inl ⟨free, enrols.consumer, enrols.queue, enrols.channel, World.answers_setTodo.1 enrols.answer⟩
    · exact .inr ⟨taken, refuses.store, refuses.channel, World.answers_setTodo.1 refuses.answer⟩
  refine ⟨fun none => ?_, fun chosen => ?_⟩
  · subst none
    rw [World.consumerTag_empty] at outcome
    rcases outcome with ⟨free, enrols⟩ | ⟨taken, -⟩
    · exact ⟨_, free, enrols⟩
    · exact absurd taken (unclaimed _ (Nat.lt_succ_self _))
  · rw [World.consumerTag_chosen w ch chosen] at outcome
    rcases outcome with ⟨free, enrols⟩ | ⟨taken, refuses⟩
    · refine ⟨⟨fun refuses => ?_, fun taken => absurd taken free⟩, fun _ => enrols⟩
      have grown := congrArg Heap.size (enrols.consumer.symm.trans (congrArg Store.consumer refuses.store))
      exact absurd grown (Nat.succ_ne_self _)
    · exact ⟨⟨fun _ => taken, fun _ => refuses⟩, fun free => absurd taken free⟩

/-- The tag that a request asks for. -/
def Label.chosenTag : Label → Option String
  | .request _ env =>
    match env.request with
    | .consume _ tag => if tag = "" then none else some tag
    | _ => none
  | _ => none

/-- A tag of another form is never made up. -/
private theorem unforged_of_chosenTag
    (otherwise : ∀ tag, label.chosenTag = some tag → ∀ id n, tag ≠ generatedTag id n) :
    Unforged w label := by
  cases label with
  | request k env =>
    cases asked : env.request with
    | consume queue tag =>
      simp only [Unforged, asked]
      intro _ chosen ch _ n _
      exact otherwise tag (by simp [Label.chosenTag, asked, chosen]) _ n
    | _ => simp only [Unforged, asked]
  | _ => trivial

private theorem mine_ne_generatedTag (id : UInt16) (n : ℕ) : "mine" ≠ generatedTag id n := by
  intro same
  have first := congrArg (fun tag => tag.toList.head?) same
  simp only [generatedTag, String.toList_append, List.head?_append] at first
  exact absurd (show some 'm' = some 'c' from first) (by decide)

/-- A consumer of the queue with a tag of the client's choice. -/
def tagged (tag : String) : List Label := topology ++ served 0 ⟨1, 0, false, .consume "q" tag⟩ [{}, {}, {}, {}, {}]

def untagged : Envelope := ⟨1, 0, false, .consume "q" ""⟩

/-- The second consumer of a channel gets a tag although the client has chosen the first one's. -/
theorem generated_tags_fresh_after_mine :
    let w := (broker.run? {} (tagged "mine")).getD {}
    (w.channel 0).consumers.keys = ["mine"] ∧
      ∃ w', w.Handles 0 untagged w' ∧ ∃ fresh ∉ (w.channel 0).consumers, w.Enrols w' 0 0 0 ⟨1, 0⟩ fresh := by
  intro w
  have ran : broker.run? {} (tagged "mine") = some w :=
    (Option.getD_of_ne_none (Option.isSome_iff_ne_none.1 (by decide +kernel)) _).symm
  have tags : ∀ label ∈ tagged "mine", label.chosenTag = none ∨ label.chosenTag = some "mine" := by decide +kernel
  have admitted : ∀ label ∈ tagged "mine", ∀ state, Unforged state label := by
    intro label member state
    refine unforged_of_chosenTag fun tag asked => ?_
    rcases tags label member with none | mine
    · rw [none] at asked
      contradiction
    · obtain rfl : "mine" = tag := Option.some.inj (mine.symm.trans asked)
      exact mine_ne_generatedTag
  have opened : (w.channelsOf 0).lookup untagged.channelID = some 0 := by decide +kernel
  have declared : w.queues.lookup "q" = some 0 := by decide +kernel
  obtain ⟨returns, outcome⟩ := generated_tags_fresh (.of_run admitted ran) opened rfl rfl declared
  obtain ⟨w', handles, -⟩ :=
    returns (by decide +kernel) (by decide +kernel) (World.unlocked_of_declared (by decide +kernel))
  exact ⟨by decide +kernel, w', handles, (outcome w' handles).1 rfl⟩

/-- The client has chosen the tag that is made up for the second consumer: a request without a tag is refused. -/
theorem generated_tag_in_use :
    let w := broker.replay anyStep (tagged "ch.1.consumer.2")
    let w' := (broker.run? w (served 0 untagged [{}, {}])).getD w
    (w.channelsOf 0).lookup 1 = some 0 ∧ w.queues.lookup "q" = some 0 ∧
      (w.channel 0).consumers.keys = ["ch.1.consumer.2"] ∧ w.Handles 0 untagged w' ∧
      w'.wire 0 = w.wire 0 ++ [⟨⟨1, 0⟩, .error (.broker (.consumerTagInUse "ch.1.consumer.2" 1))⟩] ∧
      (w'.channel 0).consumers.keys = ["ch.1.consumer.2"] ∧ w'.consumer.size = w.consumer.size := by
  intro w w'
  have ran : broker.run? w (served 0 untagged [{}, {}]) = some w' :=
    (Option.getD_of_ne_none (Option.isSome_iff_ne_none.1 (by decide +kernel)) w).symm
  exact ⟨by decide +kernel, by decide +kernel, by decide +kernel, ⟨_, ran, by decide +kernel⟩, by decide +kernel,
    by decide +kernel, by decide +kernel⟩

end GolangMQ.Model
