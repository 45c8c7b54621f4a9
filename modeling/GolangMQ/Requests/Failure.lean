import GolangMQ.Requests.Handling

/-! # Requests that fail

A request fails when its payload does not decode, when it names an exchange or a queue that does not exist
or a consumer tag that is taken, or when its channel is not open. Most handlers then leave everything as
it was and answer with an error or not at all. Four do not look: `ChannelOpen` and the two declarations go on with
whatever `json.Unmarshal` has filled in, and `HandleQueueBind` drops the error of `BindQueue`.
-/

namespace GolangMQ.Model

open Machine

/-- The replies that report success. -/
def Payload.positive : Payload → Bool
  | .channelOpenOK _ | .channelCloseOK _ | .consumeOK _ | .queueDeclareOK _ | .exchangeDeclareOK _ | .queueBindOK =>
    true
  | .error _ | .deliver _ => false

/-- The requests whose handler calls `json.Unmarshal`. -/
def Request.decoded : Request → Bool
  | .channelClose | .other => false
  | _ => true

namespace World

/-- The state of the broker and of the connections' channels is what it was. -/
structure Unchanged (w w' : World) : Prop where
  store : w'.toStore = w.toStore
  queues : w'.queues = w.queues
  exchanges : w'.exchanges = w.exchanges
  exchange : w'.exchange = w.exchange
  channel : w'.channel = w.channel
  channelsOf : w'.channelsOf = w.channelsOf

/-- No reply that reports success has been written to the connection. -/
def Declines (w w' : World) (k : ConnectionRef) : Prop :=
  ∃ frames, w'.wire k = w.wire k ++ frames ∧ ∀ frame ∈ frames, frame.payload.positive = false

/-- The request names what does not exist, or a tag that is in use. -/
def Unserviceable (w : World) (ch : ChannelRef) : Request → Prop
  | .publish event => w.exchanges.lookup event.exchange = none
  | .consume queue tag => w.queues.lookup queue = none ∨ w.consumerTag ch tag ∈ (w.channel ch).consumers
  | .queueBind queue exchange _ => w.exchanges.lookup exchange = none ∨ w.queues.lookup queue = none
  | _ => False

/-- The handling of the envelope fails. -/
def Fails (w : World) (k : ConnectionRef) (env : Envelope) : Prop :=
  match env.request with
  | .channelOpen _ => env.malformed = true
  | .channelClose => False
  | request => ∀ ch ∈ (w.channelsOf k).lookup env.channelID,
      env.malformed = true ∧ request.decoded = true ∨ w.Unserviceable ch request

/-- Among the failing requests, those whose handler goes on: an undecodable channel.open, an undecodable
declaration on an open channel, and a decodable queue.bind on an open channel. -/
def Overlooks (w : World) (k : ConnectionRef) (env : Envelope) : Prop :=
  match env.request with
  | .channelOpen _ => True
  | .queueDeclare .. | .exchangeDeclare _ => env.channelID ∈ w.channelsOf k
  | .queueBind .. => env.channelID ∈ w.channelsOf k ∧ env.malformed = false
  | _ => False

end World

/-- Sections that fail in `w`, or report a failure. -/
def Section.Failing (w : World) : Section → Prop
  | .publish event _ => w.exchanges.lookup event.exchange = none
  | .consume ch _ queue tag => w.queues.lookup queue = none ∨ w.consumerTag ch tag ∈ (w.channel ch).consumers
  | .reply frame => frame.payload.positive = false
  | _ => False

variable {w w' : World} {k : ConnectionRef} {env : Envelope}

private theorem not_declines_of_positive {frame : Frame} (wrote : w'.wire k = w.wire k ++ [frame])
    (positive : frame.payload.positive = true) : ¬ w.Declines w' k := by
  rintro ⟨frames, written, negative⟩
  obtain rfl : [frame] = frames := List.append_cancel_left (wrote.symm.trans written)
  exact absurd positive (by simp [negative frame])

/-- The first sections of a request that fails, unless its handler overlooks it. -/
private theorem failing_of_handle (fails : w.Fails k env) (heeded : ¬ w.Overlooks k env) :
    (w.handle k env).1 = w ∧ ∀ s ∈ (w.handle k env).2, s.Failing w := by
  refine w.handle_cases k env (P := fun w' next => w' = w ∧ ∀ s ∈ next, s.Failing w)
    (fun id asked => ?_) (fun asked => ?_) (fun _ => ?_) (fun ch found => ?_)
  · exact absurd (by simp only [World.Overlooks, asked]) heeded
  · simp only [World.Fails, asked] at fails
  · exact ⟨rfl, by simp [Section.Failing, Payload.positive]⟩
  · have opened : env.channelID ∈ w.channelsOf k := AList.lookup_isSome.1 (by rw [World.channelsOf, found]; rfl)
    refine ⟨rfl, ?_⟩
    dsimp only [Model.route]
    cases asked : env.request with
    | channelOpen id => exact absurd (by simp only [World.Overlooks, asked]) heeded
    | channelClose => simp only [World.Fails, asked] at fails
    | publish event =>
      simp only [World.Fails, asked] at fails
      rcases fails ch found with ⟨malformed, -⟩ | missing
      · simp [malformed]
      · dsimp only
        split
        · simp
        · simpa [Section.Failing, World.Unserviceable] using missing
    | consume queue tag =>
      simp only [World.Fails, asked] at fails
      dsimp only
      split
      · simp [Section.Failing, Payload.positive]
      · next decodes =>
        rcases fails ch found with ⟨malformed, -⟩ | refused
        · exact absurd malformed decodes
        · simpa [Section.Failing, World.Unserviceable] using refused
    | ack tag | nack tag requeue =>
      simp only [World.Fails, asked] at fails
      rcases fails ch found with ⟨malformed, -⟩ | impossible
      · simp [malformed, Section.Failing, Payload.positive]
      · exact absurd impossible (by simp [World.Unserviceable])
    | queueDeclare | exchangeDeclare => exact absurd (by simpa only [World.Overlooks, asked] using opened) heeded
    | queueBind queue exchange routingKey =>
      dsimp only
      split
      · simp [Section.Failing, Payload.positive]
      · next decodes =>
        exact absurd (by simpa [World.Overlooks, asked, opened] using decodes) heeded
    | other => simp

namespace World

private theorem consumerTag_congr (same : w'.channel = w.channel) (ch : ChannelRef) (tag : String) :
    w'.consumerTag ch tag = w.consumerTag ch tag := by
  rw [consumerTag, consumerTag, same]

/-- A failing section changes nothing and leads to nothing but the report of the failure. -/
private theorem unchanged_of_runs {v middle : World} {choice : Choice} {first : Section} {next : List Section}
    (failing : first.Failing w) (unchanged : w.Unchanged v) (runs : Runs v k choice first middle next) :
    w.Unchanged middle ∧ ∀ s ∈ next, s.Failing w := by
  cases runs with
  | @publishUnknown event report =>
    have kept := v.channelsOf_kept k (fun conn => { conn with published := conn.published ++ [event] }) rfl
    refine ⟨⟨unchanged.store, unchanged.queues, unchanged.exchanges, unchanged.exchange, unchanged.channel,
      kept.trans unchanged.channelsOf⟩, ?_⟩
    cases report <;> simp [Section.Failing, Payload.positive]
  | publish found =>
    rw [unchanged.exchanges] at found
    exact absurd (failing.symm.trans found) (by simp)
  | consumeRefused => exact ⟨unchanged, by simp [Section.Failing, Payload.positive]⟩
  | consume declared fresh =>
    rw [unchanged.queues] at declared
    rw [consumerTag_congr unchanged.channel, unchanged.channel] at fresh
    rcases failing with missing | taken
    · exact absurd (missing.symm.trans declared) (by simp)
    · exact absurd taken fresh
  | @reply frame =>
    have kept := v.channelsOf_kept k (fun conn => { conn with wire := conn.wire ++ [frame] }) rfl
    exact ⟨⟨unchanged.store, unchanged.queues, unchanged.exchanges, unchanged.exchange, unchanged.channel,
      kept.trans unchanged.channelsOf⟩, by simp⟩
  | unsent => exact ⟨unchanged, by simp⟩
  | _ => exact absurd failing (by simp [Section.Failing])

/-- Nothing but a failure is written. -/
private theorem declines_of_runs {v middle : World} {choice : Choice} {first : Section} {next : List Section}
    (inside : k < v.connection.size) (failing : first.Failing w) (declines : w.Declines v k)
    (runs : Runs v k choice first middle next) : w.Declines middle k := by
  obtain ⟨frames, written, negative⟩ := declines
  rcases wire_of_runs inside runs with same | ⟨frame, rfl, wrote⟩
  · exact ⟨frames, by rw [same, written], negative⟩
  · refine ⟨frames ++ [frame], by rw [wrote, Function.update_self, written, List.append_assoc], ?_⟩
    intro other member
    rcases List.mem_append.1 member with old | new
    · exact negative other old
    · rw [List.mem_singleton.1 new]
      exact failing

/-- The handler of a request that fails and is not overlooked. -/
private theorem unchanged_of_handles (fails : w.Fails k env) (heeded : ¬ w.Overlooks k env)
    (handles : w.Handles k env w') :
    w.Unchanged w' ∧ w.Declines w' k := by
  obtain ⟨same, failing⟩ := failing_of_handle fails heeded
  obtain ⟨alive, idle, serves, pending⟩ := handles.inv
  rw [same] at serves pending
  have started := w.aligned_setTodo k (w.handle k env).2
  refine serves.invariant (P := fun v => w.Unchanged v ∧ w.Declines v k) (C := Section.Failing w)
    (by rwa [pending]) ?_ ⟨⟨rfl, rfl, rfl, rfl, rfl, started.channelsOf⟩, [], by simp, by simp⟩
  rintro v middle choice first next inside failing runs ⟨unchanged, declines⟩
  obtain ⟨kept, leads⟩ := unchanged_of_runs failing unchanged runs
  obtain ⟨frames, written, negative⟩ := declines_of_runs inside failing declines runs
  refine ⟨leads, fun sections => ⟨?_, frames, by rw [wire_setTodo, written], negative⟩⟩
  have later := middle.aligned_setTodo k sections
  exact ⟨kept.store, kept.queues, kept.exchanges, kept.exchange, kept.channel, later.channelsOf.trans kept.channelsOf⟩

/-- A reply that is all there is to do is written. -/
theorem exists_serves_reply {frame : Frame} (inside : k < w.connection.size) (pending : w.todo k = [.reply frame]) :
    ∃ w', w.Serves k w' ∧ w'.wire k = w.wire k ++ [frame] := by
  have ran : w.runSection k {} (.reply frame) =
      some (w.modifyConnection k fun conn => { conn with wire := conn.wire ++ [frame] }, []) := rfl
  have done := (rests_of_runSection ran).todo_setTodo inside []
  refine ⟨_, .cons {} pending ran (.nil ?_), ?_⟩
  · rw [List.append_nil, done, Function.update_self]
  · rw [wire_setTodo, wire, modifyConnection, Heap.cell_modify_self _ _ inside]
    rfl

/-- A section that writes nothing, and then what ends in a reply. -/
theorem exists_serves_cons {frame : Frame} {first : Section} {middle : World} {rest next : List Section}
    (choice : Choice) (inside : k < w.connection.size) (pending : w.todo k = first :: rest)
    (ran : w.runSection k choice first = some (middle, next)) (silent : middle.wire = w.wire)
    (later : ∀ v : World, v = middle.setTodo k (next ++ rest) → k < v.connection.size → v.todo k = next ++ rest →
      ∃ w', v.Serves k w' ∧ w'.wire k = v.wire k ++ [frame]) :
    ∃ w', w.Serves k w' ∧ w'.wire k = w.wire k ++ [frame] := by
  have rests := rests_of_runSection ran
  have left : (middle.setTodo k (next ++ rest)).todo k = next ++ rest := by
    rw [rests.todo_setTodo inside, Function.update_self]
  have still : k < (middle.setTodo k (next ++ rest)).connection.size := by
    rw [setTodo, modifyConnection, Heap.size_modify, rests.size]
    exact inside
  obtain ⟨w', serves, wrote⟩ := later _ rfl still left
  exact ⟨w', .cons choice pending ran serves, by rw [wrote, wire_setTodo, silent]⟩

private theorem exists_serves_then_reply {frame : Frame} {first : Section} {middle : World}
    (inside : k < w.connection.size)
    (pending : w.todo k = [first, .reply frame]) (ran : w.runSection k {} first = some (middle, []))
    (silent : middle.wire = w.wire) : ∃ w', w.Serves k w' ∧ w'.wire k = w.wire k ++ [frame] :=
  exists_serves_cons {} inside pending ran silent fun _ _ => exists_serves_reply

private theorem bindTargets_error {exchange queue : String}
    (missing : w.exchanges.lookup exchange = none ∨ w.queues.lookup queue = none) :
    ∃ error, w.bindTargets exchange queue = .error error := by
  unfold bindTargets
  split
  · exact ⟨_, rfl⟩
  · exact ⟨_, rfl⟩
  · next e q known declared => simp [known, declared] at missing

/-- An overlooked failure is answered with success. -/
private theorem exists_positive_of_overlooks (fails : w.Fails k env) (overlooked : w.Overlooks k env)
    (alive : w.connected k = true) (idle : w.todo k = []) :
    ∃ w' frame, w.Handles k env w' ∧ w'.wire k = w.wire k ++ [frame] ∧ frame.payload.positive = true := by
  have inside : k < w.connection.size := inside_of_live alive
  obtain ⟨rests, -, -⟩ := w.handle_spec k env
  have todo := rests.todo_setTodo inside (w.handle k env).2
  have still : k < ((w.handle k env).1.setTodo k (w.handle k env).2).connection.size := by
    rw [setTodo, modifyConnection, Heap.size_modify, rests.size]
    exact inside
  have opened (member : env.channelID ∈ w.channelsOf k) :
      ∃ ch, (w.connection k).channels.lookup env.channelID = some ch :=
    Option.isSome_iff_exists.1 (AList.lookup_isSome.2 member)
  have finish {frame : Frame} (positive : frame.payload.positive = true) (silent : (w.handle k env).1.wire = w.wire)
      (serves : ∃ w', ((w.handle k env).1.setTodo k (w.handle k env).2).Serves k w' ∧
        w'.wire k = ((w.handle k env).1.setTodo k (w.handle k env).2).wire k ++ [frame]) :
      ∃ w' frame, w.Handles k env w' ∧ w'.wire k = w.wire k ++ [frame] ∧ frame.payload.positive = true := by
    obtain ⟨w', serves, wrote⟩ := serves
    rw [wire_setTodo, silent] at wrote
    exact ⟨w', frame, .intro alive idle serves, wrote, positive⟩
  cases asked : env.request with
  | channelOpen id =>
    have handled : w.handle k env = (w.channelOpen k id, [.reply ⟨⟨0, env.requestID⟩, .channelOpenOK id⟩]) := by
      simp only [handle, asked]
    refine finish rfl ?_ (exists_serves_reply still (by rw [todo, Function.update_self, handled]))
    rw [handled]
    exact wire_kept { w with channel := w.channel.alloc { id, conn := k } } k _ rfl
  | queueDeclare name dlx dlxRoutingKey =>
    obtain ⟨ch, found⟩ := opened (by simpa only [Overlooks, asked] using overlooked)
    have handled : w.handle k env =
        (w, [.declareQueue name dlx dlxRoutingKey, .reply ⟨env.header, .queueDeclareOK name⟩]) := by
      simp only [handle, asked, found, Model.route]
    refine finish rfl (by rw [handled])
      (exists_serves_then_reply still (by rw [todo, Function.update_self, handled]) rfl ?_)
    unfold declareQueue
    split <;> rfl
  | exchangeDeclare name =>
    obtain ⟨ch, found⟩ := opened (by simpa only [Overlooks, asked] using overlooked)
    have handled : w.handle k env = (w, [.declareExchange name, .reply ⟨env.header, .exchangeDeclareOK name⟩]) := by
      simp only [handle, asked, found, Model.route]
    refine finish rfl (by rw [handled])
      (exists_serves_then_reply still (by rw [todo, Function.update_self, handled]) rfl ?_)
    unfold declareExchange
    split <;> rfl
  | queueBind queue exchange routingKey =>
    simp only [Overlooks, asked] at overlooked
    obtain ⟨member, decodes⟩ := overlooked
    obtain ⟨ch, found⟩ := opened member
    have handled : w.handle k env =
        (w, [.bindQueue exchange queue routingKey, .reply ⟨env.header, .queueBindOK⟩]) := by
      simp only [handle, asked, found, Model.route, decodes, Bool.false_eq_true, if_false]
    simp only [Fails, asked] at fails
    obtain ⟨error, refused⟩ := bindTargets_error ((fails ch found).resolve_left (by simp [decodes]))
    refine finish rfl (by rw [handled])
      (exists_serves_then_reply still (by rw [todo, Function.update_self, handled]) ?_ rfl)
    have same : ((w.handle k env).1.setTodo k (w.handle k env).2).bindTargets exchange queue = .error error := by
      rw [handled]
      exact refused
    simp only [runSection, same]
  | _ => simp [Overlooks, asked] at overlooked

end World

/-- A failing request changes nothing and is not answered with success, exactly when it is not one of the requests
whose handler goes on. -/
theorem failure_changes_nothing_iff (fails : w.Fails k env) (alive : w.connected k = true) (idle : w.todo k = []) :
    (∀ w', w.Handles k env w' → w.Unchanged w' ∧ w.Declines w' k) ↔ ¬ w.Overlooks k env := by
  constructor
  · intro nothing overlooked
    obtain ⟨w', frame, handles, wrote, positive⟩ := World.exists_positive_of_overlooks fails overlooked alive idle
    exact not_declines_of_positive wrote positive (nothing w' handles).2
  · intro heeded w' handles
    exact World.unchanged_of_handles fails heeded handles

/-- A message is published to an exchange that was not declared. -/
theorem failure_changes_nothing_unknown_exchange :
    let w := broker.replay anyStep topology
    ∀ w', w.Handles 0 ⟨1, 7, false, .publish ⟨"none", "key", [7]⟩⟩ w' → w.Unchanged w' ∧ w.Declines w' 0 := by
  intro w
  refine (failure_changes_nothing_iff ?_ (by decide) (by decide)).2 (by simp [World.Overlooks])
  intro ch _
  exact .inr (show w.exchanges.lookup "none" = none by decide)

/-- A queue that was not declared is bound, and the client is told that it is. -/
theorem bind_ok_of_unknown_queue :
    ¬ ∀ w, broker.Reachable anyStep w → ∀ k env, w.Fails k env → w.connected k = true → w.todo k = [] →
      ∀ w', w.Handles k env w' → w.Unchanged w' ∧ w.Declines w' k := by
  intro nothing
  let w := broker.replay anyStep topology
  let env : Envelope := ⟨1, 7, false, .queueBind "none" "ex" "key"⟩
  have fails : w.Fails 0 env := fun ch _ => .inr (.inr (show w.queues.lookup "none" = none by decide))
  have overlooked : w.Overlooks 0 env := ⟨show (1 : UInt16) ∈ w.channelsOf 0 by decide, rfl⟩
  obtain ⟨w', frame, handles, wrote, positive⟩ :=
    World.exists_positive_of_overlooks fails overlooked (by decide) (by decide)
  have unanswered := nothing w (.of_replay _) 0 env fails (by decide) (by decide) w' handles
  exact not_declines_of_positive wrote positive unanswered.2

end GolangMQ.Model
