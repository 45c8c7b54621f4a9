import GolangMQ.Requests.Closing
import Mathlib.Data.List.Forall2

/-! # Requests and their replies

A client matches a reply to its request by the request id in the header, and a connection's goroutine handles
one request after the other. Between them stand handlers of several critical sections, dispatchers that write to
the same connection, and writes that fail. `Correlated` follows what the goroutine still owes: nothing, or the
one reply of the request it read last, which some section to come has the header for. The replies on the wire
are then answers to requests, in the order of the requests and with at most one for each.
-/

namespace GolangMQ.Model

open Machine
open scoped List

/-- A request that was read, or a reply that could not be written. -/
inductive Spoken where
  | asked (k : ConnectionRef) (env : Envelope)
  | lost (k : ConnectionRef)
deriving DecidableEq, Repr

def World.speaks (w : World) : Label → List Spoken
  | .request k env => [.asked k env]
  | .run k choice =>
    match w.todo k with
    | .reply _ :: _ => if choice.ok then [] else [.lost k]
    | _ => []
  | _ => []

/-- The broker with what has been asked of it and the replies that got lost. -/
def speakingBroker : Machine (World × List Spoken) Label := broker.recording World.speaks

/-- The requests of one connection, in the order in which they were read. -/
def requestsOf (k : ConnectionRef) (history : List Spoken) : List Envelope :=
  history.filterMap fun
    | .asked j env => if j = k then some env else none
    | .lost _ => none

/-- The replies written to a connection. -/
def World.repliesTo (w : World) (k : ConnectionRef) : List Frame := (w.wire k).filter Frame.isReply

namespace Envelope

/-- `ChannelOpen` answers on channel 0, the other handlers on the channel of the request. -/
def replyHeader (env : Envelope) : Header :=
  match env.request with
  | .channelOpen _ => ⟨0, env.requestID⟩
  | _ => env.header

/-- The errors that a request can be answered with. -/
def failsWith (env : Envelope) : Cause → Bool
  | .channelNotOpen =>
    match env.request with
    | .channelOpen _ | .channelClose => false
    | _ => true
  | .undecodable =>
    match env.request with
    | .consume .. | .ack _ | .nack .. | .queueBind .. => env.malformed
    | _ => false
  | .broker .exchangeNotFound => false
  | .broker (.publishExchangeNotFound exchange) =>
    match env.request with
    | .publish event => !env.malformed && exchange == event.exchange
    | _ => false
  | .broker .queueNotFound =>
    match env.request with
    | .consume .. => !env.malformed
    | _ => false
  | .broker (.consumerTagInUse tag _) =>
    match env.request with
    | .consume _ chosen => !env.malformed && (chosen == "" || tag == chosen)
    | _ => false

/-- The payloads that answer a request. -/
def admits (env : Envelope) : Payload → Bool
  | .channelOpenOK id => env.request == .channelOpen id
  | .channelCloseOK id => env.request == .channelClose && id == env.channelID
  | .consumeOK tag =>
    match env.request with
    | .consume _ chosen => chosen == "" || tag == chosen
    | _ => false
  | .queueDeclareOK name =>
    match env.request with
    | .queueDeclare name' _ _ => name == name'
    | _ => false
  | .exchangeDeclareOK name => env.request == .exchangeDeclare name
  | .queueBindOK =>
    match env.request with
    | .queueBind .. => !env.malformed
    | _ => false
  | .error cause => env.failsWith cause
  | .deliver _ => false

/-- The requests that are always answered. The others are answered only when they fail. -/
def demands (env : Envelope) : Bool :=
  match env.request with
  | .channelOpen _ | .channelClose | .consume .. | .queueDeclare .. | .exchangeDeclare _ | .queueBind .. => true
  | .publish _ | .ack _ | .nack .. | .other => false

end Envelope

/-- The frame is an answer to the request: it has the header of its replies and a payload that fits it. -/
structure Answers (env : Envelope) (frame : Frame) : Prop where
  header : frame.header = env.replyHeader
  payload : env.admits frame.payload = true

namespace Section

/-- The reply to come is an answer to the request. -/
def Promises (w : World) (env : Envelope) : Section → Prop
  | .reply frame => Answers env frame
  | .consume _ header queue tag => header = env.header ∧ env.malformed = false ∧ env.request = .consume queue tag
  | .attach c header => header = env.header ∧ c < w.consumer.size ∧
    ∃ queue tag, env.request = .consume queue tag ∧ (tag = "" ∨ (w.consumer c).tag = tag)
  | .publish event (some header) => header = env.header ∧ env.malformed = false ∧ env.request = .publish event
  | _ => False

end Section

variable {w w' : World} {label : Label} {k : ConnectionRef} {choice : Choice} {first : Section} {next : List Section}
  {env : Envelope}

/-- One of the sections keeps the promise of an answer, and no other one writes a reply. -/
def Awaits (w : World) (env : Envelope) (sections : List Section) : Prop :=
  ∃ before s after, sections = before ++ s :: after ∧ (∀ other ∈ before ++ after, other.owes = false) ∧ s.Promises w env

private theorem Section.Promises.owes {s : Section} (promises : s.Promises w env) : s.owes = true := by
  cases s with
  | publish event report => cases report <;> first | rfl | exact promises.elim
  | reply | consume | attach => rfl
  | _ => exact promises.elim

private theorem Section.Promises.mono {s : Section} (promises : s.Promises w env)
    (extension : w.toStore.Extends w'.toStore) :
    s.Promises w' env := by
  cases s with
  | attach c header =>
    obtain ⟨mine, inside, queue, tag, request, named⟩ := promises
    refine ⟨mine, inside.trans_le extension.consumers, queue, tag, request, ?_⟩
    rwa [extension.tag inside]
  | publish event report => cases report <;> exact promises
  | _ => exact promises

namespace Awaits

/-- The reply comes last. -/
theorem last {before : List Section} {s : Section} (quiet : ∀ other ∈ before, other.owes = false)
    (promises : s.Promises w env) : Awaits w env (before ++ [s]) :=
  ⟨before, s, [], rfl, by simpa using quiet, promises⟩

private theorem single {s : Section} (promises : s.Promises w env) : Awaits w env [s] :=
  last (fun _ member => absurd member List.not_mem_nil) promises

/-- What is put before the other sections. -/
theorem append {sections : List Section} (awaits : Awaits w env sections) {more : List Section}
    (quiet : ∀ other ∈ more, other.owes = false) : Awaits w env (more ++ sections) := by
  obtain ⟨before, s, after, rfl, others, promises⟩ := awaits
  refine ⟨more ++ before, s, after, (List.append_assoc ..).symm, ?_, promises⟩
  rw [List.append_assoc]
  exact List.forall_mem_append.2 ⟨quiet, others⟩

end Awaits

private theorem Envelope.header_eq_replyHeader (other : ∀ id, env.request ≠ .channelOpen id) :
    env.header = env.replyHeader := by
  unfold replyHeader
  split
  · next id request => exact absurd request (other id)
  · rfl

/-- The sections that `Channel.route` starts with owe one answer, or none to a request that does not demand one. -/
private theorem awaits_route (w : World) (ch : ChannelRef) (env : Envelope)
    (opens : ∀ id, env.request ≠ .channelOpen id)
    (closes : env.request ≠ .channelClose) :
    ((∀ s ∈ route ch env, s.owes = false) ∧ env.demands = false) ∨ Awaits w env (route ch env) := by
  have header := Envelope.header_eq_replyHeader opens
  have refused (cause : Cause) (fails : env.failsWith cause = true) :
      Awaits w env [.reply ⟨env.header, .error cause⟩] := .single ⟨header, fails⟩
  -- A handler that decodes its payload answers one that does not decode.
  have decoded {sections : List Section} (answers : env.malformed = true → env.failsWith .undecodable = true)
      (goes : env.malformed = false →
        ((∀ s ∈ sections, s.owes = false) ∧ env.demands = false) ∨ Awaits w env sections) :
      ((∀ s ∈ if env.malformed then [.reply ⟨env.header, .error .undecodable⟩] else sections, s.owes = false) ∧
        env.demands = false) ∨
        Awaits w env (if env.malformed then [.reply ⟨env.header, .error .undecodable⟩] else sections) := by
    cases decodes : env.malformed with
    | true => exact .inr (refused _ (answers decodes))
    | false => exact goes decodes
  cases request : env.request with
  | publish event =>
    cases decodes : env.malformed with
    | true => exact .inl (by simp [route, request, decodes, Envelope.demands])
    | false =>
      simp only [route, request, decodes, Bool.false_eq_true, if_false]
      exact .inr (.single ⟨rfl, decodes, request⟩)
  | consume queue tag =>
    simp only [route, request]
    exact decoded (fun malformed => by simp [Envelope.failsWith, request, malformed]) fun decodes =>
      .inr (.single ⟨rfl, decodes, request⟩)
  | ack tag | nack tag requeue =>
    simp only [route, request]
    exact decoded (fun malformed => by simp [Envelope.failsWith, request, malformed]) fun _ =>
      .inl (by simp [Envelope.demands, request, Section.owes])
  | queueDeclare name dlx key | exchangeDeclare name =>
    simp only [route, request]
    exact .inr (.last (List.forall_mem_singleton.2 rfl) ⟨header, by simp [Envelope.admits, request]⟩)
  | queueBind queue exchange key =>
    simp only [route, request]
    exact decoded (fun malformed => by simp [Envelope.failsWith, request, malformed]) fun decodes =>
      .inr (.last (List.forall_mem_singleton.2 rfl) ⟨header, by simp [Envelope.admits, request, decodes]⟩)
  | other => exact .inl (by simp [route, request, Envelope.demands])
  | channelOpen id => exact absurd request (opens id)
  | channelClose => exact absurd request closes

/-- The same for `Connection.Handle`. -/
private theorem awaits_handle (w : World) (k : ConnectionRef) (env : Envelope) :
    ((∀ s ∈ (w.handle k env).2, s.owes = false) ∧ env.demands = false) ∨ Awaits w env (w.handle k env).2 := by
  have routed (opens : ∀ id, env.request ≠ .channelOpen id) (closes : env.request ≠ .channelClose) :
      ((∀ s ∈ (w.handle k env).2, s.owes = false) ∧ env.demands = false) ∨ Awaits w env (w.handle k env).2 := by
    cases found : (w.connection k).channels.lookup env.channelID with
    | none =>
      have refused : w.handle k env = (w, [.reply ⟨env.header, .error .channelNotOpen⟩]) := by
        cases request : env.request with
        | channelOpen id => exact absurd request (opens id)
        | channelClose => exact absurd request closes
        | _ => simp only [World.handle, request, found]
      rw [refused]
      refine .inr (.single ⟨Envelope.header_eq_replyHeader opens, ?_⟩)
      cases request : env.request <;> simp_all [Envelope.admits, Envelope.failsWith]
    | some ch =>
      have routes : w.handle k env = (w, route ch env) := by
        cases request : env.request with
        | channelOpen id => exact absurd request (opens id)
        | channelClose => exact absurd request closes
        | _ => simp only [World.handle, request, found]
      rw [routes]
      exact awaits_route w ch env opens closes
  cases request : env.request with
  | channelOpen id =>
    simp only [World.handle, request]
    exact .inr (.single ⟨by simp [Envelope.replyHeader, request], by simp [Envelope.admits, request]⟩)
  | channelClose =>
    have opens : ∀ id, env.request ≠ .channelOpen id := by simp [request]
    simp only [World.handle, request]
    refine .inr (.last (fun s member => ?_) ⟨Envelope.header_eq_replyHeader opens, by simp [Envelope.admits, request]⟩)
    obtain ⟨ch, -, rfl⟩ := Option.map_eq_some_iff.1 (Option.mem_toList.1 member)
    rfl
  | _ => exact routed (by simp [request]) (by simp [request])

/-- A section that keeps a promise passes it on, is the reply, or has published to an exchange that exists. -/
private theorem promises_of_runs {s : Section} (promises : s.Promises w env) (runs : Runs w k choice s w' next) :
    Awaits w' env next ∨
      (∀ other ∈ next, other.owes = false) ∧ ((∃ frame, s = .reply frame) ∨ env.demands = false) := by
  cases runs with
  | @publishUnknown event report missing =>
    cases report with
    | none => exact promises.elim
    | some header =>
      obtain ⟨rfl, decodes, request⟩ := promises
      refine .inl (.single ⟨Envelope.header_eq_replyHeader (by simp [request]), ?_⟩)
      simp [Envelope.admits, Envelope.failsWith, request, decodes]
  | @publish event report e found =>
    cases report with
    | none => exact promises.elim
    | some header => exact .inr ⟨List.forall_mem_singleton.2 rfl, .inr (by simp [Envelope.demands, promises.2.2])⟩
  | @consumeRefused ch header queue tag error refused =>
    obtain ⟨rfl, decodes, request⟩ := promises
    refine .inl (.single ⟨Envelope.header_eq_replyHeader (by simp [request]), ?_⟩)
    unfold World.newConsumer at refused
    split at refused
    · cases refused
      simp [Envelope.admits, Envelope.failsWith, request, decodes]
    · split_ifs at refused
      cases refused
      by_cases empty : tag = "" <;>
        simp [Envelope.admits, Envelope.failsWith, request, decodes, World.consumerTag, empty]
  | @consume ch header queue tag q declared fresh =>
    obtain ⟨rfl, decodes, request⟩ := promises
    refine .inl (.last (List.forall_mem_singleton.2 rfl) ⟨rfl, Nat.lt_succ_self _, queue, tag, request, ?_⟩)
    by_cases empty : tag = ""
    · exact .inl empty
    · have new : (w.apply (.newConsumer (w.consumerTag ch tag) q ch)).consumer w.consumer.size =
          { tag := w.consumerTag ch tag, queue := q, channel := ch } := w.consumer.cell_alloc_self _
      exact .inr ((congrArg Consumer.tag new).trans (if_neg empty))
  | @attach c header =>
    obtain ⟨rfl, inside, queue, tag, request, named⟩ := promises
    refine .inl (.single ⟨Envelope.header_eq_replyHeader (by simp [request]), ?_⟩)
    simpa [Envelope.admits, request] using named
  | reply | unsent => exact .inr ⟨fun _ none => absurd none List.not_mem_nil, .inl ⟨_, rfl⟩⟩
  | _ => exact promises.elim

/-- The replies of connection `k` are answers to requests, in their order, and what the goroutine of the connection has
to do owes an answer to the last request at most. When no reply got lost, every request that demands an answer has
one or is the last. -/
inductive Correlated (w : World) (k : ConnectionRef) (history : List Spoken) : Prop
  | settled (answered : List Envelope) (matched : List.Forall₂ Answers answered (w.repliesTo k))
      (inOrder : answered <+ requestsOf k history)
      (all : .lost k ∉ history → (requestsOf k history).filter Envelope.demands <+ answered)
      (quiet : ∀ s ∈ w.todo k, s.owes = false)
  | owing (answered earlier : List Envelope) (env : Envelope) (matched : List.Forall₂ Answers answered (w.repliesTo k))
      (last : requestsOf k history = earlier ++ [env]) (inOrder : answered <+ earlier)
      (all : .lost k ∉ history → earlier.filter Envelope.demands <+ answered) (awaits : Awaits w env (w.todo k))

section Speaking

variable {history : List Spoken} {more : List Spoken}

private theorem requestsOf_append (k : ConnectionRef) (history more : List Spoken) :
    requestsOf k (history ++ more) = requestsOf k history ++ requestsOf k more := List.filterMap_append

/-- A step of somebody else adds no request. -/
private theorem requestsOf_speaks (asks : ∀ env, label ≠ .request k env) : requestsOf k (w.speaks label) = [] := by
  cases label with
  | request j env =>
    have other : j ≠ k := by
      rintro rfl
      exact asks env rfl
    simp [World.speaks, requestsOf, other]
  | run j choice =>
    simp only [World.speaks]
    split
    · split_ifs <;> rfl
    · rfl
  | _ => rfl

/-- Only the write of a reply can get one lost. -/
private theorem speaks_run (rest : List Section) (pending : w.todo k = first :: rest)
    (other : ∀ frame, first ≠ .reply frame) :
    w.speaks (.run k choice) = [] := by
  simp only [World.speaks, pending]
  split
  · next frame _ same => exact absurd (List.cons.inj same).1 (other frame)
  · rfl

/-- The other goroutines write no reply to a connection; a delivery is not one. -/
private theorem repliesTo_of_other (stepped : w.step? label = some w') (other : ∀ choice, label ≠ .run k choice) :
    w'.repliesTo k = w.repliesTo k := by
  unfold World.repliesTo
  rcases World.wire_of_step stepped k with same | ⟨frame, appended, ⟨choice, -, same, -⟩ | ⟨q, c, msg, -, -, -, rfl⟩⟩
  · rw [same]
  · exact absurd same (other choice)
  · rw [appended, List.filter_append]
    exact List.append_nil _

private theorem repliesTo_of_runs (inside : k < w.connection.size) (runs : Runs w k choice first w' next)
    (other : ∀ frame, first ≠ .reply frame) : w'.repliesTo k = w.repliesTo k := by
  rcases World.wire_of_runs inside runs with same | ⟨frame, reply, -⟩
  · rw [World.repliesTo, same, World.repliesTo]
  · exact absurd reply (other frame)

end Speaking

private theorem Answers.isReply {frame : Frame} (answers : Answers env frame) : frame.isReply = true := by
  have admitted := answers.payload
  unfold Frame.isReply
  split
  · next deliver same =>
    rw [same] at admitted
    contradiction
  · rfl

namespace Correlated

variable {history : List Spoken}

private theorem init (k : ConnectionRef) : Correlated broker.init k [] :=
  .settled [] .nil (List.nil_sublist _) (fun _ => List.nil_sublist _) fun _ member => absurd member List.not_mem_nil

/-- A step that leaves the goroutine, its replies and its requests alone. -/
theorem kept (correlated : Correlated w k history) (extension : w.toStore.Extends w'.toStore)
    (todo : w'.todo k = w.todo k) (replies : w'.repliesTo k = w.repliesTo k) {more : List Spoken}
    (silent : requestsOf k more = []) : Correlated w' k (history ++ more) := by
  have requests : requestsOf k (history ++ more) = requestsOf k history := by
    rw [requestsOf_append, silent, List.append_nil]
  have before (still : .lost k ∉ history ++ more) : .lost k ∉ history := fun lost => still (List.mem_append_left _ lost)
  cases correlated with
  | settled answered matched inOrder all quiet =>
    refine .settled answered (replies ▸ matched) (requests ▸ inOrder) (fun still => ?_) (todo ▸ quiet)
    rw [requests]
    exact all (before still)
  | owing answered earlier env matched last inOrder all awaits =>
    refine .owing answered earlier env (replies ▸ matched) (requests.trans last) inOrder
      (fun still => all (before still)) ?_
    obtain ⟨front, s, back, split, others, promises⟩ := awaits
    exact ⟨front, s, back, todo.trans split, others, promises.mono extension⟩

/-- A goroutine that has nothing to do owes no answer. -/
theorem of_idle (correlated : Correlated w k history) (idle : w.todo k = []) :
    ∃ answered, List.Forall₂ Answers answered (w.repliesTo k) ∧ answered <+ requestsOf k history ∧
      (.lost k ∉ history → (requestsOf k history).filter Envelope.demands <+ answered) := by
  cases correlated with
  | settled answered matched inOrder all quiet => exact ⟨answered, matched, inOrder, all⟩
  | owing answered earlier env matched last inOrder all awaits =>
    obtain ⟨front, s, back, split, -, -⟩ := awaits
    rw [idle] at split
    exact absurd split (by simp)

/-- The goroutine reads a request. -/
theorem ask (correlated : Correlated w k history) (idle : w.todo k = []) (extension : w.toStore.Extends w'.toStore)
    (todo : w'.todo k = (w.handle k env).2) (replies : w'.repliesTo k = w.repliesTo k) :
    Correlated w' k (history ++ [.asked k env]) := by
  have requests : requestsOf k (history ++ [.asked k env]) = requestsOf k history ++ [env] := by
    rw [requestsOf_append]
    simp [requestsOf]
  have before (still : .lost k ∉ history ++ [.asked k env]) : .lost k ∉ history := fun lost =>
    still (List.mem_append_left _ lost)
  obtain ⟨answered, matched, inOrder, all⟩ := correlated.of_idle idle
  rcases awaits_handle w k env with ⟨silent, unanswered⟩ | ⟨front, s, back, split, others, promises⟩
  · refine .settled answered (replies ▸ matched) ?_ (fun still => ?_) (todo ▸ silent)
    · rw [requests]
      exact inOrder.trans (List.sublist_append_left _ _)
    · rw [requests, List.filter_append, List.filter_cons_of_neg (by simp [unanswered]), List.filter_nil,
        List.append_nil]
      exact all (before still)
  · exact .owing answered _ env (replies ▸ matched) requests inOrder (fun still => all (before still))
      ⟨front, s, back, todo.trans split, others, promises.mono extension⟩

/-- A section that owes nothing runs. -/
theorem runQuiet {rest : List Section} (correlated : Correlated w k history) (pending : w.todo k = first :: rest)
    (silent : first.owes = false) (inside : k < w.connection.size) (runs : Runs w k choice first w' next)
    (extension : w.toStore.Extends w'.toStore) (rests : w.Rests w') :
    Correlated (w'.setTodo k (next ++ rest)) k (history ++ w.speaks (.run k choice)) := by
  have other : ∀ frame, first ≠ .reply frame := by
    rintro frame rfl
    contradiction
  have leads : ∀ s ∈ next, s.owes = false := fun s member => owes_of_leads (leads_of_runs runs member) silent
  have todo : (w'.setTodo k (next ++ rest)).todo k = next ++ rest := by
    rw [rests.todo_setTodo inside, Function.update_self]
  have replies : (w'.setTodo k (next ++ rest)).repliesTo k = w.repliesTo k := by
    rw [World.repliesTo, World.wire_setTodo]
    exact repliesTo_of_runs inside runs other
  rw [speaks_run rest pending other, List.append_nil]
  cases correlated with
  | settled answered matched inOrder all quiet =>
    refine .settled answered (replies ▸ matched) inOrder all ?_
    rw [todo]
    refine List.forall_mem_append.2 ⟨leads, fun s member => quiet s ?_⟩
    exact pending ▸ List.mem_cons_of_mem _ member
  | owing answered earlier env matched last inOrder all awaits =>
    obtain ⟨front, s, back, split, others, promises⟩ := awaits
    rw [pending] at split
    cases front with
    | nil =>
      obtain ⟨rfl, -⟩ := List.cons.inj split
      rw [promises.owes] at silent
      contradiction
    | cons head front =>
      obtain ⟨rfl, rfl⟩ := List.cons.inj split
      refine .owing answered earlier env (replies ▸ matched) last inOrder all ?_
      rw [todo]
      refine Awaits.append ⟨front, s, back, rfl, fun other member => others other ?_, promises.mono extension⟩ leads
      exact List.mem_cons_of_mem _ member

/-- The section that owes the answer runs: it passes the promise on, writes the reply or loses it, or finds that the
request needs none. -/
theorem runOwing {rest : List Section} (correlated : Correlated w k history) (pending : w.todo k = first :: rest)
    (owes : first.owes = true) (inside : k < w.connection.size) (runs : Runs w k choice first w' next)
    (rests : w.Rests w') :
    Correlated (w'.setTodo k (next ++ rest)) k (history ++ w.speaks (.run k choice)) := by
  have todo : (w'.setTodo k (next ++ rest)).todo k = next ++ rest := by
    rw [rests.todo_setTodo inside, Function.update_self]
  have replies : (w'.setTodo k (next ++ rest)).repliesTo k = w'.repliesTo k := by
    rw [World.repliesTo, World.wire_setTodo, World.repliesTo]
  cases correlated with
  | settled answered matched inOrder all quiet =>
    have silent := quiet first (pending ▸ List.mem_cons_self ..)
    rw [owes] at silent
    contradiction
  | owing answered earlier env matched last inOrder all awaits =>
    obtain ⟨front, s, back, split, others, promises⟩ := awaits
    rw [pending] at split
    cases front with
    | cons head front =>
      obtain ⟨rfl, -⟩ := List.cons.inj split
      have silent := others first (List.mem_cons_self ..)
      rw [owes] at silent
      contradiction
    | nil =>
      obtain ⟨rfl, rfl⟩ := List.cons.inj split
      have settles (none : ∀ s ∈ next, s.owes = false) :
          ∀ s ∈ (w'.setTodo k (next ++ rest)).todo k, s.owes = false := by
        rw [todo]
        exact List.forall_mem_append.2 ⟨none, others⟩
      by_cases reply : ∃ frame, first = .reply frame
      · obtain ⟨frame, rfl⟩ := reply
        have isReply := Answers.isReply promises
        cases runs with
        | reply written =>
          have speaks : w.speaks (.run k choice) = [] := by simp [World.speaks, pending, written]
          have wrote : (w.modifyConnection k fun conn => { conn with wire := conn.wire ++ [frame] }).repliesTo k =
              w.repliesTo k ++ [frame] := by
            unfold World.repliesTo World.wire
            rw [World.modifyConnection, Heap.cell_modify_self _ _ inside, List.filter_append,
              List.filter_cons_of_pos isReply, List.filter_nil]
          rw [speaks, List.append_nil]
          refine .settled (answered ++ [env]) ?_ ?_ (fun still => ?_)
            (settles fun _ none => absurd none List.not_mem_nil)
          · rw [replies, wrote]
            exact List.rel_append matched (.cons promises .nil)
          · rw [last]
            exact inOrder.append_right _
          · rw [last, List.filter_append]
            exact (all still).append (List.filter_sublist)
        | unsent failed =>
          have speaks : w.speaks (.run k choice) = [.lost k] := by simp [World.speaks, pending, failed]
          rw [speaks]
          have requests : requestsOf k (history ++ [.lost k]) = requestsOf k history := by
            rw [requestsOf_append]
            exact List.append_nil _
          refine .settled answered (replies ▸ matched) ?_ (fun still => ?_)
            (settles fun _ none => absurd none List.not_mem_nil)
          · rw [requests, last]
            exact inOrder.trans (List.sublist_append_left _ _)
          · exact absurd (List.mem_append_right _ (List.mem_singleton_self _)) still
      · have other : ∀ frame, first ≠ .reply frame := fun frame same => reply ⟨frame, same⟩
        have same := replies.trans (repliesTo_of_runs inside runs other)
        rw [speaks_run rest pending other, List.append_nil]
        rcases promises_of_runs promises runs with awaits | ⟨none, ending⟩
        · refine .owing answered earlier env (same ▸ matched) last inOrder all ?_
          obtain ⟨front, s, back, split, quiet, promises⟩ := awaits
          refine ⟨front, s, back ++ rest, by rw [todo, split]; simp, ?_, promises⟩
          rw [← List.append_assoc]
          exact List.forall_mem_append.2 ⟨quiet, others⟩
        · have unanswered := ending.resolve_left reply
          refine .settled answered (same ▸ matched) ?_ (fun still => ?_) (settles none)
          · rw [last]
            exact inOrder.trans (List.sublist_append_left _ _)
          · rw [last, List.filter_append, List.filter_cons_of_neg (by simp [unanswered]), List.filter_nil,
              List.append_nil]
            exact all still

private theorem step (correlated : Correlated w k history) (stepped : w.step? label = some w') :
    Correlated w' k (history ++ w.speaks label) := by
  have extension := (World.grows_of_step stepped).store
  by_cases own : ∃ choice, label = .run k choice
  · obtain ⟨choice, rfl⟩ := own
    obtain ⟨first, rest, middle, next, pending, ran, rfl, inside⟩ := World.run_inv stepped
    have rests := World.rests_of_runSection ran
    have runs := runs_of_runSection ran
    cases owes : first.owes with
    | false => exact correlated.runQuiet pending owes inside runs extension rests
    | true => exact correlated.runOwing pending owes inside runs rests
  · have other : ∀ choice, label ≠ .run k choice := fun choice same => own ⟨choice, same⟩
    have replies := repliesTo_of_other stepped other
    obtain ⟨effect, -, happens⟩ := World.happens_of_step stepped
    by_cases asks : ∃ env, label = .request k env
    · obtain ⟨env, rfl⟩ := asks
      cases happens with
      | requested size inside idle todo =>
        exact correlated.ask idle extension (by rw [todo, Function.update_self]) replies
    · have silent := requestsOf_speaks (w := w) fun env same => asks ⟨env, same⟩
      rcases World.todo_of_other happens other with todo | ⟨env, same, -⟩ | ⟨rfl, todo⟩
      · exact correlated.kept extension todo replies silent
      · exact absurd ⟨env, same⟩ asks
      · cases happens with
        | disconnected size inside idle =>
          obtain ⟨answered, matched, inOrder, all⟩ := correlated.of_idle idle
          have quiet : w.speaks (.disconnect k) = [] := rfl
          rw [quiet, List.append_nil]
          refine .settled answered (replies ▸ matched) inOrder all ?_
          rw [todo]
          exact List.forall_mem_singleton.2 rfl

end Correlated

theorem correlated_of_reachable {history : List Spoken} (reached : speakingBroker.Reachable anyStep (w, history))
    (k : ConnectionRef) : Correlated w k history := by
  refine reached.invariant (P := fun state => Correlated state.1 k state.2) (.init k) ?_
  intro source target label _ correlated _ stepped
  obtain ⟨next, moved, rfl⟩ := Option.map_eq_some_iff.1 stepped
  exact correlated.step moved

/-- The replies on a connection are answers to its requests: each has the request id of its request, its channel (or
channel 0 for `channel.open`) and a payload that fits it, they come in the order of the requests, and no request has
two. When no reply got lost and the connection has nothing to do, every request that demands an answer has had one. -/
theorem replies_match_requests {history : List Spoken} (reached : speakingBroker.Reachable anyStep (w, history))
    (k : ConnectionRef) :
    ∃ answered, answered <+ requestsOf k history ∧ List.Forall₂ Answers answered (w.repliesTo k) ∧
      (.lost k ∉ history → w.todo k = [] → (requestsOf k history).filter Envelope.demands <+ answered) := by
  have correlated := correlated_of_reachable reached k
  by_cases idle : w.todo k = []
  · obtain ⟨answered, matched, inOrder, all⟩ := correlated.of_idle idle
    exact ⟨answered, inOrder, matched, fun still _ => all still⟩
  · cases correlated with
    | settled answered matched inOrder => exact ⟨answered, inOrder, matched, fun _ none => absurd none idle⟩
    | owing answered earlier env matched last inOrder =>
      refine ⟨answered, ?_, matched, fun _ none => absurd none idle⟩
      rw [last]
      exact inOrder.trans (List.sublist_append_left _ _)

/-- A connection has consumed and received a delivery between its requests; the reply to one request got lost. -/
def overheard : World × List Spoken :=
  speakingBroker.replay anyStep
    (topology ++ consuming ++ publishing [7] ++ dispatching 0 0 ++ [.written 0] ++
      served 0 ⟨1, 8, false, .queueDeclare "other" "" ""⟩ [{}, { ok := false }] ++
      served 0 ⟨1, 9, false, .publish ⟨"nowhere", "", []⟩⟩ [{}, {}])

theorem replies_match_requests_overheard :
    overheard.1.repliesTo 0 = [⟨⟨0, 0⟩, .channelOpenOK 1⟩, ⟨⟨1, 0⟩, .exchangeDeclareOK "ex"⟩,
        ⟨⟨1, 0⟩, .queueDeclareOK "q"⟩, ⟨⟨1, 0⟩, .queueBindOK⟩, ⟨⟨1, 0⟩, .consumeOK "ch.1.consumer.1"⟩,
        ⟨⟨1, 9⟩, .error (.broker (.publishExchangeNotFound "nowhere"))⟩] ∧
      ∃ answered, answered <+ requestsOf 0 overheard.2 ∧ List.Forall₂ Answers answered (overheard.1.repliesTo 0) := by
  have reached : speakingBroker.Reachable anyStep overheard := .of_replay _
  obtain ⟨answered, inOrder, matched, -⟩ := replies_match_requests reached 0
  exact ⟨by decide +kernel, answered, inOrder, matched⟩

end GolangMQ.Model
