import GolangMQ.Bench.RunID
import GolangMQ.Requests.Provenance

/-! # Runs on a shared broker

`Run` declares an exchange and a queue whose names carry its run identifier, so that several runs and other
clients can use one broker. A realm owns the names of its queues and exchanges, and each connection keeps to
the names of its own realm. Deliveries then stay within the realm: what a connection receives was published by
a connection of its realm, whatever the other clients declare, bind, publish or dead-letter.
-/

namespace GolangMQ.Model

section Realms

variable {ρ : Type*} (queueRealm exchangeRealm : String → ρ)

/-- The queues and exchanges that a request names are those of one realm. -/
def Request.Within (realm : ρ) : Request → Prop
  | .publish event => exchangeRealm event.exchange = realm
  | .consume queue _ => queueRealm queue = realm
  | .queueDeclare name dlx _ => queueRealm name = realm ∧ (dlx = "" ∨ exchangeRealm dlx = realm)
  | .exchangeDeclare name => exchangeRealm name = realm
  | .queueBind queue exchange _ => queueRealm queue = realm ∧ exchangeRealm exchange = realm
  | _ => True

instance [DecidableEq ρ] (realm : ρ) : ∀ request, Decidable (Request.Within queueRealm exchangeRealm realm request)
  | .publish _ | .consume _ _ | .exchangeDeclare _ => inferInstanceAs (Decidable (_ = _))
  | .queueDeclare _ _ _ | .queueBind _ _ _ => inferInstanceAs (Decidable (_ ∧ _))
  | .channelOpen _ | .channelClose | .ack _ | .nack _ _ | .other => .isTrue trivial

variable {queueRealm exchangeRealm} {realm : ConnectionRef → ρ} {asked : List (ConnectionRef × Envelope)}
  {k : ConnectionRef} {event : Publish}

section Kept

variable (kept : ∀ k env, (k, env) ∈ asked → env.request.Within queueRealm exchangeRealm (realm k))

include kept

private theorem Asks.within {id : UInt16} {request : Request} (asks : Asks asked k id request) :
    request.Within queueRealm exchangeRealm (realm k) := by
  obtain ⟨env, member, -, -, rfl⟩ := asks
  exact kept k env member

theorem Binds.realm_eq {queue exchange routingKey : String} (binds : Binds asked queue exchange routingKey) :
    queueRealm queue = exchangeRealm exchange := by
  obtain ⟨k, id, asks⟩ := binds
  obtain ⟨left, right⟩ := asks.within kept
  exact left.trans right.symm

/-- What is published to an exchange comes from the realm of the exchange, also by way of dead letters. -/
theorem Origin.within (origin : Origin asked event) :
    ∃ k id sent, Asks asked k id (.publish sent) ∧ sent.body = event.body ∧ realm k = exchangeRealm event.exchange := by
  induction origin with
  | @requested k id event asks => exact ⟨k, id, event, asks, rfl, (asks.within kept).symm⟩
  | deadLetter _ binds declares enabled _ _ ih =>
    obtain ⟨k, id, sent, asks, body, same⟩ := ih
    obtain ⟨k', env, member, request⟩ := declares
    have mine := kept k' env member
    rw [request] at mine
    refine ⟨k, id, sent, asks, body, ?_⟩
    rw [same, ← binds.realm_eq kept, mine.1]
    exact (mine.2.resolve_left enabled).symm

/-- A connection is entitled to nothing from outside its realm. -/
theorem Entitled.within {id : UInt16} {deliver : Deliver} (entitled : Entitled asked k id deliver) :
    exchangeRealm deliver.exchange = realm k ∧
      ∃ k' id' sent, Asks asked k' id' (.publish sent) ∧ sent.body = deliver.body ∧ realm k' = realm k := by
  obtain ⟨⟨queue, ⟨chosen, consumes, -⟩, binds⟩, origin⟩ := entitled
  have mine : queueRealm queue = realm k := consumes.within kept
  have same : exchangeRealm deliver.exchange = realm k := (binds.realm_eq kept).symm.trans mine
  obtain ⟨k', id', sent, asks, body, from_⟩ := origin.within kept
  exact ⟨same, k', id', sent, asks, body, from_.trans same⟩

end Kept

end Realms

end GolangMQ.Model

namespace GolangMQ.Bench

open Machine Model

/-- What follows `lead` in a name that begins with it. -/
def afterLead (lead name : String) : Option String :=
  if lead.toList <+: name.toList then some (String.ofList (name.toList.drop lead.toList.length)) else none

theorem afterLead_eq_some {lead name rest : String} : afterLead lead name = some rest ↔ name = lead ++ rest := by
  unfold afterLead
  constructor
  · intro found
    split_ifs at found with leads
    obtain ⟨more, split⟩ := leads
    rw [← split, List.drop_left, Option.some.injEq] at found
    rw [← String.toList_inj, String.toList_append, ← split, ← found, String.toList_ofList]
  · rintro rfl
    simp

/-- The run whose queue has this name. -/
def queueRun : String → Option String := afterLead "bench.q."

/-- The run whose exchange has this name. -/
def exchangeRun : String → Option String := afterLead "bench.ex."

/-- What the connections of a run ask for: `Run` declares and binds its fixture, and the workers publish to it, consume
from it and acknowledge. -/
def ofRun (runid : String) : Request → Bool
  | .exchangeDeclare name => name == (runNames runid).exchange
  | .queueDeclare name dlx dlxRoutingKey => name == (runNames runid).queue && dlx == "" && dlxRoutingKey == ""
  | .queueBind queue exchange routingKey =>
    queue == (runNames runid).queue && exchange == (runNames runid).exchange &&
      routingKey == (runNames runid).routingKey
  | .publish event => event.exchange == (runNames runid).exchange && event.routingKey == (runNames runid).routingKey
  | .consume queue _ => queue == (runNames runid).queue
  | .channelOpen _ | .channelClose | .ack _ => true
  | .nack _ _ | .other => false

/-- A connection of a run asks for what the run needs, and another client keeps away from the names of runs. -/
def Keeps : Option String → Request → Prop
  | some runid, request => ofRun runid request
  | none, request => request.Within queueRun exchangeRun none

instance : ∀ run request, Decidable (Keeps run request)
  | some _, _ => inferInstanceAs (Decidable (_ = true))
  | none, _ => inferInstanceAs (Decidable (Request.Within ..))

private theorem Keeps.within {run : Option String} {request : Request} (keeps : Keeps run request) :
    request.Within queueRun exchangeRun run := by
  cases run with
  | none => exact keeps
  | some runid =>
    have queue : queueRun (runNames runid).queue = some runid := afterLead_eq_some.2 rfl
    have exchange : exchangeRun (runNames runid).exchange = some runid := afterLead_eq_some.2 rfl
    cases request <;> simp_all [Keeps, ofRun, Request.Within]

/-- Every connection keeps to its own realm. -/
def Polite (run : ConnectionRef → Option String) (_ : World × List (ConnectionRef × Envelope)) : Label → Prop
  | .request k env => Keeps (run k) env.request
  | _ => True

instance (run : ConnectionRef → Option String) (state : World × List (ConnectionRef × Envelope)) :
    ∀ label, Decidable (Polite run state label)
  | .request k env => inferInstanceAs (Decidable (Keeps (run k) env.request))
  | .accept | .disconnect _ | .run .. | .lock _ | .probe .. | .exhausted _ | .record _ | .wait _ | .resume _
  | .written _ | .failed _ | .rollback _ => .isTrue trivial

section Runs

variable {run : ConnectionRef → Option String} {w : World} {asked : List (ConnectionRef × Envelope)} {k : ConnectionRef}

theorem keeps_of_reachable (reached : askingBroker.Reachable (Polite run) (w, asked)) :
    ∀ k env, (k, env) ∈ asked → Keeps (run k) env.request := by
  refine reached.invariant (P := fun state => ∀ k env, (k, env) ∈ state.2 → Keeps (run k) env.request) ?_ ?_
  · intro k env member
    exact absurd member List.not_mem_nil
  · intro source target label _ kept met stepped k env member
    obtain ⟨next, -, rfl⟩ := Option.map_eq_some_iff.1 stepped
    rcases List.mem_append.1 member with earlier | new
    · exact kept k env earlier
    · cases label with
      | request k' env' =>
        obtain ⟨rfl, rfl⟩ := Prod.mk.inj (List.mem_singleton.1 new)
        exact met
      | _ => exact absurd new List.not_mem_nil

theorem within_of_reachable (reached : askingBroker.Reachable (Polite run) (w, asked)) (k : ConnectionRef)
    (env : Envelope) (member : (k, env) ∈ asked) : env.request.Within queueRun exchangeRun (run k) :=
  (keeps_of_reachable reached k env member).within

/-- Runs on a shared broker do not disturb each other, nor do they disturb other clients: what is delivered to a
connection was published by a connection of the same run, and to that run's exchange. -/
theorem runs_isolated (reached : askingBroker.Reachable (Polite run) (w, asked)) {frame : Model.Frame}
    {deliver : Deliver} (written : frame ∈ w.wire k) (delivers : frame.payload = .deliver deliver) :
    (∃ k' id sent, Asks asked k' id (.publish sent) ∧ sent.body = deliver.body ∧ run k' = run k) ∧
      ∀ runid, deliver.exchange = (runNames runid).exchange ↔ run k = some runid := by
  have entitled := (entitled_of_reachable reached.any k frame written deliver delivers).1
  obtain ⟨realm, source⟩ := entitled.within (within_of_reachable reached)
  refine ⟨source, fun runid => ?_⟩
  rw [← realm, exchangeRun, afterLead_eq_some]
  rfl

/-- Connection `k` sets up the fixture of a run and consumes from it. -/
def fixture (k : ConnectionRef) (runid : String) : List Label :=
  let names := runNames runid
  .accept :: served k ⟨0, 0, false, .channelOpen 1⟩ [{}] ++
    served k ⟨1, 0, false, .exchangeDeclare names.exchange⟩ [{}, {}] ++
    served k ⟨1, 0, false, .queueDeclare names.queue "" ""⟩ [{}, {}] ++
    served k ⟨1, 0, false, .queueBind names.queue names.exchange names.routingKey⟩ [{}, {}, {}] ++
    served k ⟨1, 0, false, .consume names.queue ""⟩ [{}, {}, {}, {}, {}]

/-- The message of a run comes to the queue `q`. -/
def sending (k : ConnectionRef) (runid : String) (q : QueueRef) (body : List UInt8) : List Label :=
  served k ⟨1, 0, false, .publish ⟨(runNames runid).exchange, (runNames runid).routingKey, body⟩⟩
    [{}, { refs := [q] }, {}, {}, {}]

def twoRuns (k : ConnectionRef) : Option String := if k = 0 then some "a" else if k = 1 then some "b" else none

/-- Two runs side by side, each of which has had a delivery. -/
def sideBySide : World × List (ConnectionRef × Envelope) :=
  askingBroker.replay (Polite twoRuns)
    (fixture 0 "a" ++ fixture 1 "b" ++ sending 0 "a" 0 [7] ++ sending 1 "b" 1 [8] ++ dispatching 0 0 ++ [.written 0] ++
      dispatching 1 1 ++ [.written 1])

theorem runs_isolated_side_by_side :
    let frame : Model.Frame := ⟨⟨1, 0⟩, .deliver ⟨1, [8], "bench.ex.b", "bench.rk.b", "ch.1.consumer.1"⟩⟩
    frame ∈ sideBySide.1.wire 1 ∧
      ∃ k id sent, Asks sideBySide.2 k id (.publish sent) ∧ sent.body = [8] ∧ twoRuns k = some "b" := by
  have reached : askingBroker.Reachable (Polite twoRuns) sideBySide := .of_replay _
  have written : ⟨⟨1, 0⟩, .deliver ⟨1, [8], "bench.ex.b", "bench.rk.b", "ch.1.consumer.1"⟩⟩ ∈ sideBySide.1.wire 1 := by
    decide +kernel
  exact ⟨written, (runs_isolated reached written rfl).1⟩

end Runs

end GolangMQ.Bench
