import GolangMQ.Bench.Actions
import GolangMQ.Bench.Arrivals

/-! # Who runs what

A call of the recorder is made by the goroutine that the source makes it in: publishers record publishes, consumers
record deliveries and acknowledgements, `Run` begins the measured phase, and the sampler takes the rows. What a
goroutine has left to run tells its kind, so that a counter stands still as soon as the goroutines that add to it do.
-/

namespace GolangMQ.Bench

open Machine

/-- The kinds of goroutines. -/
inductive Kind where
  | publisher
  | consumer
  | main
  | sampler
deriving DecidableEq, Repr

def Job.kind (job : Job) (i : ℕ) : Kind :=
  if i < job.publishers.length then .publisher
  else if i < job.mainId then .consumer
  else if i = job.mainId then .main
  else .sampler

variable {F : Type} {job : Job}

namespace Job

private theorem kind_publisher {p : ℕ} (inside : p < job.publishers.length) : job.kind p = .publisher := if_pos inside

private theorem kind_consumer {c : ℕ} (inside : c < job.consumers.length) :
    job.kind (job.consumerId c) = .consumer := by
  rw [kind, if_neg (by simp [consumerId]), if_pos (by simpa [consumerId, mainId] using inside)]

private theorem kind_main : job.kind job.mainId = .main := by
  rw [kind, if_neg (by simp [mainId]), if_neg (lt_irrefl _), if_pos rfl]

theorem kind_sampler : job.kind job.samplerId = .sampler := by
  rw [kind, if_neg (by simp [samplerId]; omega), if_neg (by simp [samplerId, mainId]),
    if_neg (by simp [samplerId, mainId])]

theorem lt_of_kind_publisher {i : ℕ} (kind : job.kind i = .publisher) : i < job.publishers.length := by
  by_contra beyond
  rw [Job.kind, if_neg beyond] at kind
  split_ifs at kind

theorem of_kind_consumer {i : ℕ} (kind : job.kind i = .consumer) :
    ∃ c < job.consumers.length, i = job.consumerId c := by
  rw [Job.kind] at kind
  split_ifs at kind with first second
  refine ⟨i - job.publishers.length, ?_, ?_⟩ <;> simp only [mainId, consumerId] at second ⊢ <;> omega

theorem of_kind_main {i : ℕ} (kind : job.kind i = .main) : i = job.mainId := by
  rw [Job.kind] at kind
  split_ifs at kind with _ _ same
  exact same

theorem of_kind_sampler {i : ℕ} (kind : job.kind i = .sampler) (inside : i < job.plan.workers) : i = job.samplerId := by
  rw [Job.kind] at kind
  split_ifs at kind with _ second third
  simp only [mainId, samplerId, plan, Topology.plan] at second third inside ⊢
  omega

end Job

/-- Who makes a record call. -/
def Record.caller : Record F → Kind
  | .publish .. => .publisher
  | .deliver .. | .ack .. => .consumer

/-- Who makes an update; no one increments `drops`. -/
def Update.callers : Update F → List Kind
  | .add .allPublished | .add .published | .add .pubW | .connPublish _ | .pubChPublish _ => [.publisher]
  | .add .drops => []
  | .add _ | .sample .. | .connDeliver .. => [.consumer]
  | .clear _ | .resetLatency _ | .resetConn _ | .resetPubCh _ => [.main]

private theorem Record.caller_of_mem {record : Record F} {u : Update F} (member : u ∈ record.arrival ++ record.body) :
    record.caller ∈ u.callers := by
  have all : ∀ u ∈ record.arrival ++ record.body, record.caller ∈ u.callers := by
    cases record with
    | publish slot => simp only [arrival, body]; split <;> simp [Update.callers, caller]
    | deliver slot _ _ dup =>
      simp only [arrival, body]
      generalize slot.role.key = key
      cases dup <;> cases key <;> simp [Update.callers, caller]
    | ack => simp [arrival, body, Update.callers, caller]
  exact all u member

private theorem Stats.caller_of_mem {plan : Plan} {u : Update F} (member : u ∈ Stats.resetAll F plan) :
    Kind.main ∈ u.callers := by
  have clears := Stats.clears_of_mem member
  cases u <;> first | exact List.mem_singleton_self _ | contradiction

variable [Field F]

def Op.callers : Op F → List Kind
  | .update u => u.callers
  | .check record => [record.caller]
  | .rlock | .runlock => [.publisher, .consumer]
  | .lock | .cut | .unlock => [.main]
  | .sampling .. => [.sampler]

/-- A goroutine of this kind may run these operations. -/
def Kind.Runs (kind : Kind) (ops : List (Op F)) : Prop := ∀ op ∈ ops, kind ∈ op.callers

private theorem Kind.Runs.append {kind : Kind} {first second : List (Op F)} (runs : kind.Runs first)
    (then_ : kind.Runs second) :
    kind.Runs (first ++ second) := fun op member =>
  (List.mem_append.1 member).elim (runs op) (then_ op)

private theorem Kind.Runs.updates {kind : Kind} {updates : List (Update F)} (mine : ∀ u ∈ updates, kind ∈ u.callers) :
    kind.Runs (updates.map Op.update) := by
  intro op member
  obtain ⟨u, listed, rfl⟩ := List.mem_map.1 member
  exact mine u listed

private theorem Record.runs_runlock (record : Record F) : record.caller.Runs [Op.runlock (F := F)] := by
  cases record <;> simp [Kind.Runs, Op.callers, caller]

private theorem Record.runs_ops (record : Record F) : record.caller.Runs record.ops := by
  refine .append (.updates fun u member => caller_of_mem (List.mem_append.2 (.inl member))) ?_
  cases record <;> simp [Kind.Runs, Op.callers, caller]

private theorem runs_beginMeasured (plan : Plan) : Kind.main.Runs (beginMeasured F plan) := by
  refine .append (.append ?_ (.updates fun u member => Stats.caller_of_mem member)) ?_ <;>
    simp [Kind.Runs, Op.callers]

variable [LinearOrder F] {r r' : Recorder F} {e e' : Engine F}

/-- A call is made by the goroutine that makes it in the source. -/
def Recorder.CalledBy (job : Job) : Recorder.Label F → Prop
  | .record i made => job.kind i = made.caller
  | .begin i => i = job.mainId
  | .sample i => i = job.samplerId
  | _ => True

/-- What goroutines have left to run is what their kind runs. -/
def Called (job : Job) (r : Recorder F) : Prop := ∀ i, (job.kind i).Runs (r.todo i)

private theorem Called.update (called : Called job r) {i : ℕ} {ops : List (Op F)} (runs : (job.kind i).Runs ops)
    (todo : r'.todo = Function.update r.todo i ops) : Called job r' := by
  rw [Called, todo, Function.forall_update_iff r.todo fun j pending => (job.kind j).Runs pending]
  exact ⟨runs, fun j _ => called j⟩

private theorem Called.step (called : Called job r) {plan : Plan} {label : Recorder.Label F}
    (caller : Recorder.CalledBy job label)
    (phased : Phased plan r) (stepped : r.step? plan label = some r') : Called job r' := by
  cases label with
  | allocate | storeDrops => cases stepped; exact called
  | record i record =>
    obtain ⟨after, started, rfl⟩ := Option.map_eq_some_iff.1 stepped
    obtain ⟨-, -, rfl⟩ := Recorder.call_eq_some started
    have kind : job.kind i = record.caller := caller
    exact called.update (kind ▸ record.runs_ops) rfl
  | begin i =>
    obtain ⟨-, -, rfl⟩ := Recorder.call_eq_some stepped
    have same : i = job.mainId := caller
    exact called.update (same ▸ Job.kind_main ▸ runs_beginMeasured plan) rfl
  | sample i =>
    obtain ⟨-, -, rfl⟩ := Recorder.call_eq_some stepped
    have same : i = job.samplerId := caller
    refine called.update ?_ rfl
    rw [same, Job.kind_sampler]
    simp [Kind.Runs, Op.callers]
  | run i =>
    have tail {first : Op F} {rest : List (Op F)} (pending : r.todo i = first :: rest) : (job.kind i).Runs rest :=
      fun op member => called i op (pending ▸ List.mem_cons_of_mem _ member)
    have checks {record : Record F} (pending : r.todo i = [.check record]) : job.kind i = record.caller :=
      List.mem_singleton.1 (called i (.check record) (pending ▸ List.mem_singleton_self _))
    cases phased.moves stepped with
    | arrive _ pending | record _ pending | clear _ pending => exact called.update (tail pending) rfl
    | rlock pending | cut pending => exact called.update (tail pending) rfl
    | @skip record pending => exact called.update (checks pending ▸ record.runs_runlock) rfl
    | @check record pending =>
      refine called.update (checks pending ▸ .append ?_ record.runs_runlock) rfl
      exact .updates fun u member => Record.caller_of_mem (List.mem_append.2 (.inr member))
    | lock pending =>
      have first : r.todo i = .lock :: .cut :: ((Stats.resetAll F plan).map .update ++ [.unlock]) := pending
      exact called.update (tail first) rfl
    | runlock pending | unlock pending | emit pending => exact called.update (tail pending) rfl
    | @read row reading left _ pending =>
      have runs := called i (.sampling row (reading :: left)) (pending ▸ List.mem_singleton_self _)
      have same : job.kind i = .sampler := List.mem_singleton.1 runs
      refine called.update ?_ rfl
      rw [same]
      simp [Kind.Runs, Op.callers]

theorem called_of_reachable {plan : Plan} {ok : Recorder F → Recorder.Label F → Prop}
    (callers : ∀ r label, ok r label → Recorder.CalledBy job label) (reached : (recorder F plan).Reachable ok r) :
    Called job r :=
  reached.invariant (P := Called job) (fun _ _ member => absurd member List.not_mem_nil)
    fun before called allowed stepped => called.step (callers _ _ allowed) (phased_of_reachable before) stepped

/-- A sequence number that a worker is about to record. -/
def Engine.Holds (e : Engine F) (s : ℕ) : Prop :=
  (∃ p i seq, (e.publisher p).place = .publishing i seq ∧ seq.toNat = s) ∨
    (∃ c seq idx delLatUs, e.consumer c = .located seq idx delLatUs ∧ seq.toNat = s) ∨
    ∃ c seq, e.consumer c = .acking seq ∧ seq.toNat = s

/-- What the workers make of the recorder: each calls what it calls in the source, for a message that it holds. -/
def Engine.Drives (job : Job) (e : Engine F) (label : Recorder.Label F) : Prop :=
  Recorder.CalledBy job label ∧ ∀ record ∈ label.made, e.Holds record.seq

private theorem Acts.recorder {label : Engine.Label} (acts : Acts job e label e') :
    e'.recorder = e.recorder ∨ ∃ l, e.Drives job l ∧ e.recorder.step? job.plan l = some e'.recorder := by
  have silent {l : Recorder.Label F} (caller : Recorder.CalledBy job l) (none : l.made = []) : e.Drives job l :=
    ⟨caller, by simp [none]⟩
  cases acts with
  | @publisher p slot label e' listed idle publishes =>
    have inside : p < job.publishers.length := (List.getElem?_eq_some_iff.1 listed).1
    cases publishes with
    | refuse | allocate => exact .inr ⟨.allocate, silent trivial rfl, rfl⟩
    | @publish i seq _ place recorded =>
      refine .inr ⟨.record p (.publish slot seq.toNat), ⟨Job.kind_publisher inside, fun record made => ?_⟩, recorded⟩
      rw [List.mem_singleton.1 made]
      exact .inl ⟨p, i, seq, place, rfl⟩
    | _ => exact .inl rfl
  | @consumer c slot label e' listed idle consumes =>
    have inside : c < job.consumers.length := (List.getElem?_eq_some_iff.1 listed).1
    cases consumes with
    | @deliver seq idx delLatUs _ place recorded =>
      refine .inr ⟨.record _ (.deliver ..), ⟨Job.kind_consumer inside, fun record made => ?_⟩, recorded⟩
      rw [List.mem_singleton.1 made]
      exact .inr (.inl ⟨c, seq, idx, delLatUs, place, rfl⟩)
    | @ack seq nanos _ place recorded =>
      refine .inr ⟨.record _ (.ack ..), ⟨Job.kind_consumer inside, fun record made => ?_⟩, recorded⟩
      rw [List.mem_singleton.1 made]
      exact .inr (.inr ⟨c, seq, place, rfl⟩)
    | _ => exact .inl rfl
  | main _ directs =>
    cases directs with
    | begin _ begun => exact .inr ⟨.begin job.mainId, silent rfl rfl, begun⟩
    | @storeDrops pub con => exact .inr ⟨.storeDrops (pub - con), silent trivial rfl, rfl⟩
    | _ => exact .inl rfl
  | sampler _ samples =>
    cases samples with
    | sample _ _ begun => exact .inr ⟨.sample job.samplerId, silent rfl rfl, begun⟩
    | _ => exact .inl rfl
  | @run i _ ran => exact .inr ⟨.run i, silent trivial rfl, ran⟩
  | cancel => exact .inl rfl

/-- The recorder of a run is in a state that its own machine reaches. -/
theorem recorder_of_reachable {ok : Engine F → Engine.Label → Prop} {allowed : Recorder F → Recorder.Label F → Prop}
    (admits : ∀ e l, (engine F job).Reachable ok e → e.Drives job l → allowed e.recorder l)
    (reached : (engine F job).Reachable ok e) : (recorder F job.plan).Reachable allowed e.recorder := by
  refine reached.invariant (P := fun e => (recorder F job.plan).Reachable allowed e.recorder) .init ?_
  intro e e' label before known _ stepped
  rcases (acts_of_step stepped).recorder with same | ⟨l, drives, moved⟩
  · rwa [same]
  · exact known.step (admits e l before drives) moved

/-- The recorder of a run, with the callers of its calls. -/
theorem calls_of_reachable {ok : Engine F → Engine.Label → Prop} (reached : (engine F job).Reachable ok e) :
    (recorder F job.plan).Reachable (fun _ label => Recorder.CalledBy job label) e.recorder :=
  recorder_of_reachable (fun _ _ _ drives => drives.1) reached

/-- Nothing is to be added to a counter when the goroutines that add to it have nothing left to run. -/
theorem Called.adds_eq_zero (called : Called job r) {c : Counter}
    (idle : ∀ i, job.kind i ∈ (Update.add c : Update F).callers → r.todo i = []) {i : ℕ} {op : Op F}
    (pending : op ∈ r.todo i) : op.adds c = 0 := by
  cases op with
  | update u =>
    cases u with
    | add d =>
      refine if_neg fun same => ?_
      subst same
      rw [idle i (called i _ pending)] at pending
      exact List.not_mem_nil pending
    | _ => rfl
  | _ => rfl

theorem Called.load_eq_zero (called : Called job r) {plan : Plan} {c : Counter}
    (idle : ∀ i, job.kind i ∈ (Update.add c : Update F).callers → r.todo i = []) :
    load (Op.adds c) plan.workers r.todo = 0 := by
  refine Finset.sum_eq_zero fun i _ => List.sum_eq_zero fun x member => ?_
  obtain ⟨op, pending, rfl⟩ := List.mem_map.1 member
  exact called.adds_eq_zero idle pending

/-- A counter that an operation does not add to stands still, except that `Run` clears it with `beginMeasured`. -/
theorem Called.counter_run (called : Called job r) {plan : Plan} {c : Counter} {i : ℕ} (total : c.windowed = false)
    (still : ∀ op ∈ (r.todo i).head?, op.adds c = 0) (moves : Moves plan r i r') :
    r'.stats.counter c = r.stats.counter c ∨ r.todo job.mainId ≠ [] ∧ r'.stats.counter c = 0 := by
  rcases moves.counter_eq total with ⟨op, first, more⟩ | ⟨⟨rest, pending⟩, -, cleared⟩
  · rw [more, still op first, add_zero]
    exact .inl rfl
  · have mine : job.kind i = .main :=
      List.mem_singleton.1 (called i (.update (.clear c)) (by rw [pending]; exact List.mem_cons_self))
    rw [← Job.of_kind_main mine, pending]
    exact .inr ⟨List.cons_ne_nil _ _, cleared⟩

end GolangMQ.Bench
