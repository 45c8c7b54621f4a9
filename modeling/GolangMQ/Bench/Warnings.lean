import GolangMQ.Bench.Duplicates
import GolangMQ.Bench.Overflow
import GolangMQ.Bench.SharedBroker
import GolangMQ.Requests.Budgets

/-! # What the absence of a warning is worth

`Warnings` warns when `publishers x msgs` exceeds the space of delivery tags. The number is the size of the plan, and
what wraps is a counter of the broker that other clients publish to as well. But the queue of a run is bound to the
exchange of the run only, so that the publishes of the run alone use up its tags.
-/

namespace GolangMQ.Bench

open Machine Model

variable {run : ConnectionRef → Option String} {w : World} {asked : List (ConnectionRef × Envelope)} {q : QueueRef}
  {runid : String}

/-- The exchange of a run. -/
def exchangeOfRun (runid exchange : String) : Bool := exchange == (runNames runid).exchange

private theorem exchangeRun_eq_some {exchange : String} :
    exchangeRun exchange = some runid ↔ exchangeOfRun runid exchange := by
  rw [exchangeRun, afterLead_eq_some, exchangeOfRun, beq_iff_eq]
  rfl

/-- Only the exchange of a run leads to its queue, and dead letters do not. -/
private theorem reached_of_polite (recorded : askingBroker.Reachable (Polite run) (w, asked))
    (mine : (w.queue q).name = (runNames runid).queue) :
    Reached w asked q (runNames runid).queue (exchangeOfRun runid) false := by
  refine ⟨fun _ => mine, fun exchange key binds => ?_, fun _ queue dlx key declares enabled => ?_⟩
  · have own : queueRun (runNames runid).queue = some runid := afterLead_eq_some.2 rfl
    exact exchangeRun_eq_some.1 ((binds.realm_eq (within_of_reachable recorded)).symm.trans own)
  · obtain ⟨k, env, member, request⟩ := declares
    have keeps := keeps_of_reachable recorded k env member
    rw [request] at keeps
    rw [← exchangeRun_eq_some]
    cases own : run k with
    | some other =>
      rw [own] at keeps
      simp only [Keeps, ofRun, Bool.and_eq_true, beq_iff_eq] at keeps
      exact absurd keeps.1.2 enabled
    | none =>
      rw [own] at keeps
      have foreign := keeps.2.resolve_left enabled
      simp [foreign]

/-- A publish that the broker accepts. -/
def publishes (env : Envelope) : Bool :=
  match env.request with
  | .publish _ => !env.malformed
  | _ => false

/-- The publishes of one run. -/
def publishesOf (run : ConnectionRef → Option String) (runid : String) (ask : ConnectionRef × Envelope) : Bool :=
  run ask.1 == some runid && publishes ask.2

/-- What takes a tag of a run's queue is a publish of that run. -/
private theorem publishesOf_of_takesTag (recorded : askingBroker.Reachable (Polite run) (w, asked))
    {ask : ConnectionRef × Envelope} (member : ask ∈ asked) (takes : ask.2.takesTag (exchangeOfRun runid) false) :
    publishesOf run runid ask := by
  obtain ⟨k, env⟩ := ask
  have within := within_of_reachable recorded k env member
  unfold Envelope.takesTag at takes
  cases request : env.request with
  | publish event =>
    rw [request] at within takes
    obtain ⟨decodes, own⟩ := Bool.and_eq_true_iff.1 takes
    have mine : run k = some runid := within.symm.trans (exchangeRun_eq_some.2 own)
    simpa [publishesOf, publishes, request, mine] using decodes
  | _ => simp [request] at takes

/-- The warning is about the number that `Run` computes as well, in the same 64 bits. -/
private theorem Job.total_le_of_unwarned (job : Job) (unwarned : ∀ total, Config.tagWarning total ∉ job.cfg.warnings) :
    job.total ≤ 65535 := by
  have limit : ¬ 65535 < job.cfg.publishers * job.cfg.msgs := fun exceeds =>
    unwarned _ ((Config.tagWarning_mem_warnings _).2 ⟨rfl, exceeds⟩)
  rw [Int64.lt_iff_toInt_lt] at limit
  exact Int.toNat_le.2 (not_lt.1 limit)

/-- A run of which `Warnings` does not say that delivery tags may wrap: as long as its connections publish no more
than was planned, no two messages on its queue get the same tag, whatever other clients publish. -/
theorem unwarned_tags_distinct (recorded : askingBroker.Reachable (Polite run) (w, asked))
    (mine : (w.queue q).name = (runNames runid).queue) {job : Job}
    (unwarned : ∀ total, Config.tagWarning total ∉ job.cfg.warnings)
    (planned : asked.countP (publishesOf run runid) ≤ job.total) :
    (w.queue q).log.tagged ≤ 65535 ∧ ((w.queue q).log.enqueued.map (·.message.deliveryTag)).Nodup := by
  have few := job.total_le_of_unwarned unwarned
  have taken := tagged_le_asked recorded.any (reached_of_polite recorded mine)
  have counted : asked.countP (fun ask => ask.2.takesTag (exchangeOfRun runid) false) ≤
      asked.countP (publishesOf run runid) :=
    List.countP_mono_left fun ask member => publishesOf_of_takesTag recorded member
  have bounded : (w.queue q).log.tagged ≤ 65535 := by omega
  refine ⟨bounded, ?_⟩
  have distinct := (sound_of_reachable recorded.any.of_recording q).nodup_tags (distinct_of_bound bounded)
  rwa [World.ledger, Queue.ledger, List.map_map] at distinct

/-- The two runs have published one message each, as many as were planned with one message for each of one publisher. -/
theorem unwarned_tags_distinct_side_by_side :
    (sideBySide.1.queue 1).log.tagged = 1 ∧
      ((sideBySide.1.queue 1).log.enqueued.map (·.message.deliveryTag)).Nodup := by
  have recorded : askingBroker.Reachable (Polite twoRuns) sideBySide := .of_replay _
  have mine : (sideBySide.1.queue 1).name = (runNames "b").queue := by decide +kernel
  have planned : sideBySide.2.countP (publishesOf twoRuns "b") ≤ (onePair 1 true).total := by decide +kernel
  have unwarned : ∀ total, Config.tagWarning total ∉ (onePair 1 true).cfg.warnings := by
    intro total warned
    have exceeds := ((Config.tagWarning_mem_warnings total).1 warned).2
    exact absurd exceeds (by decide)
  exact ⟨by decide +kernel, (unwarned_tags_distinct recorded mine unwarned planned).2⟩

end GolangMQ.Bench
