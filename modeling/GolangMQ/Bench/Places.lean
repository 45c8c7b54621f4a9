import GolangMQ.Bench.Callers

/-! # Places and calls

A goroutine that has returned has no call in progress, and neither have `Run` and the sampler where they make none.
`Run` waits for the publishers before it drains, and for the consumers before it stops the sampler.
-/

namespace GolangMQ.Bench

open Machine

/-- `Run` has waited for the publishers. -/
def Main.published : Main → Bool
  | .warming | .beginning | .measuring | .stopping | .shutdown true | .closing true => false
  | _ => true

/-- `Run` has waited for the consumers. -/
def Main.joined : Main → Bool
  | .finishing | .returned _ => true
  | _ => false

variable {F : Type} [Field F] [LinearOrder F] {job : Job} {e e' : Engine F}

/-- Where goroutines stand, what they have left to run, and for whom `Run` has waited. -/
structure Placed (job : Job) (e : Engine F) : Prop where
  publishers : ∀ p < job.publishers.length, (e.publisher p).place.isReturned = true → e.recorder.todo p = []
  consumers : ∀ c < job.consumers.length, (e.consumer c).isReturned = true → e.recorder.todo (job.consumerId c) = []
  main : e.main ≠ .beginning → e.recorder.todo job.mainId = []
  sampler : (∀ final, e.sampler ≠ .writing final) → e.recorder.todo job.samplerId = []
  published : e.main.published = true → e.PubsReturned job
  joined : e.main.joined = true → e.ConsReturned job
  unsampled : e.main = .warming ∨ e.main = .beginning → e.sampler = .off

namespace Placed

/-- A publisher that acts has not returned, so that `Run` is still waiting for it. -/
theorem publishes (placed : Placed job e) {p : ℕ} {slot : ChannelSlot} {label : Engine.PublishLabel}
    (inside : p < job.publishers.length) (idle : e.recorder.todo p = []) (publishes : Publishes job e p slot label e') :
    Placed job e' := by
  have waiting (place : (e.publisher p).place.isReturned = false) : e.main.published ≠ true := fun published => by
    obtain ⟨err, returned⟩ := placed.published published p inside
    rw [returned] at place
    contradiction
  have others {publisher : ℕ → PublishWorker} {worker : PublishWorker} {recorder : Recorder F}
      (updated : publisher = Function.update e.publisher p worker)
      (same : ∀ i ≠ p, e.recorder.todo i = [] → recorder.todo i = [])
      (here : worker.place.isReturned = true → recorder.todo p = []) (q : ℕ) (within : q < job.publishers.length)
      (returned : (publisher q).place.isReturned = true) : recorder.todo q = [] := by
    rw [updated] at returned
    by_cases equal : q = p
    · subst equal
      rw [Function.update_self] at returned
      exact here returned
    · rw [Function.update_of_ne equal] at returned
      exact same q equal (placed.publishers q within returned)
  cases publishes with
  | finish place | select place | refuse place | allocate place | stamp place | fail place =>
    have before : (e.publisher p).place.isReturned = false := by rw [place]; rfl
    exact ⟨others rfl (fun _ _ => id) fun _ => idle, placed.consumers, placed.main, placed.sampler,
      fun published => absurd published (waiting before), placed.joined, placed.unsampled⟩
  | @publish i seq recorder place recorded =>
    have before : (e.publisher p).place.isReturned = false := by rw [place]; rfl
    have same (i : ℕ) (other : i ≠ p) (none : e.recorder.todo i = []) : recorder.todo i = [] :=
      Recorder.idle_step recorded (fun calls => other (Option.some.inj calls).symm) none
    refine ⟨others rfl same fun returned => absurd returned (by simp [PublishPlace.isReturned]),
      fun c within returned => same _ ?_ (placed.consumers c within returned),
      fun elsewhere => same _ ?_ (placed.main elsewhere), fun elsewhere => same _ ?_ (placed.sampler elsewhere),
      fun published => absurd published (waiting before), placed.joined, placed.unsampled⟩ <;>
    · simp only [Job.consumerId, Job.mainId, Job.samplerId]
      omega

/-- A consumer that acts has not returned, so that `Run` is still waiting for it. -/
theorem consumes (placed : Placed job e) {c : ℕ} {slot : ChannelSlot} {label : Engine.ConsumeLabel}
    (inside : c < job.consumers.length) (idle : e.recorder.todo (job.consumerId c) = [])
    (consumes : Consumes job e c slot label e') : Placed job e' := by
  have waiting (place : (e.consumer c).isReturned = false) : e.main.joined ≠ true := fun joined => by
    obtain ⟨failed, returned⟩ := placed.joined joined c inside
    rw [returned] at place
    contradiction
  have others {consumer : ℕ → ConsumePlace F} {place : ConsumePlace F} {recorder : Recorder F}
      (updated : consumer = Function.update e.consumer c place)
      (same : ∀ i ≠ job.consumerId c, e.recorder.todo i = [] → recorder.todo i = [])
      (here : place.isReturned = true → recorder.todo (job.consumerId c) = []) (d : ℕ)
      (within : d < job.consumers.length) (returned : (consumer d).isReturned = true) :
      recorder.todo (job.consumerId d) = [] := by
    rw [updated] at returned
    by_cases equal : d = c
    · subst equal
      rw [Function.update_self] at returned
      exact here returned
    · rw [Function.update_of_ne equal] at returned
      exact same _ (fun clash => equal (Nat.add_left_cancel clash)) (placed.consumers d within returned)
  have called {i : ℕ} {record : Record F} {place : ConsumePlace F} {recorder : Recorder F} {seen : List Bool}
      (before : (e.consumer c).isReturned = false) (goes : place.isReturned = false)
      (recorded : e.recorder.step? job.plan (.record i record) = some recorder) (mine : i = job.consumerId c) :
      Placed job { e.consumerTo c place with recorder, seen } := by
    have same (j : ℕ) (other : j ≠ job.consumerId c) (none : e.recorder.todo j = []) : recorder.todo j = [] :=
      Recorder.idle_step recorded (fun calls => other ((Option.some.inj calls).symm.trans mine)) none
    refine ⟨fun p within returned => same _ ?_ (placed.publishers p within returned),
      others rfl same fun returned => absurd (goes.symm.trans returned) Bool.false_ne_true,
      fun elsewhere => same _ ?_ (placed.main elsewhere), fun elsewhere => same _ ?_ (placed.sampler elsewhere),
      placed.published, fun joined => absurd joined (waiting before), placed.unsampled⟩ <;>
    · simp only [Job.consumerId, Job.mainId, Job.samplerId]
      omega
  cases consumes with
  | receive place | finish place | locate place | fail place =>
    have before : (e.consumer c).isReturned = false := by rw [place]; rfl
    exact ⟨placed.publishers, others rfl (fun _ _ => id) fun _ => idle, placed.main, placed.sampler, placed.published,
      fun joined => absurd joined (waiting before), placed.unsampled⟩
  | deliver place recorded =>
    refine called (by rw [place]; rfl) ?_ recorded rfl
    split <;> rfl
  | ack place recorded => exact called (by rw [place]; rfl) rfl recorded rfl

/-- `Run` goes on to the next place without a call. -/
theorem goes (placed : Placed job e) (idle : e.recorder.todo job.mainId = []) {next : Main} {sampler : Sampler}
    {stats : Stats F} {stopPub stopSampler drained : Bool}
    (sampling : (∀ final, sampler ≠ .writing final) → e.recorder.todo job.samplerId = [])
    (published : next.published = false ∨ e.main.published = true ∨ e.PubsReturned job)
    (joined : next.joined = false ∨ e.main.joined = true ∨ e.ConsReturned job)
    (started : next ≠ .warming ∧ next ≠ .beginning) :
    Placed job { e with
      recorder := { e.recorder with stats }, main := next, sampler, stopPub, stopSampler, drained } :=
  ⟨placed.publishers, placed.consumers, fun _ => idle, sampling,
    fun goes => (published.resolve_left (by simp [goes])).elim placed.published id,
    fun goes => (joined.resolve_left (by simp [goes])).elim placed.joined id,
    fun early => absurd early (not_or.2 started)⟩

private theorem directs (placed : Placed job e) (idle : e.recorder.todo job.mainId = []) (directs : Directs job e e') :
    Placed job e' := by
  cases directs with
  | @begin recorder place begun =>
    have same (i : ℕ) (other : i ≠ job.mainId) (none : e.recorder.todo i = []) : recorder.todo i = [] :=
      Recorder.idle_step begun (fun calls => other (Option.some.inj calls).symm) none
    refine ⟨fun p within returned => same _ ?_ (placed.publishers p within returned),
      fun c within returned => same _ ?_ (placed.consumers c within returned), fun away => absurd rfl away,
      fun elsewhere => same _ ?_ (placed.sampler elsewhere), (absurd · Bool.false_ne_true),
      (absurd · Bool.false_ne_true), fun _ => placed.unsampled (.inl place)⟩ <;>
    · simp only [Job.consumerId, Job.mainId, Job.samplerId]
      omega
  | abort | exceeded | stop => exact placed.goes idle placed.sampler (.inl rfl) (.inl rfl) (by simp)
  | measure place returned =>
    refine placed.goes idle (fun _ => placed.sampler fun final => ?_) (.inl rfl) (.inl rfl) (by simp)
    simp [placed.unsampled (.inr place)]
  | published place returned => exact placed.goes idle placed.sampler (.inr (.inr returned)) (.inl rfl) (by simp)
  | interrupt place =>
    refine placed.goes idle placed.sampler (.inr (.inl ?_)) (.inl rfl) (by simp)
    rcases place with place | place <;> rw [place] <;> rfl
  | drain place | skip place | load place | again place | loadPublished place | loadConsumed place | noDrops place
  | storeDrops place =>
    exact placed.goes idle placed.sampler (.inr (.inl (by rw [place]; rfl))) (.inl rfl) (by simp)
  | @drained looping loads place =>
    cases looping <;> exact placed.goes idle placed.sampler (.inr (.inl (by rw [place]; rfl))) (.inl rfl) (by simp)
  | undrained place result goes =>
    rcases goes with rfl | rfl | rfl <;>
      exact placed.goes idle placed.sampler (.inr (.inl (by rw [place]; rfl))) (.inl rfl) (by simp)
  | @shutdown abort place =>
    cases abort with
    | true => exact placed.goes idle placed.sampler (.inl rfl) (.inl rfl) (by simp)
    | false => exact placed.goes idle placed.sampler (.inr (.inl (by rw [place]; rfl))) (.inl rfl) (by simp)
  | close place returned => exact placed.goes idle placed.sampler (.inr (.inr returned)) (.inl rfl) (by simp)
  | join place returned =>
    exact placed.goes idle placed.sampler (.inr (.inl (by rw [place]; rfl))) (.inr (.inr returned)) (by simp)
  | fail place =>
    rcases place with ⟨place, returned⟩ | place
    · exact placed.goes idle placed.sampler (.inr (.inl (by rw [place]; rfl))) (.inr (.inr returned)) (by simp)
    · exact placed.goes idle placed.sampler (.inr (.inl (by rw [place]; rfl))) (.inr (.inl (by rw [place]; rfl)))
        (by simp)
  | succeed place =>
    exact placed.goes idle placed.sampler (.inr (.inl (by rw [place]; rfl))) (.inr (.inl (by rw [place]; rfl)))
      (by simp)

private theorem samples (placed : Placed job e) (idle : e.recorder.todo job.samplerId = [])
    (samples : Samples job e e') :
    Placed job e' := by
  have started (early : e.main = .warming ∨ e.main = .beginning) {place : Sampler} (on : e.sampler = place)
      (other : place ≠ .off) : False := other (on.symm.trans (placed.unsampled early))
  cases samples with
  | @sample final recorder place stopped begun =>
    have same (i : ℕ) (other : i ≠ job.samplerId) (none : e.recorder.todo i = []) : recorder.todo i = [] :=
      Recorder.idle_step begun (fun calls => other (Option.some.inj calls).symm) none
    refine ⟨fun p within returned => same _ ?_ (placed.publishers p within returned),
      fun c within returned => same _ ?_ (placed.consumers c within returned),
      fun elsewhere => same _ ?_ (placed.main elsewhere), fun elsewhere => absurd rfl (elsewhere final),
      placed.published, placed.joined, fun early => (started early place (by simp)).elim⟩ <;>
    · simp only [Job.consumerId, Job.mainId, Job.samplerId]
      omega
  | write place | fail place =>
    exact ⟨placed.publishers, placed.consumers, placed.main, fun _ => idle, placed.published, placed.joined,
      fun early => (started early place (by simp)).elim⟩

private theorem init : Placed job (engine F job).init := by
  refine ⟨fun _ _ _ => rfl, fun _ _ _ => rfl, fun _ => rfl, fun _ => rfl, ?_, ?_, ?_⟩
  all_goals
    simp only [engine]
    split <;> simp [Main.published, Main.joined]

private theorem step (placed : Placed job e) {label : Engine.Label} (acts : Acts job e label e') : Placed job e' := by
  cases acts with
  | publisher listed idle publishes => exact placed.publishes (List.getElem?_eq_some_iff.1 listed).1 idle publishes
  | consumer listed idle consumes => exact placed.consumes (List.getElem?_eq_some_iff.1 listed).1 idle consumes
  | main idle directs => exact placed.directs idle directs
  | sampler idle samples => exact placed.samples idle samples
  | run ran =>
    have same (i : ℕ) := Recorder.idle_step (j := i) ran nofun
    exact ⟨fun p within returned => same _ (placed.publishers p within returned),
      fun c within returned => same _ (placed.consumers c within returned),
      fun elsewhere => same _ (placed.main elsewhere), fun elsewhere => same _ (placed.sampler elsewhere),
      placed.published, placed.joined, placed.unsampled⟩
  | cancel =>
    exact ⟨placed.publishers, placed.consumers, placed.main, placed.sampler, placed.published, placed.joined,
      placed.unsampled⟩

end Placed

theorem placed_of_reachable {ok : Engine F → Engine.Label → Prop} (reached : (engine F job).Reachable ok e) :
    Placed job e :=
  reached.invariant Placed.init fun _ placed _ stepped => placed.step (acts_of_step stepped)

/-- Publishers that have returned have nothing left to run. -/
theorem Placed.publishers_idle (placed : Placed job e) (returned : e.PubsReturned job) (i : ℕ)
    (kind : job.kind i = .publisher) : e.recorder.todo i = [] := by
  have inside := Job.lt_of_kind_publisher kind
  exact placed.publishers i inside (PublishPlace.isReturned_iff.2 (returned i inside))

theorem Placed.consumers_idle (placed : Placed job e) (returned : e.ConsReturned job) (i : ℕ)
    (kind : job.kind i = .consumer) : e.recorder.todo i = [] := by
  obtain ⟨c, inside, rfl⟩ := Job.of_kind_consumer kind
  exact placed.consumers c inside (ConsumePlace.isReturned_iff.2 (returned c inside))

end GolangMQ.Bench
