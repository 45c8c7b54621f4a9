import GolangMQ.Bench.Numbers
import GolangMQ.Bench.Places

/-! # The losses of a run

`Run` computes `drops` from `published` and `consumed` before it closes the clients, and builds the summary after the
consumers have returned; the last row is filled in between. Publishers have returned by then, so that the three agree
as long as no consumer adds to `consumed` after `Run` has loaded it.
-/

namespace GolangMQ.Bench

open Machine

/-- `Run` has loaded `consumed` for the losses. -/
def Main.counted : Main → Bool
  | .dropping (_ :: _ :: _) | .shutdown false | .closing false | .joining false | .finishing | .returned _ => true
  | _ => false

/-- What `Run` knows of the losses, by its place. -/
def Main.Accounts (published consumed drops : ℕ) : Main → Prop
  | .dropping [pub] => drops = 0 ∧ pub = published
  | .dropping (pub :: con :: _) => drops = 0 ∧ pub = published ∧ con = consumed
  | .shutdown false | .closing false | .joining false | .finishing => drops = published - consumed
  | .returned _ => True
  | _ => drops = 0

/-- The counters keep the values that `Run` has loaded. -/
theorem Main.Accounts.still {main : Main} {published consumed drops published' consumed' drops' : ℕ}
    (accounts : main.Accounts published consumed drops) (publishes : main.published = true → published' = published)
    (consumes : main.counted = true → consumed' = consumed)
    (stores : drops' = drops ∨ main.published = false ∧ drops' = 0) : main.Accounts published' consumed' drops' := by
  have same (past : main.published = true) : drops' = drops := stores.resolve_right fun early =>
    Bool.false_ne_true (early.1.symm.trans past)
  have zero (unset : drops = 0) : drops' = 0 := stores.elim (·.trans unset) (·.2)
  match main, accounts with
  | .dropping [pub], ⟨unset, pubs⟩ => exact ⟨zero unset, pubs.trans (publishes rfl).symm⟩
  | .dropping (pub :: con :: _), ⟨unset, pubs, cons⟩ =>
    exact ⟨zero unset, pubs.trans (publishes rfl).symm, cons.trans (consumes rfl).symm⟩
  | .shutdown false, lost | .closing false, lost | .joining false, lost | .finishing, lost =>
    change drops' = published' - consumed'
    rw [same rfl, publishes rfl, consumes rfl]
    exact lost
  | .returned _, _ => trivial
  | .warming, unset | .beginning, unset | .measuring, unset | .stopping, unset | .draining, unset
  | .drained _ _, unset | .pausing, unset | .dropping [], unset | .shutdown true, unset | .closing true, unset
  | .joining true, unset => exact zero unset

private theorem Main.published_of_joined {main : Main} (joined : main.joined = true) : main.published = true := by
  cases main <;> first | rfl | contradiction

variable {F : Type} [Field F] [LinearOrder F] {job : Job} {e e' : Engine F}

/-- Once `Run` has loaded `consumed` for the losses, no consumer adds to it, unless the run has been interrupted. -/
def Engine.Punctual (e : Engine F) : Engine.Label → Prop
  | .run i => e.main.counted = true → e.ctxDone = false → ∀ op ∈ (e.recorder.todo i).head?, op.adds .consumed = 0
  | _ => True

instance (e : Engine F) (label : Engine.Label) : Decidable (e.Punctual label) := by
  unfold Engine.Punctual
  split <;> infer_instance

/-- A step that leaves alone what the report of a run is made from. -/
structure Engine.SameReport (job : Job) (e e' : Engine F) : Prop where
  main : e'.main = e.main
  stats : e'.recorder.stats = e.recorder.stats
  windows : e'.recorder.windows = e.recorder.windows
  sampling : e'.recorder.todo job.samplerId = e.recorder.todo job.samplerId
  sampler : e'.sampler = e.sampler
  stopSampler : e'.stopSampler = e.stopSampler
  csvErr : e'.csvErr = e.csvErr
  rows : e'.rows = e.rows
  ctxDone : e'.ctxDone = e.ctxDone

/-- The start of a call changes only what the caller has to run. -/
private theorem Recorder.record_eq_some {plan : Plan} {r r' : Recorder F} {i : ℕ} {made : Record F}
    (recorded : r.step? plan (.record i made) = some r') :
    r'.stats = r.stats ∧ r'.windows = r.windows ∧ ∀ j ≠ i, r'.todo j = r.todo j := by
  obtain ⟨called, started, rfl⟩ := Option.map_eq_some_iff.1 recorded
  obtain ⟨-, -, rfl⟩ := Recorder.call_eq_some started
  exact ⟨rfl, rfl, fun j other => Function.update_of_ne other _ _⟩

private theorem Publishes.sameReport {p : ℕ} {slot : ChannelSlot} {label : Engine.PublishLabel}
    (inside : p < job.publishers.length) (publishes : Publishes job e p slot label e') : e.SameReport job e' := by
  cases publishes with
  | publish place recorded =>
    obtain ⟨stats, windows, others⟩ := Recorder.record_eq_some recorded
    exact ⟨rfl, stats, windows, others _ (by simp only [Job.samplerId]; omega), rfl, rfl, rfl, rfl, rfl⟩
  | _ => exact ⟨rfl, rfl, rfl, rfl, rfl, rfl, rfl, rfl, rfl⟩

private theorem Consumes.sameReport {c : ℕ} {slot : ChannelSlot} {label : Engine.ConsumeLabel}
    (inside : c < job.consumers.length) (consumes : Consumes job e c slot label e') : e.SameReport job e' := by
  have apart : job.samplerId ≠ job.consumerId c := by simp only [Job.samplerId, Job.consumerId]; omega
  cases consumes with
  | deliver place recorded | ack place recorded =>
    obtain ⟨stats, windows, others⟩ := Recorder.record_eq_some recorded
    exact ⟨rfl, stats, windows, others _ apart, rfl, rfl, rfl, rfl, rfl⟩
  | _ => exact ⟨rfl, rfl, rfl, rfl, rfl, rfl, rfl, rfl, rfl⟩

/-- A counter that no pending operation adds to stands still after `beginMeasured`. -/
theorem Called.counter_still {r r' : Recorder F} (called : Called job r) {plan : Plan} {c : Counter} {i : ℕ}
    (total : c.windowed = false) (still : ∀ op ∈ (r.todo i).head?, op.adds c = 0) (idle : r.todo job.mainId = [])
    (moves : Moves plan r i r') : r'.stats.counter c = r.stats.counter c :=
  (called.counter_run total still moves).resolve_right fun clears => clears.1 idle

private theorem Main.Accounts.directs (directs : Directs job e e') (running : e.ctxDone = false)
    (accounts : e.main.Accounts (e.recorder.stats.counter .published) (e.recorder.stats.counter .consumed)
      (e.recorder.stats.counter .drops)) :
    e'.main.Accounts (e'.recorder.stats.counter .published) (e'.recorder.stats.counter .consumed)
      (e'.recorder.stats.counter .drops) := by
  cases directs with
  | abort place | exceeded place | measure place | stop place | drain place | skip place | load place | again place =>
    rw [place] at accounts
    exact accounts
  | begin place begun =>
    obtain ⟨-, -, rfl⟩ := Recorder.call_eq_some begun
    rw [place] at accounts
    exact accounts
  | published place => rcases place with place | place <;> rw [place] at accounts <;> exact accounts
  | interrupt place done => exact absurd (running.symm.trans done) Bool.false_ne_true
  | @drained looping loads place =>
    rw [place] at accounts
    cases looping <;> exact accounts
  | undrained place result goes =>
    rw [place] at accounts
    rcases goes with rfl | rfl | rfl <;> exact accounts
  | loadPublished place =>
    rw [place] at accounts
    exact ⟨accounts, rfl⟩
  | loadConsumed place =>
    rw [place] at accounts
    exact ⟨accounts.1, accounts.2, rfl⟩
  | storeDrops place =>
    rw [place] at accounts
    obtain ⟨-, rfl, rfl⟩ := accounts
    rfl
  | noDrops place all =>
    rw [place] at accounts
    obtain ⟨none, rfl, rfl⟩ := accounts
    exact none.trans (Nat.sub_eq_zero_of_le all).symm
  | @shutdown abort place | @close abort place =>
    rw [place] at accounts
    cases abort <;> exact accounts
  | join place =>
    rw [place] at accounts
    exact accounts
  | fail | succeed => trivial

/-- What `Run` knows of the losses in a run without late deliveries. -/
theorem accounts_of_reachable {ok : Engine F → Engine.Label → Prop}
    (punctual : ∀ e label, ok e label → e.Punctual label)
    (reached : (engine F job).Reachable ok e) (running : e.ctxDone = false) :
    e.main.Accounts (e.recorder.stats.counter .published) (e.recorder.stats.counter .consumed)
      (e.recorder.stats.counter .drops) := by
  revert running
  refine reached.invariant (P := fun e => e.ctxDone = false → e.main.Accounts (e.recorder.stats.counter .published)
    (e.recorder.stats.counter .consumed) (e.recorder.stats.counter .drops)) ?_
    @fun e e' label before known allowed stepped running => ?_
  · intro _
    simp only [engine]
    split <;> rfl
  have same (report : e.SameReport job e') : e'.main.Accounts (e'.recorder.stats.counter .published)
      (e'.recorder.stats.counter .consumed) (e'.recorder.stats.counter .drops) := by
    rw [report.main, report.stats]
    exact known (report.ctxDone ▸ running)
  cases acts_of_step stepped with
  | publisher listed _ publishes => exact same (publishes.sameReport (List.getElem?_eq_some_iff.1 listed).1)
  | consumer listed _ consumes => exact same (consumes.sameReport (List.getElem?_eq_some_iff.1 listed).1)
  | main _ directs =>
    have running : e.ctxDone = false := by cases directs <;> exact running
    exact .directs directs running (known running)
  | sampler _ samples =>
    cases samples with
    | sample _ _ begun =>
      obtain ⟨-, -, rfl⟩ := Recorder.call_eq_some begun
      exact known running
    | _ => exact known running
  | @run i recorder ran =>
    have calls := calls_of_reachable before
    have called := called_of_reachable (fun _ _ allowed => allowed) calls
    have placed := placed_of_reachable before
    have moves := (phased_of_reachable calls).moves ran
    have idle (past : e.main.published = true) : e.recorder.todo job.mainId = [] :=
      placed.main fun early => by rw [early] at past; contradiction
    refine (known running).still (fun past => ?_) (fun past => ?_) ?_
    · refine called.counter_still rfl (fun op first => ?_) (idle past) moves
      exact called.adds_eq_zero (c := .published) (fun i mine =>
        placed.publishers_idle (placed.published past) i (List.mem_singleton.1 mine)) (List.mem_of_mem_head? first)
    · refine called.counter_still rfl (punctual e _ allowed past running) (placed.main fun early => ?_) moves
      rw [early] at past
      contradiction
    · refine (called.counter_run rfl (fun op first => ?_) moves).imp id fun still => ⟨?_, still.2⟩
      · exact called.adds_eq_zero (fun i mine => absurd mine List.not_mem_nil) (List.mem_of_mem_head? first)
      · exact Bool.eq_false_iff.2 fun past => still.1 (idle past)
  | cancel => contradiction

/-- After the consumers have returned, only the sampler has a call in progress. -/
theorem Placed.only_sampler (placed : Placed job e) (joined : e.main.joined = true) {i : ℕ}
    (inside : i < job.plan.workers) (busy : e.recorder.todo i ≠ []) : i = job.samplerId := by
  cases kind : job.kind i with
  | publisher =>
    exact absurd (placed.publishers_idle (placed.published (Main.published_of_joined joined)) i kind) busy
  | consumer => exact absurd (placed.consumers_idle (placed.joined joined) i kind) busy
  | main =>
    rw [Job.of_kind_main kind] at busy
    exact absurd (placed.main fun early => by rw [early] at joined; contradiction) busy
  | sampler => exact Job.of_kind_sampler kind inside

/-- What the sampler runs reads the next value into the row, or returns the row. -/
theorem Called.samples {plan : Plan} {r r' : Recorder F} (called : Called job r)
    (moves : Moves plan r job.samplerId r') :
    (∃ row reading left, Filling row (reading :: left) ∧ r.todo job.samplerId = [.sampling row (reading :: left)] ∧
      r' = { r.advance job.samplerId
        [.sampling (r.stats.read row reading).2.1 ((r.stats.read row reading).2.2 ++ left)] with
          stats := (r.stats.read row reading).1 }) ∨
      ∃ row, r.todo job.samplerId = [.sampling row []] ∧
        r' = { r.advance job.samplerId [] with windows := r.windows ++ [row] } := by
  have mine {op : Op F} {rest : List (Op F)} (pending : r.todo job.samplerId = op :: rest)
      (other : Kind.sampler ∉ op.callers) : False := by
    have caller := called job.samplerId op (pending ▸ List.mem_cons_self)
    rw [Job.kind_sampler] at caller
    exact other caller
  have update (u : Update F) : Kind.sampler ∉ u.callers := by
    cases u with
    | add c => cases c <;> simp [Update.callers]
    | _ => simp [Update.callers]
  cases moves with
  | arrive _ pending | record _ pending | clear _ pending => exact (mine pending (update _)).elim
  | lock pending =>
    have first : r.todo job.samplerId = .lock :: .cut :: ((Stats.resetAll F plan).map .update ++ [.unlock]) := pending
    exact (mine first (by simp [Op.callers])).elim
  | rlock pending | runlock pending | cut pending | unlock pending => exact (mine pending (by simp [Op.callers])).elim
  | @skip record pending | @check record pending =>
    exact (mine pending (by cases record <;> simp [Op.callers, Record.caller])).elim
  | read filling pending => exact .inl ⟨_, _, _, filling, pending, rfl⟩
  | emit pending => exact .inr ⟨_, pending, rfl⟩

/-- The losses in a row that is being filled, by what is left to read. -/
def Window.Accounts (published consumed : ℕ) (row : Window F) (left : List Reading) : Prop :=
  (∃ front : List Reading, left = front ++ [.loadPublished] ∧ (∀ reading ∈ front, reading.moves = true) ∧
    row.drops = 0) ∨
    left = [.loadConsumed published] ∧ row.drops = 0 ∨ left = [] ∧ row.drops = published - consumed

omit [LinearOrder F] in
private theorem Window.drops_setCounter (w : Window F) (v : ℕ) (c : Counter) : (w.setCounter v c).drops = w.drops := by
  cases c <;> rfl

private theorem Window.drops_setLatency (w : Window F) (s : LatencySet F) (key : LatencyKey) :
    (w.setLatency s key).drops = w.drops := by
  cases key with
  | roleDelTot key | roleDelWin key => cases key <;> rfl
  | ackLatWin => simp only [setLatency]; split <;> rfl
  | _ => rfl

private theorem Window.Accounts.read {s : Stats F} {row : Window F} {reading : Reading} {left : List Reading}
    (accounts : row.Accounts (s.counter .published) (s.counter .consumed) (reading :: left)) :
    (s.read row reading).2.1.Accounts (s.counter .published) (s.counter .consumed)
      ((s.read row reading).2.2 ++ left) := by
  rcases accounts with ⟨front, split, moves, none⟩ | ⟨last, none⟩ | ⟨last, -⟩
  · cases front with
    | nil =>
      cases split
      exact .inr (.inl ⟨rfl, none⟩)
    | cons first front =>
      cases split
      have later (other : Reading) (member : other ∈ front) := moves other (List.mem_cons_of_mem _ member)
      cases reading with
      | swap c => exact .inl ⟨front, rfl, later, (row.drops_setCounter _ _).trans none⟩
      | snapshot key => exact .inl ⟨front, rfl, later, (row.drops_setLatency _ _).trans none⟩
      | _ => exact absurd (moves _ List.mem_cons_self) Bool.false_ne_true
  · cases last
    refine .inr (.inr ⟨rfl, ?_⟩)
    simp only [Stats.read]
    split
    · rfl
    · omega
  · cases last

/-- `Run` stops the sampler after the consumers have returned, and the row written last has the losses. -/
structure Sampled (job : Job) (e : Engine F) : Prop where
  stopped : e.stopSampler = true → e.main.joined = true
  final : e.sampler = .writing true → e.main.joined = true
  filling : e.sampler = .writing true → ∀ row left, e.recorder.todo job.samplerId = [.sampling row left] →
    row.Accounts (e.recorder.stats.counter .published) (e.recorder.stats.counter .consumed) left
  filled : e.sampler = .writing true → e.recorder.todo job.samplerId = [] → ∀ row ∈ e.recorder.windows.getLast?,
    row.drops = e.recorder.stats.counter .published - e.recorder.stats.counter .consumed
  written : e.sampler = .done → e.csvErr = false → e.main.joined = true ∧ ∃ row ∈ e.rows.getLast?,
    row.drops = e.recorder.stats.counter .published - e.recorder.stats.counter .consumed

namespace Sampled

private theorem same (sampled : Sampled job e) (report : e.SameReport job e') : Sampled job e' := by
  obtain ⟨stopped, final, filling, filled, written⟩ := sampled
  constructor <;>
    simpa only [report.main, report.stats, report.windows, report.sampling, report.sampler, report.stopSampler,
      report.csvErr, report.rows]

/-- `Run` goes on. -/
theorem goes (sampled : Sampled job e) {recorder : Recorder F} {next : Main} {sampler : Sampler}
    {stopPub stopSampler drained : Bool} (stops : stopSampler = true → e.stopSampler = true ∨ next.joined = true)
    (sampling : sampler = e.sampler ∨ sampler = .ticking) (joined : e.main.joined = true → next.joined = true)
    (windows : recorder.windows = e.recorder.windows)
    (todo : recorder.todo job.samplerId = e.recorder.todo job.samplerId)
    (published : recorder.stats.counter .published = e.recorder.stats.counter .published)
    (consumed : recorder.stats.counter .consumed = e.recorder.stats.counter .consumed) :
    Sampled job { e with recorder, main := next, sampler, stopPub, stopSampler, drained } := by
  have before {place : Sampler} (at_ : sampler = place) (other : place ≠ .ticking) : e.sampler = place :=
    (sampling.resolve_right fun ticking => other (at_.symm.trans ticking)).symm.trans at_
  refine ⟨fun stop => (stops stop).elim (joined ∘ sampled.stopped) id,
    fun at_ => joined (sampled.final (before at_ nofun)), ?_, ?_, ?_⟩ <;> dsimp only
  · rw [todo, published, consumed]
    exact fun at_ => sampled.filling (before at_ nofun)
  · rw [todo, windows, published, consumed]
    exact fun at_ => sampled.filled (before at_ nofun)
  · rw [published, consumed]
    exact fun at_ fine => (sampled.written (before at_ nofun) fine).imp joined id

private theorem directs (sampled : Sampled job e) (directs : Directs job e e') : Sampled job e' := by
  have early {place : Main} (at_ : e.main = place) (other : place.joined = false) {next : Main} :
      e.main.joined = true → next.joined = true := fun joined => by
    rw [at_, other] at joined
    contradiction
  cases directs with
  | begin place begun =>
    obtain ⟨-, -, rfl⟩ := Recorder.call_eq_some begun
    have apart : job.samplerId ≠ job.mainId := by simp [Job.samplerId, Job.mainId]
    exact sampled.goes .inl (.inl rfl) (early place rfl) rfl (Function.update_of_ne apart _ _) rfl rfl
  | measure place => exact sampled.goes .inl (.inr rfl) (early place rfl) rfl rfl rfl rfl
  | storeDrops place => exact sampled.goes .inl (.inl rfl) (early place rfl) rfl rfl rfl rfl
  | published place | interrupt place =>
    rcases place with place | place <;> exact sampled.goes .inl (.inl rfl) (early place rfl) rfl rfl rfl rfl
  | join place => exact sampled.goes (fun _ => .inr rfl) (.inl rfl) (fun _ => rfl) rfl rfl rfl rfl
  | fail | succeed => exact sampled.goes .inl (.inl rfl) (fun _ => rfl) rfl rfl rfl rfl
  | abort place | exceeded place | stop place | drain place | skip place | load place | drained place | undrained place
  | again place | loadPublished place | loadConsumed place | noDrops place | shutdown place | close place =>
    exact sampled.goes .inl (.inl rfl) (early place rfl) rfl rfl rfl rfl

private theorem samples (sampled : Sampled job e) (idle : e.recorder.todo job.samplerId = [])
    (samples : Samples job e e') :
    Sampled job e' := by
  cases samples with
  | @sample final recorder place stopped begun =>
    obtain ⟨-, -, rfl⟩ := Recorder.call_eq_some begun
    have todo : (e.recorder.advance job.samplerId [.sampling {} sampleWindow]).todo job.samplerId =
      [.sampling {} sampleWindow] := Function.update_self ..
    refine ⟨sampled.stopped, fun at_ => ?_, fun at_ row left pending => ?_, fun at_ idle => ?_, nofun⟩
    · cases at_
      exact sampled.stopped (stopped rfl)
    · cases todo.symm.trans pending
      exact .inl ⟨sampleWindow.dropLast, rfl, by decide, rfl⟩
    · cases todo.symm.trans idle
  | @write final row place last =>
    refine ⟨sampled.stopped, ?_, ?_, ?_, fun at_ fine => ?_⟩
    · cases final <;> exact nofun
    · cases final <;> exact nofun
    · cases final <;> exact nofun
    · cases final with
      | false => cases at_
      | true =>
        refine ⟨sampled.final place, row, ?_, sampled.filled place idle row last⟩
        exact List.getLast?_concat
  | fail place => exact ⟨sampled.stopped, nofun, nofun, nofun, nofun⟩

/-- A call goes on. After `Run` has joined the consumers, it is that of the sampler. -/
theorem run (sampled : Sampled job e) (placed : Placed job e) (called : Called job e.recorder)
    (phased : Phased job.plan e.recorder) {i : ℕ} {recorder : Recorder F}
    (ran : e.recorder.step? job.plan (.run i) = some recorder) : Sampled job { e with recorder } := by
  obtain ⟨-, -, busy, -⟩ := Recorder.run_eq_some ran
  have inside : i < job.plan.workers := by
    by_contra beyond
    exact busy (phased.idle i (Nat.le_of_not_lt beyond))
  have last (joined : e.main.joined = true) : i = job.samplerId := placed.only_sampler joined inside busy
  refine ⟨sampled.stopped, sampled.final, fun at_ row left pending => ?_, fun at_ idle row listed => ?_,
    fun at_ fine => ?_⟩
  · have same := last (sampled.final at_)
    subst same
    rcases called.samples (phased.moves ran) with ⟨row, reading, left, filling, before, rfl⟩ | ⟨row, before, rfl⟩
    · cases (Function.update_self ..).symm.trans pending
      have accounts := (sampled.filling at_ row _ before).read
      have published := Stats.counter_read (c := .published) e.recorder.stats (filling.unread _ List.mem_cons_self) rfl
      have consumed := Stats.counter_read (c := .consumed) e.recorder.stats (filling.unread _ List.mem_cons_self) rfl
      rw [← published, ← consumed] at accounts
      exact accounts
    · cases (Function.update_self ..).symm.trans pending
  · have same := last (sampled.final at_)
    subst same
    rcases called.samples (phased.moves ran) with ⟨row, reading, left, filling, before, rfl⟩ | ⟨row', before, rfl⟩
    · cases (Function.update_self ..).symm.trans idle
    · have filled := sampled.filling at_ row' _ before
      cases List.getLast?_concat.symm.trans listed
      rcases filled with ⟨front, split, -⟩ | ⟨split, -⟩ | ⟨-, lost⟩
      · simp at split
      · simp at split
      · exact lost
  · obtain ⟨joined, -⟩ := sampled.written at_ fine
    rw [last joined] at busy
    exact absurd (placed.sampler fun final => by rw [at_]; exact nofun) busy

end Sampled

theorem sampled_of_reachable {ok : Engine F → Engine.Label → Prop} (reached : (engine F job).Reachable ok e) :
    Sampled job e := by
  refine reached.invariant (P := Sampled job) ?_ @fun e e' label before sampled _ stepped => ?_
  · have early (place : Sampler) (other : place ≠ .off ∧ place ≠ .ticking) : (engine F job).init.sampler ≠ place := by
      simp only [engine]
      split
      · exact other.1.symm
      · exact other.2.symm
    exact ⟨(absurd · Bool.false_ne_true), fun at_ => absurd at_ (early _ (by simp)),
      fun at_ => absurd at_ (early _ (by simp)), fun at_ => absurd at_ (early _ (by simp)),
      fun at_ => absurd at_ (early _ (by simp))⟩
  cases acts_of_step stepped with
  | publisher listed _ publishes => exact sampled.same (publishes.sameReport (List.getElem?_eq_some_iff.1 listed).1)
  | consumer listed _ consumes => exact sampled.same (consumes.sameReport (List.getElem?_eq_some_iff.1 listed).1)
  | main _ directs => exact sampled.directs directs
  | sampler idle samples => exact sampled.samples idle samples
  | run ran =>
    have calls := calls_of_reachable before
    exact sampled.run (placed_of_reachable before) (called_of_reachable (fun _ _ allowed => allowed) calls)
      (phased_of_reachable calls) ran
  | cancel => exact ⟨sampled.stopped, sampled.final, sampled.filling, sampled.filled, sampled.written⟩

/-- In a faithful run no more messages of the measured phase are consumed than published. -/
private theorem consumed_le_published {ok : Engine F → Engine.Label → Prop}
    (faithful : ∀ e label, ok e label → e.Faithful label)
    (reached : (engine F job).Reachable ok e) (joined : e.main.joined = true) (sampled : e.sampler = .done)
    (unfailed : e.Unfailed job) : e.recorder.stats.counter .consumed ≤ e.recorder.stats.counter .published := by
  have placed := placed_of_reachable reached
  have reached' := allocated_of_reachable faithful reached
  have phased := phased_of_reachable reached'
  have done : e.recorder.Recorded := by
    refine fun i => .inl (by_contra fun busy => ?_)
    have inside : i < job.plan.workers := by
      by_contra beyond
      exact busy (phased.idle i (Nat.le_of_not_lt beyond))
    rw [placed.only_sampler joined inside busy] at busy
    exact busy (placed.sampler fun final => by rw [sampled]; exact nofun)
  have measured := (sequenced_of_reachable (fun _ _ allowed => allowed) reached').measured_perm done
  have counter (c : Counter) (read : Record F → Option ℕ) (resets : c.resettable = true) (total : c.windowed = false)
      (agree : ∀ record : Record F, c.counts record = (read record).isSome)
      (seq : ∀ record : Record F, ∀ s ∈ read record, record.seq = s) : e.recorder.stats.counter c =
        Multiset.card ((e.recorder.seqs read).filter (e.recorder.stats.phaseFrom < ·)) := by
    rw [counter_eq reached' done resets total, measured.countP_eq, countP_eq_length_filterMap read _ agree,
      Recorder.seqs, Multiset.filter_coe, Multiset.coe_card, List.filter_filterMap, List.filterMap_filter]
    refine congrArg List.length (List.filterMap_congr fun record _ => ?_)
    cases held : read record with
    | none => simp
    | some s => simp [seq record s held, Option.filter]
  have consumed := counter .consumed Record.freshSeq rfl rfl
    (fun record => by
      cases record with
      | deliver _ _ _ dup => cases dup <;> rfl
      | _ => rfl)
    fun record s held => by
      cases record with
      | deliver _ _ _ dup => cases dup <;> cases held; rfl
      | _ => cases held
  have published := counter .published Record.publishSeq rfl rfl (fun record => by cases record <;> rfl)
    fun record s held => by cases record <;> cases held; rfl
  rw [consumed, published]
  exact Multiset.card_le_card (Multiset.filter_le_filter _ (fresh_le_published faithful reached unfailed
    (placed.published (Main.published_of_joined joined))))

/-- A run that has returned a summary has stopped, and the summary accounts for every message. -/
def Engine.Reported (e : Engine F) : Prop :=
  ∀ t : Totals, e.main = .returned (some t) → e.sampler = .done ∧ t.consumed + t.drops = t.published ∧
    ∃ row ∈ e.rows.getLast?, row.drops = t.drops

private theorem Engine.Reported.same (reported : e.Reported) (report : e.SameReport job e') : e'.Reported := by
  intro t place
  rw [report.sampler, report.rows]
  exact reported t (report.main ▸ place)

/-- The summary accounts for every message, and the last row has the losses of the summary, when deliveries are of
messages that were sent and none is counted after `Run` has loaded `consumed` for the losses. -/
theorem losses_conserved (F : Type) [Field F] [LinearOrder F] (job : Job) (e : Engine F)
    (reached : (engine F job).Reachable (fun e label => e.Faithful label ∧ e.Punctual label) e) (t : Totals)
    (success : e.main = .returned (some t)) :
    t.consumed + t.drops = t.published ∧ ∃ row ∈ e.rows.getLast?, row.drops = t.drops := by
  suffices reported : e.Reported from (reported t success).2
  refine reached.invariant (P := Engine.Reported) ?_ @fun e e' label before reported _ stepped => ?_
  · intro t place
    simp only [engine] at place
    split at place <;> cases place
  cases acts_of_step stepped with
  | publisher listed _ publishes => exact reported.same (publishes.sameReport (List.getElem?_eq_some_iff.1 listed).1)
  | consumer listed _ consumes => exact reported.same (consumes.sameReport (List.getElem?_eq_some_iff.1 listed).1)
  | main _ directs =>
    intro t place
    cases directs with
    | succeed finishing sampled running workers written =>
      cases place
      have joined : e.main.joined = true := by rw [finishing]; rfl
      have unfailed : e.Unfailed job := fun p inside => Bool.eq_false_iff.2 fun failed =>
        workers (.inl ⟨p, inside, PublishPlace.hasFailed_iff.1 failed⟩)
      have bound := consumed_le_published (fun _ _ allowed => allowed.1) before joined sampled unfailed
      have accounts := accounts_of_reachable (fun _ _ allowed => allowed.2) before running
      rw [finishing] at accounts
      obtain ⟨-, row, last, lost⟩ := (sampled_of_reachable before).written sampled written
      exact ⟨sampled, by rw [Engine.totals, accounts]; exact Nat.add_sub_cancel' bound, row, last,
        lost.trans accounts.symm⟩
    | undrained _ _ goes => rcases goes with rfl | rfl | rfl <;> cases place
    | @drained looping => cases looping <;> cases place
    | _ => cases place
  | sampler _ samples =>
    intro t place
    have done : e.sampler = .done := by cases samples <;> exact (reported t place).1
    cases samples with
    | sample at_ | write at_ | fail at_ => cases done.symm.trans at_
  | run => exact reported
  | cancel => exact reported

/-- One message is published and not delivered when the drain times out; some of it happens between the storing of the
losses and the closing of the clients. -/
def timedOut (between : List Engine.Label) : List Engine.Label :=
  publication ++ [.publisher 0 .select, .main .pubDone, .main .next, .main .next, .main .next, .main .elapsed] ++
    List.replicate 6 (.main .next) ++ between ++
    [.main .next, .main .next, .consumer 0 .finish, .main .next, .sampler .stop] ++ List.replicate 11 (.run 3) ++
    [.sampler (.write true), .main (.closed true)]

/-- The message remains undelivered. -/
theorem losses_conserved_undelivered :
    ((engine ℚ (onePair 1 false)).replay (fun e label => e.Faithful label ∧ e.Punctual label) (timedOut [])).main =
        .returned (some ⟨1, 0, 0, 0, 1⟩) ∧
      ∃ row ∈ ((engine ℚ (onePair 1 false)).replay (fun e label => e.Faithful label ∧ e.Punctual label)
        (timedOut [])).rows.getLast?, row.drops = 1 := by
  have success : ((engine ℚ (onePair 1 false)).replay (fun e label => e.Faithful label ∧ e.Punctual label)
      (timedOut [])).main = .returned (some ⟨1, 0, 0, 0, 1⟩) := by decide +kernel
  exact ⟨success, (losses_conserved ℚ (onePair 1 false) _ (.of_replay (timedOut [])) _ success).2⟩

/-- The message is delivered after the losses have been stored: it is lost in the summary, and in no row. -/
theorem late_delivery_counted_lost :
    ∃ (e : Engine ℚ) (t : Totals), (engine ℚ (onePair 1 false)).Reachable Engine.Faithful e ∧
      e.main = .returned (some t) ∧ t.consumed + t.drops ≠ t.published ∧
      e.rows.getLast?.map (·.drops) ≠ some t.drops :=
  ⟨_, ⟨1, 1, 1, 0, 1⟩, .of_replay (timedOut (delivery 1 14)), by decide +kernel, by decide, by decide +kernel⟩

end GolangMQ.Bench
