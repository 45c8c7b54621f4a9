import GolangMQ.Bench.Boundary
import GolangMQ.Bench.Placement
import Mathlib.Algebra.BigOperators.Intervals

/-! # The decompositions of the totals

The totals, the entries of the connections, the entries of the channels and the latencies by role all count the same
calls, those that passed the test since the last boundary: each of them is an accumulator, and a record call on a slot
of the plan adds to exactly one entry of each decomposition.
-/

namespace GolangMQ.Bench

open Machine

section Sums

variable {α : Type}

private theorem sum_map_eq_sum_range (xs : List α) (d : α) (f : α → ℕ) :
    (xs.map f).sum = ∑ i ∈ Finset.range xs.length, f (xs.getD i d) := by
  induction xs with
  | nil => rfl
  | cons x rest ih => simp [Finset.sum_range_succ', ih, add_comm]

private theorem countP_eq_sum (xs : List α) (p : α → Bool) :
    xs.countP p = (xs.map fun x => if p x then 1 else 0).sum := by
  induction xs with
  | nil => rfl
  | cons x rest ih => rw [List.countP_cons, List.map_cons, List.sum_cons, ih, add_comm]

/-- Summing over the entries of an array what every element of a list adds to them. -/
private theorem sum_range_sum_map {n : ℕ} {xs : List α} {g : ℕ → α → ℕ} {h : α → ℕ}
    (each : ∀ x ∈ xs, ∑ i ∈ Finset.range n, g i x = h x) :
    ∑ i ∈ Finset.range n, (xs.map (g i)).sum = (xs.map h).sum := by
  induction xs with
  | nil => simp
  | cons x rest ih =>
    simp only [List.map_cons, List.sum_cons, Finset.sum_add_distrib]
    rw [each x List.mem_cons_self, ih fun y member => each y (List.mem_cons_of_mem _ member)]

end Sums

variable {F : Type}

/-- A publish is recorded on a publish-capable slot, a delivery on a consume-capable one. -/
def Record.OnSlots (t : Topology ChannelSlot) : Record F → Prop
  | .publish slot _ => slot ∈ t.publishCapable
  | .deliver slot _ _ _ => slot ∈ t.consumeCapable
  | .ack .. => True

/-- The connection whose entry a record call updates. -/
def Record.conn : Record F → Option ℕ
  | .publish slot _ => some slot.conn
  | .deliver slot _ _ _ => some slot.conn
  | .ack .. => none

/-- The entry of a publish-capable channel that a record call updates. -/
def Record.pubCh : Record F → Option ℕ
  | .publish slot _ => if 0 ≤ slot.publishCapIdx then some slot.publishCapIdx.toNat else none
  | _ => none

private theorem sum_pubChWeight_body (idx : ℕ) (record : Record F) :
    (record.body.map (pubChWeight idx)).sum = if record.pubCh = some idx then 1 else 0 := by
  cases record with
  | publish slot seq =>
    simp only [Record.body, Record.pubCh]
    split
    · by_cases same : slot.publishCapIdx.toNat = idx <;> simp [pubChWeight, same]
    · simp [pubChWeight]
  | deliver slot seq latUs dup =>
    simp only [Record.body]
    cases slot.role.key <;> cases dup <;> simp [pubChWeight, Record.pubCh]
  | ack seq latUs => simp [Record.body, pubChWeight, Record.pubCh]

variable [Field F] [LinearOrder F] {plan : Plan} {r r' : Recorder F} {i : ℕ}

/-- The record calls of a run are made on slots of the plan. -/
def Recorder.OnSlots (t : Topology ChannelSlot) (_ : Recorder F) : Recorder.Label F → Prop
  | .record _ record => record.OnSlots t
  | _ => True

/-- What only concerns `stats` is kept by a run when every access to it keeps it. -/
private theorem stats_invariant {ok : Recorder F → Recorder.Label F → Prop} {P : Stats F → Prop}
    (fresh : P (newStats F plan)) (applies : ∀ s s' u, P s → s.apply u = some s' → P s')
    (cuts : ∀ s phaseFrom, P s → P { s with phaseFrom }) (stores : ∀ s v, P s → P (s.storeDrops v))
    (reads : ∀ s w reading, P s → P (s.read w reading).1)
    (reached : (recorder F plan).Reachable ok r) : P r.stats := by
  refine reached.invariant (P := fun r => P r.stats) fresh @fun source target label before known _ stepped => ?_
  cases label with
  | allocate => cases stepped; exact known
  | storeDrops v => cases stepped; exact stores _ v known
  | record i record =>
    obtain ⟨called, started, rfl⟩ := Option.map_eq_some_iff.1 stepped
    obtain ⟨-, -, rfl⟩ := Recorder.call_eq_some started
    exact known
  | begin i | sample i =>
    obtain ⟨-, -, rfl⟩ := Recorder.call_eq_some stepped
    exact known
  | run i =>
    cases (phased_of_reachable before).moves stepped with
    | arrive _ _ _ _ applied | record _ _ _ _ applied | clear _ _ _ _ applied => exact applies _ _ _ known applied
    | cut => exact cuts _ _ known
    | read => exact reads _ _ _ known
    | _ => exact known

/-- The arrays keep their sizes. -/
theorem sized_of_reachable {ok : Recorder F → Recorder.Label F → Prop} (reached : (recorder F plan).Reachable ok r) :
    r.stats.perConn.length = plan.conns ∧ r.stats.perPubCh.length = plan.pubChs := by
  refine stats_invariant (P := fun s => s.perConn.length = plan.conns ∧ s.perPubCh.length = plan.pubChs)
    ⟨by simp [newStats], by simp [newStats]⟩ ?_ (fun _ _ known => known) (fun _ _ known => known)
    (fun s w reading known => ?_) reached
  · intro s s' u known applied
    cases Stats.applies_of_apply applied with
    | add | clear | sample | resetLatency => exact known
    | _ => simpa using known
  · cases reading <;> exact known

/-- What has been counted, and what is about to be tested, has been recorded. -/
structure Traced (plan : Plan) (r : Recorder F) : Prop where
  measured : ∀ record ∈ r.measured, record ∈ r.records
  waiting : ∀ record ∈ tally Op.unchecked plan.workers r.todo, record ∈ r.records

private theorem Traced.run (traced : Traced plan r) (phased : Phased plan r) (moves : Moves plan r i r') :
    Traced plan r' := by
  obtain ⟨passes, -, records⟩ := phased.passes moves
  cases passes with
  | silent waiting measured | returned waiting measured =>
    exact ⟨by rw [measured, records]; exact traced.measured, by rw [waiting, records]; exact traced.waiting⟩
  | tested record waiting measured =>
    have tested : record ∈ r.records :=
      traced.waiting record (waiting ▸ Multiset.mem_add.2 (Or.inr (Multiset.mem_singleton_self record)))
    rw [← records] at tested
    refine ⟨fun other member => ?_, fun other member => ?_⟩
    · rw [measured, List.mem_append] at member
      rcases member with old | new
      · rw [records]
        exact traced.measured other old
      · split at new
        · rwa [List.mem_singleton.1 new]
        · cases new
    · rw [records]
      exact traced.waiting other (waiting ▸ Multiset.mem_add.2 (Or.inl member))
  | cut waiting measured =>
    exact ⟨by simp [measured], by rw [waiting, records]; exact traced.waiting⟩

theorem traced_of_reachable {ok : Recorder F → Recorder.Label F → Prop} (reached : (recorder F plan).Reachable ok r) :
    Traced plan r := by
  have none : tally (Op.unchecked (F := F)) plan.workers (fun _ => []) = 0 := tally_idle _ fun _ _ => rfl
  refine reached.invariant ⟨by simp [recorder], by simp [recorder, none]⟩
    @fun source target label before traced _ stepped => ?_
  cases label with
  | allocate | storeDrops => cases stepped; exact ⟨traced.measured, traced.waiting⟩
  | record i record =>
    obtain ⟨called, started, rfl⟩ := Option.map_eq_some_iff.1 stepped
    obtain ⟨inside, idle, rfl⟩ := Recorder.call_eq_some started
    have more := tally_update Op.unchecked source.todo inside record.ops
    rw [idle, unchecked_ops, List.filterMap_nil, Multiset.coe_nil, add_zero, Multiset.coe_singleton] at more
    refine ⟨fun other member => List.mem_append_left _ (traced.measured other member), fun other member => ?_⟩
    rcases Multiset.mem_add.1 (more ▸ member) with old | new
    · exact List.mem_append_left _ (traced.waiting other old)
    · exact List.mem_append_right _ (List.mem_singleton.2 (Multiset.mem_singleton.1 new))
  | begin i =>
    obtain ⟨inside, idle, rfl⟩ := Recorder.call_eq_some stepped
    have same := tally_start Op.unchecked inside idle (unchecked_beginMeasured plan)
    exact ⟨traced.measured, fun record member => traced.waiting record (same ▸ member)⟩
  | sample i =>
    obtain ⟨inside, idle, rfl⟩ := Recorder.call_eq_some stepped
    have quiet : [Op.sampling ({} : Window F) sampleWindow].filterMap Op.unchecked = [] := rfl
    have same := tally_start Op.unchecked inside idle quiet
    exact ⟨traced.measured, fun record member => traced.waiting record (same ▸ member)⟩
  | run i => exact traced.run (phased_of_reachable before) ((phased_of_reachable before).moves stepped)

/-- What a record call adds to the field of its connection. -/
def ConnField.amount (field : ConnField F) : Record F → ℕ
  | .publish .. => field.publish
  | .deliver _ _ _ dup => field.deliver dup
  | .ack .. => 0

private theorem ConnField.sum_weight_body (field : ConnField F) (conn : ℕ) (record : Record F) :
    (record.body.map (field.weight conn)).sum = if record.conn = some conn then field.amount record else 0 := by
  cases record with
  | publish slot seq =>
    simp only [Record.body]
    by_cases same : slot.conn = conn <;> split <;> simp [weight, amount, Record.conn, same]
  | deliver slot seq latUs dup =>
    simp only [Record.body]
    by_cases same : slot.conn = conn <;> cases slot.role.key <;> cases dup <;>
      simp [weight, amount, Record.conn, same]
  | ack seq latUs => simp [Record.body, weight, Record.conn]

/-- The entries of the connections together hold what the counted calls add to them. -/
private theorem sum_perConn {ok : Recorder F → Recorder.Label F → Prop} (reached : (recorder F plan).Reachable ok r)
    (done : r.Recorded) (inside : ∀ record ∈ r.measured, ∀ conn, record.conn = some conn → conn < plan.conns)
    (field : ConnField F) : (r.stats.perConn.map field.read).sum = (r.measured.map field.amount).sum := by
  rw [sum_map_eq_sum_range _ {}, (sized_of_reachable reached).1]
  have held : ∀ conn ∈ Finset.range plan.conns, field.read (r.stats.perConn.getD conn {}) =
      (r.measured.map fun record => if record.conn = some conn then field.amount record else 0).sum := by
    intro conn member
    have total : (onConn F plan field conn (Finset.mem_range.1 member)).Total := fun _ => rfl
    refine ((accounted_of_reachable total reached).quiet total done).trans ?_
    exact congrArg _ (List.map_congr_left fun record _ => field.sum_weight_body conn record)
  rw [Finset.sum_congr rfl held]
  refine sum_range_sum_map fun record member => ?_
  cases place : record.conn with
  | none =>
    cases record with
    | ack => simp [ConnField.amount]
    | _ => cases place
  | some conn => simp [inside record member conn place]

/-- The entries of the publish-capable channels together hold the counted publishes. -/
private theorem sum_perPubCh {ok : Recorder F → Recorder.Label F → Prop} (reached : (recorder F plan).Reachable ok r)
    (done : r.Recorded)
    (inside : ∀ record ∈ r.measured, record.isPublish = true → ∃ idx < plan.pubChs, record.pubCh = some idx) :
    r.stats.perPubCh.sum = r.measured.countP Record.isPublish := by
  have listed : r.stats.perPubCh.sum = (r.stats.perPubCh.map id).sum := by rw [List.map_id]
  rw [listed, sum_map_eq_sum_range _ 0, (sized_of_reachable reached).2, countP_eq_sum]
  have held : ∀ idx ∈ Finset.range plan.pubChs, id (r.stats.perPubCh.getD idx 0) =
      (r.measured.map fun record => if record.pubCh = some idx then 1 else 0).sum := by
    intro idx member
    have total : (onPubCh F plan idx (Finset.mem_range.1 member)).Total := fun _ => rfl
    refine ((accounted_of_reachable total reached).quiet total done).trans ?_
    exact congrArg _ (List.map_congr_left fun record _ => sum_pubChWeight_body idx record)
  rw [Finset.sum_congr rfl held]
  refine sum_range_sum_map fun record member => ?_
  cases publishes : record.isPublish with
  | true =>
    obtain ⟨idx, bound, place⟩ := inside record member publishes
    simp [place, bound]
  | false =>
    have none : record.pubCh = none := by cases record <;> first | rfl | cases publishes
    simp [none]

/-- A latency set has as many samples as counted calls that sample it. -/
private theorem count_latency {ok : Recorder F → Recorder.Label F → Prop} (reached : (recorder F plan).Reachable ok r)
    (done : r.Recorded) {key : LatencyKey} (kept : key.kept = true) (total : key ≠ .delLatWin) :
    (r.stats.latency key).count = r.measured.countP fun record => (key.sampleOf record).isSome := by
  have rows : (sampled F plan key kept).Total := sampled_total kept total
  have held := ((accounted_of_reachable rows reached).quiet rows done).trans (due_sampled kept _)
  rw [(r.stats.latency key).counted, ← List.length_filterMap_eq_countP]
  exact (Multiset.coe_eq_coe.1 held).length_eq

theorem counter_eq {ok : Recorder F → Recorder.Label F → Prop} (reached : (recorder F plan).Reachable ok r)
    (done : r.Recorded) {c : Counter} (measured : c.resettable = true) (total : c.windowed = false) :
    r.stats.counter c = r.measured.countP c.counts := by
  have rows : (counted F plan c measured).Total := counted_total measured total
  exact ((accounted_of_reachable rows reached).quiet rows done).trans (due_counted measured _)

/-- What the guard of a run says about every record call holds of the calls made so far. -/
private theorem records_forall {ok : Recorder F → Recorder.Label F → Prop} {p : Record F → Prop}
    (guarded : ∀ r i record, ok r (.record i record) → p record) (reached : (recorder F plan).Reachable ok r) :
    ∀ record ∈ r.records, p record := by
  refine reached.invariant (P := fun r => ∀ record ∈ r.records, p record) (by simp [recorder])
    @fun source target label before known allowed stepped => ?_
  cases label with
  | allocate | storeDrops => cases stepped; exact known
  | record i record =>
    obtain ⟨called, started, rfl⟩ := Option.map_eq_some_iff.1 stepped
    intro other member
    rcases List.mem_append.1 member with old | new
    · exact known other old
    · rw [List.mem_singleton.1 new]
      exact guarded _ i record allowed
  | begin i | sample i =>
    obtain ⟨-, -, rfl⟩ := Recorder.call_eq_some stepped
    exact known
  | run i =>
    obtain ⟨-, -, records⟩ := (phased_of_reachable before).passes ((phased_of_reachable before).moves stepped)
    rw [records]
    exact known

section Fields

variable (F)

/-- The fields of the entry of a connection that are counts. -/
def connPublished : ConnField F := ⟨(·.published), 1, fun _ => 0, rfl, fun _ => rfl, fun _ _ _ => rfl⟩

def connDelivered : ConnField F := ⟨(·.delivered), 0, fun _ => 1, rfl, fun _ => rfl, fun _ _ _ => rfl⟩

def connDelLatCount : ConnField F := ⟨(·.delLatCount), 0, fun _ => 1, rfl, fun _ => rfl, fun _ _ _ => rfl⟩

def connConsumed : ConnField F :=
  ⟨(·.consumed), 0, fun dup => if dup then 0 else 1, rfl, fun _ => rfl, fun _ _ dup => by cases dup <;> rfl⟩

end Fields

/-- In a plan that `Build` returned, all decompositions of the totals agree and no index leaves its array. -/
theorem decompositions_agree (F : Type) [Field F] [LinearOrder F] (c : Config) (t : Topology ChannelSlot)
    (built : c.build = .ok t) (workers : ℕ) (r : Recorder F)
    (reached : (recorder F (t.plan workers)).Reachable (Recorder.OnSlots t) r) (done : r.Recorded) :
    r.stats.counter .published = (r.stats.perConn.map (·.published)).sum ∧
      r.stats.counter .published = r.stats.perPubCh.sum ∧
      r.stats.counter .delivered = r.stats.counter .consumed + r.stats.counter .duplicates ∧
      r.stats.counter .delivered = (r.stats.perConn.map (·.delivered)).sum ∧
      r.stats.counter .delivered = (r.stats.perConn.map (·.delLatCount)).sum ∧
      r.stats.counter .delivered = (r.stats.latency .delLatTot).count ∧
      r.stats.counter .delivered = (roleKeys.map fun key => (r.stats.latency (.roleDelTot key)).count).sum ∧
      r.stats.counter .consumed = (r.stats.perConn.map (·.consumed)).sum ∧
      (∀ cp ∈ t.conns, ∀ sl ∈ cp.channels,
        sl.conn < r.stats.perConn.length ∧ sl.publishCapIdx < r.stats.perPubCh.length) ∧
      (∀ sl ∈ t.publishCapable, sl.conn < r.stats.perConn.length ∧ 0 ≤ sl.publishCapIdx ∧
        sl.publishCapIdx < r.stats.perPubCh.length) ∧
      ∀ sl ∈ t.consumeCapable, sl.conn < r.stats.perConn.length := by
  have indexed := indexed_of_build built
  obtain ⟨conns, pubChs⟩ := sized_of_reachable reached
  have onSlots (record : Record F) (member : record ∈ r.measured) : record.OnSlots t :=
    records_forall (fun _ _ _ allowed => allowed) reached record ((traced_of_reachable reached).measured record member)
  have inside (record : Record F) (member : record ∈ r.measured) (conn : ℕ) (place : record.conn = some conn) :
      conn < (t.plan workers).conns := by
    have slot := onSlots record member
    cases record with
    | publish => cases place; exact (indexed.publishing _ slot).1
    | deliver => cases place; exact (indexed.consuming _ slot).1
    | ack => cases place
  have indices (record : Record F) (member : record ∈ r.measured) (publishes : record.isPublish = true) :
      ∃ idx < (t.plan workers).pubChs, record.pubCh = some idx := by
    have slot := onSlots record member
    cases record with
    | publish slot' seq =>
      obtain ⟨-, nonneg, bound⟩ := indexed.publishing _ slot
      exact ⟨_, (Int.toNat_lt nonneg).2 bound, if_pos nonneg⟩
    | _ => cases publishes
  -- every decomposition is a sum over the counted calls
  have byConn (field : ConnField F) (c : Counter) (measured : c.resettable = true) (total : c.windowed = false)
      (amount : ∀ record : Record F, (if c.counts record then 1 else 0) = field.amount record) :
      r.stats.counter c = (r.stats.perConn.map field.read).sum := by
    rw [sum_perConn reached done inside field, counter_eq reached done measured total, countP_eq_sum]
    exact congrArg _ (List.map_congr_left fun record _ => amount record)
  have published := counter_eq reached done (c := .published) rfl rfl
  have delivered := counter_eq reached done (c := .delivered) rfl rfl
  have consumed := counter_eq reached done (c := .consumed) rfl rfl
  have duplicates := counter_eq reached done (c := .duplicates) rfl rfl
  refine ⟨byConn (connPublished F) .published rfl rfl ?_, ?_, ?_, byConn (connDelivered F) .delivered rfl rfl ?_,
    byConn (connDelLatCount F) .delivered rfl rfl ?_, ?_, ?_, byConn (connConsumed F) .consumed rfl rfl ?_, ?_, ?_, ?_⟩
  · intro record
    cases record <;> rfl
  · rw [sum_perPubCh reached done indices, published]
    exact List.countP_congr fun record _ => by cases record <;> rfl
  · rw [delivered, consumed, duplicates]
    simp only [countP_eq_sum, ← List.sum_map_add]
    refine congrArg _ (List.map_congr_left fun record _ => ?_)
    cases record with
    | deliver _ _ _ dup => cases dup <;> rfl
    | _ => rfl
  · intro record
    cases record <;> rfl
  · intro record
    cases record <;> rfl
  · rw [delivered, count_latency reached done rfl (by decide)]
    exact List.countP_congr fun record _ => by cases record <;> rfl
  · simp only [roleKeys, List.map_cons, List.map_nil, List.sum_cons, List.sum_nil, add_zero]
    rw [delivered, count_latency reached done rfl (by decide), count_latency reached done rfl (by decide)]
    simp only [countP_eq_sum, ← List.sum_map_add]
    refine congrArg _ (List.map_congr_left fun record member => ?_)
    have slot := onSlots record member
    cases record with
    | deliver slot' seq latUs dup =>
      have consumes := (indexed.consuming _ slot).2
      cases role : slot'.role with
      | publish => exact absurd role consumes
      | both | consume => simp [Counter.counts, LatencyKey.sampleOf, role, Role.key]
    | _ => rfl
  · intro record
    cases record with
    | deliver _ _ _ dup => cases dup <;> rfl
    | _ => rfl
  · rw [conns, pubChs]
    exact indexed.hosted
  · rw [conns, pubChs]
    exact indexed.publishing
  · rw [conns]
    exact fun sl member => (indexed.consuming sl member).1

instance (t : Topology ChannelSlot) (r : Recorder F) (label : Recorder.Label F) :
    Decidable (r.OnSlots t label) :=
  match label with
  | .record _ (.publish slot _) => inferInstanceAs (Decidable (slot ∈ t.publishCapable))
  | .record _ (.deliver slot ..) => inferInstanceAs (Decidable (slot ∈ t.consumeCapable))
  | .record _ (.ack ..) | .allocate | .storeDrops _ | .begin _ | .sample _ | .run _ => .isTrue trivial

/-- The channel of the default plan. -/
def defaultSlot : ChannelSlot where
  conn := 0
  ch := 0
  globalIndex := 0
  pubGoroutines := [0]
  consGoroutines := [0]
  publishCapIdx := 0

/-- The plan of the default configuration: one connection with one channel. -/
def defaultTopology : Topology ChannelSlot := ⟨[⟨0, .mixed, [defaultSlot]⟩], [defaultSlot], [defaultSlot]⟩

/-- A message is published, delivered twice, and sampled. -/
def deliveredTwice : List (Recorder.Label ℚ) :=
  [.record 0 (.publish defaultSlot 1)] ++ List.replicate 8 (.run 0) ++
    [.record 1 (.deliver defaultSlot 1 5 false)] ++ List.replicate 14 (.run 1) ++
    [.record 1 (.deliver defaultSlot 1 7 true)] ++ List.replicate 13 (.run 1) ++
    [.sample 0] ++ List.replicate 11 (.run 0)

theorem decompositions_agree_delivered_twice :
    (((recorder ℚ (defaultTopology.plan 2)).replay (Recorder.OnSlots defaultTopology) deliveredTwice).stats.counter
      .delivered) = 2 ∧
    ((((recorder ℚ (defaultTopology.plan 2)).replay (Recorder.OnSlots defaultTopology) deliveredTwice).stats.perConn.map
      (·.delivered)).sum) = 2 := by
  have reached : (recorder ℚ (defaultTopology.plan 2)).Reachable (Recorder.OnSlots defaultTopology) _ :=
    .of_replay deliveredTwice
  have delivered := (decompositions_agree ℚ {} defaultTopology (by decide +kernel) 2 _ reached
    ((phased_of_reachable reached).recorded (by decide +kernel))).2.2.2.1
  have two : (((recorder ℚ (defaultTopology.plan 2)).replay (Recorder.OnSlots defaultTopology)
      deliveredTwice).stats.counter .delivered) = 2 := by decide +kernel
  exact ⟨two, delivered.symm.trans two⟩

end GolangMQ.Bench
