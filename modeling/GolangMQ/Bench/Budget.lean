import GolangMQ.Bench.Actions
import GolangMQ.Bench.Placement
import GolangMQ.Machine.Pool
import Mathlib.Algebra.Field.Rat
import Mathlib.Algebra.Order.BigOperators.Group.Finset
import Mathlib.Algebra.Order.Ring.Unbundled.Rat

/-! # The message budget

`Run` starts as many publishers as the configuration asks for, each of them takes at most `msgs` sequence numbers, and
the shared counter hands them out one after the other. So the numbers stay within the arrays that `Run` allocates for
them, and every entry of `sentTimes` is written once.
-/

namespace GolangMQ.Bench

open Machine

/-- Every publisher of the configuration is placed on a channel that can publish. -/
private theorem length_publishers {c : Config} {t : Topology ChannelSlot} (built : c.build = .ok t) :
    (Job.publishers ⟨c, t⟩).length = c.publishers.toNatClampNeg := by
  obtain ⟨valid, topology⟩ := Config.build_eq_ok built
  obtain ⟨_, _, _, _, final, plan, _, publisher, laid, rfl, -, staffed⟩ := Config.staffed valid topology
  have nodup : plan.publishCapable.Nodup := laid.publishCapable ▸ (Config.nodup_sortSlots _).filter _
  have dealt := List.flatMap_filter_perm nodup fun j member => staffed.publishers j (List.mem_range.1 member)
  rw [← List.length_range (n := c.publishers.toNatClampNeg), ← dealt.length_eq]
  simp only [Job.publishers, Topology.resolve, List.flatMap_map, List.length_flatMap, List.length_map]
  refine congrArg List.sum (List.map_congr_left fun p member => ?_)
  rw [staffed.pubGoroutines p (laid.lt_of_publishCapable member)]

/-- The budget is the product of the two flags when that is an `int`. -/
private theorem total_eq {c : Config} (valid : c.Validated) (fits : c.publishers.toInt * c.msgs.toInt < 2 ^ 63)
    (t : Topology ChannelSlot) : Job.total ⟨c, t⟩ = c.publishers.toNatClampNeg * c.msgs.toNatClampNeg := by
  have nonneg := Int.mul_nonneg valid.publishers valid.msgs
  simp only [Job.total, Int64.toNatClampNeg, Int64.toInt_mul]
  rw [Int.bmod_eq_of_le (by omega) (by omega), Int.toNat_mul valid.publishers valid.msgs]

/-- The number of sequence numbers that a publisher has taken, of the `msgs` it may take. -/
def PublishPlace.Taken (msgs taken : ℕ) : PublishPlace → Prop
  | .looping i => taken = i ∧ i ≤ msgs
  | .allocating i => taken = i ∧ i < msgs
  | .stamping i _ | .publishing i _ => taken = i + 1 ∧ i < msgs
  | .returned _ => taken ≤ msgs

private theorem PublishPlace.Taken.le {msgs taken : ℕ} {place : PublishPlace} (held : place.Taken msgs taken) :
    taken ≤ msgs := by
  cases place <;> simp only [Taken] at held <;> omega

/-- The entry of `sentTimes` that a publisher is about to write. -/
def PublishWorker.stamp (worker : PublishWorker) : Option ℕ :=
  match worker.place with
  | .stamping _ seq => some (seq - 1).toNat
  | _ => none

variable {F : Type} [Field F] [LinearOrder F] {job : Job} {e e' : Engine F}

/-- What the publishers have taken from the counter, and what they have written or will write next. -/
structure Budgeted (job : Job) (e : Engine F) : Prop where
  handed : e.handed.map Prod.snd = (List.range e.recorder.seqGen).map fun k => UInt64.ofNat (k + 1)
  owned : ∀ entry ∈ e.handed, entry.1 < job.publishers.length
  taken : ∀ p, (e.publisher p).place.Taken job.cfg.msgs.toNatClampNeg ((e.handed.map Prod.fst).count p)
  length : e.sentTimes.length = job.total
  stored : (e.stored.map Prod.snd : Multiset ℕ) + census PublishWorker.stamp job.publishers.length e.publisher ≤
    (e.handed.map fun entry => (entry.2 - 1).toNat : Multiset ℕ)

/-- A publisher moves on without taking or writing anything. -/
theorem Budgeted.moved (budgeted : Budgeted job e) {p : ℕ} (place : PublishPlace)
    (taken : place.Taken job.cfg.msgs.toNatClampNeg ((e.handed.map Prod.fst).count p))
    (inside : p < job.publishers.length) (before : (e.publisher p).stamp = none)
    (after : ({ e.publisher p with place } : PublishWorker).stamp = none)
    (same : e'.publisher = (e.publisherTo p place).publisher)
    (seqGen : e'.recorder.seqGen = e.recorder.seqGen) (sentTimes : e'.sentTimes = e.sentTimes)
    (handed : e'.handed = e.handed) (stored : e'.stored = e.stored) : Budgeted job e' := by
  have census := census_update PublishWorker.stamp e.publisher inside { e.publisher p with place }
  simp only [before, after, Option.toList_none, Multiset.coe_nil, add_zero] at census
  refine ⟨by rw [handed, seqGen]; exact budgeted.handed, by rw [handed]; exact budgeted.owned, fun q => ?_,
    by rw [sentTimes]; exact budgeted.length, ?_⟩
  · rw [handed, same, Engine.publisherTo]
    by_cases here : q = p
    · subst here
      simpa using taken
    · simpa [Function.update_of_ne here] using budgeted.taken q
  · rw [stored, same, handed, Engine.publisherTo, census]
    exact budgeted.stored

/-- A publisher takes the next sequence number and goes where the budget sends it. -/
theorem Budgeted.handOut (budgeted : Budgeted job e) {p i : ℕ} {next : PublishPlace}
    (inside : p < job.publishers.length) (place : (e.publisher p).place = .allocating i)
    (goes : next = .stamping i (UInt64.ofNat (e.recorder.seqGen + 1)) ∨ ∃ err, next = .returned err) :
    Budgeted job { e.publisherTo p next with
      recorder := { e.recorder with seqGen := e.recorder.seqGen + 1 }
      handed := e.handed ++ [(p, UInt64.ofNat (e.recorder.seqGen + 1))] } := by
  have census := census_update PublishWorker.stamp e.publisher inside { e.publisher p with place := next }
  have before : (e.publisher p).stamp = none := by simp [PublishWorker.stamp, place]
  rw [before, Option.toList_none, Multiset.coe_nil, add_zero] at census
  have taken := budgeted.taken p
  rw [place] at taken
  refine ⟨?_, ?_, fun q => ?_, budgeted.length, ?_⟩
  · simp [budgeted.handed, List.range_succ]
  · intro entry member
    rcases List.mem_append.1 member with old | new
    · exact budgeted.owned entry old
    · rw [List.mem_singleton.1 new]
      exact inside
  · simp only [Engine.publisherTo, List.map_append, List.count_append, List.map_cons, List.map_nil]
    by_cases here : q = p
    · subst here
      rw [Function.update_self, List.count_singleton_self]
      obtain ⟨count, more⟩ := taken
      rcases goes with rfl | ⟨err, rfl⟩ <;> simp only [PublishPlace.Taken] <;> omega
    · rw [Function.update_of_ne here, List.count_singleton, beq_eq_false_iff_ne.2 (Ne.symm here)]
      exact budgeted.taken q
  · simp only [Engine.publisherTo, census, List.map_append, List.map_cons, List.map_nil, ← Multiset.coe_add,
      ← add_assoc, Multiset.coe_singleton]
    refine add_le_add budgeted.stored ?_
    rcases goes with rfl | ⟨err, rfl⟩
    · exact le_rfl
    · exact Multiset.zero_le _

/-- A publisher writes the entry of its sequence number. -/
theorem Budgeted.store (budgeted : Budgeted job e) {p i : ℕ} {seq : UInt64} {sendNanos : Int64} {body : List UInt8}
    (inside : p < job.publishers.length) (place : (e.publisher p).place = .stamping i seq) :
    Budgeted job { e with
      publisher := Function.update e.publisher p ⟨body, .publishing i seq⟩
      sentTimes := e.sentTimes.set (seq - 1).toNat sendNanos
      stored := e.stored ++ [(p, (seq - 1).toNat)]
      sent := e.sent ++ [body] } := by
  have census := census_update PublishWorker.stamp e.publisher inside ⟨body, .publishing i seq⟩
  have before : (e.publisher p).stamp = some (seq - 1).toNat := by simp [PublishWorker.stamp, place]
  have taken := budgeted.taken p
  rw [place] at taken
  refine ⟨budgeted.handed, budgeted.owned, fun q => ?_, by simp [budgeted.length], ?_⟩
  · by_cases here : q = p
    · subst here
      simpa [PublishPlace.Taken] using taken
    · simpa [Function.update_of_ne here] using budgeted.taken q
  · rw [before, Option.toList_some, Multiset.coe_singleton] at census
    have after : (PublishWorker.stamp ⟨body, .publishing i seq⟩) = none := rfl
    rw [after, Option.toList_none, Multiset.coe_nil, add_zero] at census
    rw [List.map_append, ← Multiset.coe_add, List.map_singleton, Multiset.coe_singleton, add_assoc,
      add_comm {(seq - 1).toNat}, census]
    exact budgeted.stored

private theorem Budgeted.init : Budgeted job (engine F job).init := by
  refine ⟨rfl, by simp [engine], fun p => ⟨rfl, Nat.zero_le _⟩, by simp [engine], ?_⟩
  have none : census PublishWorker.stamp job.publishers.length (engine F job).init.publisher = 0 :=
    census_eq_zero.2 fun _ _ => rfl
  rw [none]
  exact Multiset.zero_le _

private theorem Budgeted.step (budgeted : Budgeted job e) {label : Engine.Label} (acts : Acts job e label e') :
    Budgeted job e' := by
  by_cases other : ∀ p l, label ≠ .publisher p l
  · obtain ⟨publisher, seqGen, sentTimes, handed, stored, -⟩ := acts.samePublishing other
    exact ⟨by rw [handed, seqGen]; exact budgeted.handed, by rw [handed]; exact budgeted.owned,
      by rw [handed, publisher]; exact budgeted.taken, by rw [sentTimes]; exact budgeted.length,
      by rw [handed, stored, publisher]; exact budgeted.stored⟩
  cases acts with
  | @publisher p slot label e' listed idle publishes =>
    have inside : p < job.publishers.length := (List.getElem?_eq_some_iff.1 listed).1
    have taken := budgeted.taken p
    cases publishes with
    | finish place =>
      exact budgeted.moved (.returned none) taken.le inside
        (by simp [PublishWorker.stamp, place]) rfl rfl rfl rfl rfl rfl
    | select place more =>
      rw [place] at taken
      exact budgeted.moved (.allocating _) ⟨taken.1, Int.lt_toNat.2 more⟩ inside (by simp [PublishWorker.stamp, place])
        rfl rfl rfl rfl rfl rfl
    | refuse place exceeded => exact budgeted.handOut inside place (.inr ⟨_, rfl⟩)
    | allocate place within => exact budgeted.handOut inside place (.inl rfl)
    | stamp place bound encoded => exact budgeted.store inside place
    | publish place recorded =>
      rw [place] at taken
      exact budgeted.moved (.looping _) ⟨taken.1, taken.2⟩ inside (by simp [PublishWorker.stamp, place]) rfl rfl
        (Recorder.seqGen_step recorded (by simp)) rfl rfl rfl
    | fail place =>
      exact budgeted.moved (.returned _) taken.le inside (by simp [PublishWorker.stamp, place]) rfl rfl rfl rfl rfl rfl
  | _ => exact absurd (fun _ _ => by simp) other

theorem budgeted_of_reachable {ok : Engine F → Engine.Label → Prop} (reached : (engine F job).Reachable ok e) :
    Budgeted job e :=
  reached.invariant .init fun _ budgeted _ stepped => budgeted.step (acts_of_step stepped)

namespace Budgeted

/-- The counter is the number of sequence numbers that the publishers have taken together. -/
theorem seqGen_eq (budgeted : Budgeted job e) :
    e.recorder.seqGen = ∑ p ∈ Finset.range job.publishers.length, (e.handed.map Prod.fst).count p := by
  have counts := Multiset.sum_count_eq_card (s := Finset.range job.publishers.length)
    (m := (e.handed.map Prod.fst : Multiset ℕ)) fun p member => by
      obtain ⟨entry, listed, rfl⟩ := List.mem_map.1 (Multiset.mem_coe.1 member)
      exact Finset.mem_range.2 (budgeted.owned entry listed)
  have length := congrArg List.length budgeted.handed
  simp only [List.length_map, List.length_range] at length
  simpa [length] using counts.symm

private theorem seqGen_le (budgeted : Budgeted job e) :
    e.recorder.seqGen ≤ job.publishers.length * job.cfg.msgs.toNatClampNeg := by
  rw [budgeted.seqGen_eq]
  simpa using Finset.sum_le_card_nsmul _ _ _ fun p (_ : p ∈ Finset.range job.publishers.length) => (budgeted.taken p).le

/-- While a publisher is about to take a number, there is one left. -/
theorem seqGen_lt (budgeted : Budgeted job e) {p i : ℕ} (inside : p < job.publishers.length)
    (place : (e.publisher p).place = .allocating i) :
    e.recorder.seqGen < job.publishers.length * job.cfg.msgs.toNatClampNeg := by
  have taken := budgeted.taken p
  rw [place] at taken
  rw [budgeted.seqGen_eq]
  have strict := Finset.sum_lt_sum (s := Finset.range job.publishers.length) (g := fun _ => job.cfg.msgs.toNatClampNeg)
    (fun q _ => (budgeted.taken q).le) ⟨p, Finset.mem_range.2 inside, taken.1 ▸ taken.2⟩
  simpa using strict

/-- The entries for the numbers handed out are the first ones. -/
theorem indices (budgeted : Budgeted job e) (small : e.recorder.seqGen < 2 ^ 63) :
    e.handed.map (fun entry => (entry.2 - 1).toNat) = List.range e.recorder.seqGen := by
  have read : e.handed.map (fun entry => (entry.2 - 1).toNat) =
      (e.handed.map Prod.snd).map fun seq => (seq - 1).toNat := by
    rw [List.map_map]
    rfl
  rw [read, budgeted.handed, List.map_map]
  refine (List.map_congr_left fun k member => ?_).trans (List.map_id _)
  have bound := List.mem_range.1 member
  have fits : k + 1 < 2 ^ 64 := by omega
  have value : (UInt64.ofNat (k + 1)).toNat = k + 1 := UInt64.toNat_ofNat_of_lt' fits
  have positive : (1 : UInt64) ≤ UInt64.ofNat (k + 1) := by
    rw [UInt64.le_iff_toNat_le, value]
    exact Nat.le_add_left 1 k
  rw [Function.comp_apply, UInt64.toNat_sub_of_le _ _ positive, value]
  rfl

/-- Only the publishers of the plan act. -/
theorem inside (budgeted : Budgeted job e) {p i : ℕ} {seq : UInt64} (place : (e.publisher p).place = .stamping i seq) :
    p < job.publishers.length := by
  have taken := budgeted.taken p
  rw [place] at taken
  have member : p ∈ e.handed.map Prod.fst := List.count_pos_iff.1 (by rw [taken.1]; exact Nat.succ_pos i)
  obtain ⟨entry, listed, rfl⟩ := List.mem_map.1 member
  exact budgeted.owned entry listed

end Budgeted

/-- The refusal of a sequence number is out of reach as long as the counter is below the size of the arrays. -/
private theorem not_refused {ok : Engine F → Engine.Label → Prop} (reached : (engine F job).Reachable ok e)
    (covers : job.publishers.length * job.cfg.msgs.toNatClampNeg ≤ job.total) (size : job.total < 2 ^ 63)
    (seq : UInt64) (len : ℕ) : ∀ p, (e.publisher p).place ≠ .returned (some (.budget seq len)) := by
  refine reached.invariant (P := fun e => ∀ p, (e.publisher p).place ≠ .returned (some (.budget seq len))) ?_ ?_
  · exact fun p refused => by cases refused
  · intro e e' label before known _ stepped q
    have acts := acts_of_step stepped
    by_cases other : ∀ p l, label ≠ .publisher p l
    · rw [(acts.samePublishing other).publisher]
      exact known q
    cases acts with
    | @publisher p slot label e' listed idle publishes =>
      have inside : p < job.publishers.length := (List.getElem?_eq_some_iff.1 listed).1
      by_cases here : q = p
      · subst here
        cases publishes with
        | refuse place exceeded =>
          have budgeted := budgeted_of_reachable before
          have left := budgeted.seqGen_lt inside place
          have value : (UInt64.ofNat (e.recorder.seqGen + 1)).toNat = e.recorder.seqGen + 1 :=
            UInt64.toNat_ofNat_of_lt' (by simp only [UInt64.size]; omega)
          rw [budgeted.length, exceedsBudget_eq (by omega) (by omega) size, decide_eq_true_eq] at exceeded
          omega
        | _ => simp [Engine.publisherTo]
      · cases publishes <;> simpa [Engine.publisherTo, Function.update_of_ne here] using known q
    | _ => exact absurd (fun _ _ => by simp) other

/-- No publisher runs out of budget, and the sequence numbers index the arrays without collision. -/
theorem publishers_within_budget (F : Type) [Field F] [LinearOrder F] (c : Config) (accepted : c.validate = .ok ())
    (fits : c.publishers.toInt * c.msgs.toInt < 2 ^ 63) :
    ∃ t, c.build = .ok t ∧ ∀ e : Engine F, (engine F ⟨c, t⟩).Reachable anyStep e →
      (∀ p seq len, (e.publisher p).place ≠ .returned (some (.budget seq len))) ∧
      (e.handed.map Prod.snd).Nodup ∧
      (∀ entry ∈ e.handed, 1 ≤ entry.2.toNat ∧ (entry.2.toNat : ℤ) ≤ c.publishers.toInt * c.msgs.toInt) ∧
      (∀ p i seq, (e.publisher p).place = .stamping i seq → (seq - 1).toNat < e.sentTimes.length) ∧
      (∀ entry ∈ e.stored, entry.2 < e.sentTimes.length) ∧
      (e.stored.map Prod.snd).Nodup := by
  obtain ⟨-, t, -, built⟩ := Config.validate_eq_ok accepted
  refine ⟨t, built, fun e reached => ?_⟩
  obtain ⟨valid, -⟩ := Config.build_eq_ok built
  have budgeted := budgeted_of_reachable reached
  have total := total_eq valid fits t
  have product : ((c.publishers.toNatClampNeg * c.msgs.toNatClampNeg : ℕ) : ℤ) = c.publishers.toInt * c.msgs.toInt := by
    simp only [Int64.toNatClampNeg, Nat.cast_mul, Int.toNat_of_nonneg valid.publishers, Int.toNat_of_nonneg valid.msgs]
  have bound : e.recorder.seqGen ≤ c.publishers.toNatClampNeg * c.msgs.toNatClampNeg :=
    length_publishers built ▸ budgeted.seqGen_le
  have small : e.recorder.seqGen < 2 ^ 63 := by omega
  have indices := budgeted.indices small
  have nodup : (e.handed.map fun entry => (entry.2 - 1).toNat).Nodup := indices ▸ List.nodup_range
  have stores := budgeted.stored
  have below (idx : ℕ) (member : idx ∈ (e.handed.map fun entry => (entry.2 - 1).toNat)) : idx < e.sentTimes.length := by
    rw [indices, List.mem_range] at member
    rw [budgeted.length, total]
    exact member.trans_le bound
  refine ⟨fun p seq len => ?_, ?_, fun entry member => ?_, fun p i seq place => ?_, fun entry member => ?_, ?_⟩
  · refine not_refused reached ?_ (by omega) seq len p
    rw [length_publishers built, total]
  · refine List.Nodup.of_map (fun seq => (seq - 1).toNat) ?_
    rwa [List.map_map]
  · have listed := List.mem_map_of_mem (f := Prod.snd) member
    rw [budgeted.handed] at listed
    obtain ⟨k, inside, same⟩ := List.mem_map.1 listed
    have less := List.mem_range.1 inside
    have value : (UInt64.ofNat (k + 1)).toNat = k + 1 :=
      UInt64.toNat_ofNat_of_lt' (by simp only [UInt64.size]; omega)
    rw [← same, value, ← product]
    exact ⟨Nat.le_add_left 1 k, by exact_mod_cast (Nat.succ_le_of_lt less).trans bound⟩
  · have stamps : (seq - 1).toNat ∈ census PublishWorker.stamp (Job.publishers ⟨c, t⟩).length e.publisher :=
      mem_census.2 ⟨p, budgeted.inside place, by simp [PublishWorker.stamp, place]⟩
    exact below _ (Multiset.mem_coe.1 (Multiset.mem_of_le stores (Multiset.mem_add.2 (.inr stamps))))
  · have stored : entry.2 ∈ (e.stored.map Prod.snd : Multiset ℕ) := Multiset.mem_coe.2 (List.mem_map_of_mem member)
    exact below _ (Multiset.mem_coe.1 (Multiset.mem_of_le stores (Multiset.mem_add.2 (.inl stored))))
  · have part := (Multiset.le_add_right _ _).trans stores
    exact Multiset.coe_nodup.1 (Multiset.nodup_of_le part (Multiset.coe_nodup.2 nodup))

theorem publishers_within_budget_two :
    ∃ t, Config.build { conns := 2, channels := 3, publishers := 2, msgs := 5 } = .ok t ∧
      ∀ e : Engine ℚ, (engine ℚ ⟨{ conns := 2, channels := 3, publishers := 2, msgs := 5 }, t⟩).Reachable anyStep e →
        (e.handed.map Prod.snd).Nodup := by
  obtain ⟨t, built, safe⟩ := publishers_within_budget ℚ
    { conns := 2, channels := 3, publishers := 2, msgs := 5 } (by decide +kernel) (by decide +kernel)
  exact ⟨t, built, fun e reached => (safe e reached).2.1⟩

end GolangMQ.Bench
