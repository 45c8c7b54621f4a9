import GolangMQ.Bench.Placement

/-! # Where the workers go

`placeWorkers` decides whether the workers fit before it notes the first of them. It deals them out in turn, packs
them up to a cap, or puts all of them on the first slot. What it notes is stated by position in the list of slots, and
the plan that `Build` returns is read off it.
-/

namespace GolangMQ.Bench

/-- `assign(sl, j)` writes into the slot that `sl` points to. -/
def assignTo (assign : ChannelSlot → ℕ → ChannelSlot) (sl j : ℕ) : ExceptT Errorf (StateM Slots) Unit :=
  modify fun allocated => allocated.modify sl (assign · j)

/-- `placeWorkers`, one call of `assign` after the other: an error keeps what has been written before it. -/
def placeWorkersIn (count : Int64) (slots : List ℕ) (mode : Distribution) (capN : Int64)
    (noun slotsDesc capFlag : String) (assign : ChannelSlot → ℕ → ChannelSlot) : ExceptT Errorf (StateM Slots) Unit :=
  let workers := List.range count.toNatClampNeg
  let len := slots.length
  if count = 0 then pure ()
  else if len = 0 then throw ⟨"no %s to place %d %s", [.text slotsDesc, .int count, .text noun]⟩
  else
    match mode with
    | .even => workers.forM fun j => assignTo assign (slots.getD (j % len) 0) j
    | .uneven =>
      if capN ≤ 0 then workers.forM fun j => assignTo assign (slots.getD 0 0) j
      else if Int64.ofNat len * capN < count then
        throw ⟨"%d %s do not fit in %d %s x %d %s",
          [.int count, .text noun, .int (Int64.ofNat len), .text slotsDesc, .int capN, .text capFlag]⟩
      else workers.forM fun j => assignTo assign (slots.getD (j / capN.toNatClampNeg % len) 0) j
    | .other text => throw ⟨"invalid distribution %q", [.text text]⟩

variable {count capN : Int64} {slots : List ℕ} {mode : Distribution} {noun slotsDesc capFlag : String}
  {assign : ChannelSlot → ℕ → ChannelSlot} {allocated : Slots}

private theorem run_forM_assignTo (target : ℕ → ℕ) (workers : List ℕ) (allocated : Slots) :
    (workers.forM fun j => assignTo assign (target j) j).run.run allocated =
      (.ok (), allocated.scatter target assign workers) := by
  induction workers generalizing allocated with
  | nil => rfl
  | cons j rest ih => exact ih _

/-- The two models of `placeWorkers` agree, and an error has changed nothing. -/
private theorem run_placeWorkersIn :
    (placeWorkersIn count slots mode capN noun slotsDesc capFlag assign).run.run allocated =
      match placeWorkers count slots mode capN noun slotsDesc capFlag assign allocated with
      | .ok placed => (.ok (), placed)
      | .error err => (.error err, allocated) := by
  simp only [placeWorkersIn, placeWorkers]
  by_cases none : count = 0
  · simp only [if_pos none]
    rfl
  by_cases empty : slots.length = 0
  · simp only [if_neg none, if_pos empty]
    rfl
  simp only [if_neg none, if_neg empty]
  cases mode with
  | even => exact run_forM_assignTo _ _ _
  | uneven =>
    by_cases unlimited : capN ≤ 0
    · simp only [if_pos unlimited]
      exact run_forM_assignTo _ _ _
    by_cases unfit : Int64.ofNat slots.length * capN < count
    · simp only [if_neg unlimited, if_pos unfit]
      rfl
    · simp only [if_neg unlimited, if_neg unfit]
      exact run_forM_assignTo _ _ _
  | other text => rfl

/-- The workers have been dealt to the positions of a list of slots, and each slot has got those of its positions. -/
structure Assigns (count : ℕ) (slots : List ℕ) (assign : ChannelSlot → ℕ → ChannelSlot) (before after : Slots)
    (workers : ℕ → List ℕ) : Prop where
  once : ∀ j < count, ∃! i, i < slots.length ∧ j ∈ workers i
  within : ∀ i, ∀ j ∈ workers i, i < slots.length ∧ j < count
  increasing : ∀ i, (workers i).Pairwise (· < ·)
  noted : ∀ p < before.length, ∃ mine : List ℕ, mine.Pairwise (· < ·) ∧
    (∀ j, j ∈ mine ↔ ∃ i, slots[i]? = some p ∧ j ∈ workers i) ∧ after.at p = mine.foldl assign (before.at p)

/-- Every loop of `placeWorkers` deals by the position of a worker. -/
theorem Assigns.of_position {n : ℕ} {position : ℕ → ℕ} (inside : ∀ j < n, position j < slots.length) :
    Assigns n slots assign allocated
      (allocated.scatter (fun j => slots.getD (position j) 0) assign (List.range n))
      fun i => (List.range n).filter (position · = i) where
  once j below := by
    refine ⟨position j, ⟨inside j below, by simp [below]⟩, fun i ⟨_, member⟩ => ?_⟩
    exact (of_decide_eq_true (List.mem_filter.1 member).2).symm
  within i j member := by
    obtain ⟨listed, here⟩ := List.mem_filter.1 member
    have below := List.mem_range.1 listed
    exact ⟨of_decide_eq_true here ▸ inside j below, below⟩
  increasing i := List.pairwise_lt_range.filter _
  noted p known := by
    refine ⟨(List.range n).filter fun j => slots.getD (position j) 0 = p, List.pairwise_lt_range.filter _,
      fun j => ?_, Slots.at_scatter known⟩
    simp only [List.mem_filter, List.mem_range, decide_eq_true_eq]
    constructor
    · rintro ⟨below, here⟩
      have bound := inside j below
      refine ⟨position j, ?_, below, rfl⟩
      rw [← here, List.getD_eq_getElem?_getD, List.getElem?_eq_getElem bound, Option.getD_some]
    · rintro ⟨_, found, below, rfl⟩
      exact ⟨below, by rw [List.getD_eq_getElem?_getD, found, Option.getD_some]⟩

/-- The slots hold as many workers as each other, the first ones perhaps one more. -/
def Balanced (len : ℕ) (workers : ℕ → List ℕ) : Prop :=
  ∀ i k, i ≤ k → k < len →
    (workers k).length ≤ (workers i).length ∧ (workers i).length ≤ (workers k).length + 1

/-- No slot holds more than the cap, and a slot is used only when those before it are full. -/
def Packed (len limit : ℕ) (workers : ℕ → List ℕ) : Prop :=
  ∀ i < len, (workers i).length ≤ limit ∧ (workers i ≠ [] → ∀ k < i, (workers k).length = limit)

private theorem balanced_mod (n len : ℕ) : Balanced len fun i => (List.range n).filter (· % len = i) := by
  intro i k below inside
  dsimp only
  rw [List.length_filter_range_mod n inside, List.length_filter_range_mod n (below.trans_lt inside)]
  split <;> split <;> omega

private theorem packed_div (n len : ℕ) {limit : ℕ} (positive : 0 < limit) :
    Packed len limit fun i => (List.range n).filter (· / limit = i) := by
  intro i inside
  refine ⟨?_, fun used k before => ?_⟩
  · rw [List.length_filter_range_div n i positive]
    exact Nat.min_le_left _ _
  · have some := List.length_pos_of_ne_nil used
    have full : k * limit + limit ≤ i * limit := by
      rw [← Nat.succ_mul]
      exact Nat.mul_le_mul_right limit before
    dsimp only at some ⊢
    rw [List.length_filter_range_div n i positive] at some
    rw [List.length_filter_range_div n k positive]
    omega

/-- Workers that fit never come round to the first slot again. -/
private theorem packed_div_mod {n len limit : ℕ} (positive : 0 < limit) (fits : n ≤ limit * len) :
    Packed len limit fun i => (List.range n).filter (· / limit % len = i) := by
  have unwrapped : (fun i => (List.range n).filter (· / limit % len = i)) =
      fun i => (List.range n).filter (· / limit = i) := by
    funext i
    refine List.filter_congr fun j member => ?_
    rw [Nat.mod_eq_of_lt (Nat.div_lt_of_lt_mul ((List.mem_range.1 member).trans_le fits))]
  rw [unwrapped]
  exact packed_div n len positive

/-- What `placeWorkers` returns and leaves in the slots. -/
structure Places (count : Int64) (slots : List ℕ) (mode : Distribution) (capN : Int64)
    (assign : ChannelSlot → ℕ → ChannelSlot) (before : Slots) (result : Except Errorf Unit × Slots) : Prop where
  assigned : result.1 = .ok () → ∃ workers, Assigns count.toNatClampNeg slots assign before result.2 workers ∧
    (mode = .even → Balanced slots.length workers) ∧
    (mode = .uneven → 0 < capN → Packed slots.length capN.toNatClampNeg workers) ∧
    (mode = .uneven → capN ≤ 0 → workers 0 = List.range count.toNatClampNeg ∧ ∀ i ≠ 0, workers i = [])
  untouched : result.1 ≠ .ok () → result.2 = before
  even : mode = .even → result.1 = .ok ()
  limited : mode = .uneven → 0 < capN → (result.1 ≠ .ok () ↔ (slots.length : ℤ) * capN.toInt < count.toInt)
  unlimited : mode = .uneven → capN ≤ 0 → result.1 = .ok ()

/-- All workers have been placed. -/
theorem Places.of_assigns {after : Slots} {workers : ℕ → List ℕ}
    (assigns : Assigns count.toNatClampNeg slots assign allocated after workers)
    (balanced : mode = .even → Balanced slots.length workers)
    (packed : mode = .uneven → 0 < capN → Packed slots.length capN.toNatClampNeg workers)
    (fits : mode = .uneven → 0 < capN → count.toInt ≤ slots.length * capN.toInt)
    (first : mode = .uneven → capN ≤ 0 → workers 0 = List.range count.toNatClampNeg ∧ ∀ i ≠ 0, workers i = []) :
    Places count slots mode capN assign allocated (.ok (), after) where
  assigned _ := ⟨workers, assigns, balanced, packed, first⟩
  untouched failed := absurd rfl failed
  even _ := rfl
  limited uneven limited := iff_of_false (fun failed => failed rfl) (Int.not_lt.2 (fits uneven limited))
  unlimited _ _ := rfl

/-- The workers of a plan: each of them is placed once, on a channel that can take it. -/
structure Topology.Staffed (c : Config) (t : Topology ChannelSlot) : Prop where
  publishers : ((t.conns.flatMap (·.channels)).flatMap (·.pubGoroutines)).Perm (List.range c.publishers.toNatClampNeg)
  consumers : ((t.conns.flatMap (·.channels)).flatMap (·.consGoroutines)).Perm (List.range c.consumers.toNatClampNeg)
  exact : (c.publishers.toNatClampNeg : ℤ) = c.publishers.toInt ∧ (c.consumers.toNatClampNeg : ℤ) = c.consumers.toInt
  publishing : ∀ cp ∈ t.conns, ∀ sl ∈ cp.channels, sl.role = .consume → sl.pubGoroutines = []
  consuming : ∀ cp ∈ t.conns, ∀ sl ∈ cp.channels, sl.role = .publish → sl.consGoroutines = []

/-- A product that fits comes out as the true one. -/
private theorem toInt_ofNat_mul {n : ℕ} {cap : Int64} (positive : 0 < cap) (fits : (n : ℤ) * cap.toInt < 2 ^ 63) :
    (Int64.ofNat n * cap).toInt = n * cap.toInt := by
  have one : 1 ≤ cap.toInt := Int64.lt_iff_toInt_lt.1 positive
  have below : (n : ℤ) ≤ n * cap.toInt := le_mul_of_one_le_right (Int.natCast_nonneg n) one
  rw [Int64.toInt_mul, Int64.toInt_ofNat_of_lt (by omega), Int.bmod_eq_of_le (by omega) (by omega)]

private theorem places_of_run (nonneg : 0 ≤ count) (some : slots ≠ [])
    (fits : 0 < capN → (slots.length : ℤ) * capN.toInt < 2 ^ 63) :
    Places count slots mode capN assign allocated
      ((placeWorkersIn count slots mode capN noun slotsDesc capFlag assign).run.run allocated) := by
  have positive : 0 < slots.length := List.length_pos_of_ne_nil some
  have whole : (count.toNatClampNeg : ℤ) = count.toInt :=
    Int.toNat_of_nonneg (by simpa using Int64.le_iff_toInt_le.1 nonneg)
  rw [run_placeWorkersIn]
  simp only [placeWorkers]
  by_cases none : count = 0
  · subst none
    have noted : Assigns 0 slots assign allocated allocated fun _ => [] := .of_position fun j below => by omega
    simp only [if_true]
    refine .of_assigns noted (fun _ _ _ _ _ => by simp) (fun _ _ _ _ => by simp) (fun _ limited => ?_)
      fun _ _ => ⟨rfl, fun _ _ => rfl⟩
    exact mul_nonneg (Int.natCast_nonneg _) (Int64.lt_iff_toInt_lt.1 limited).le
  simp only [if_neg none, if_neg positive.ne']
  cases mode with
  | even =>
    exact .of_assigns (.of_position fun j _ => Nat.mod_lt j positive) (fun _ => balanced_mod _ _) (by simp) (by simp)
      (by simp)
  | uneven =>
    by_cases unlimited : capN ≤ 0
    · have off (limited : 0 < capN) : False := Int64.not_lt.2 unlimited limited
      simp only [if_pos unlimited]
      refine .of_assigns (.of_position fun _ _ => positive) (by simp) (fun _ limited => (off limited).elim)
        (fun _ limited => (off limited).elim) fun _ _ => ⟨by simp, fun i later => ?_⟩
      simp [later.symm]
    have limited : 0 < capN := Int64.not_le.1 unlimited
    have limit : (capN.toNatClampNeg : ℤ) = capN.toInt := Int.toNat_of_nonneg (Int64.lt_iff_toInt_lt.1 limited).le
    have product := toInt_ofNat_mul limited (fits limited)
    simp only [if_neg unlimited, Int64.lt_iff_toInt_lt, product]
    by_cases unfit : (slots.length : ℤ) * capN.toInt < count.toInt
    · simp only [if_pos unfit]
      exact ⟨by simp, fun _ => rfl, by simp, fun _ _ => by simp [unfit], fun _ free => absurd free unlimited⟩
    · have room : 0 < capN.toNatClampNeg := Int.lt_toNat.2 (Int64.lt_iff_toInt_lt.1 limited)
      have enough : count.toNatClampNeg ≤ capN.toNatClampNeg * slots.length := by
        zify
        rw [whole, limit, mul_comm]
        exact Int.not_lt.1 unfit
      simp only [if_neg unfit]
      exact .of_assigns (.of_position fun j _ => Nat.mod_lt (j / capN.toNatClampNeg) positive) (by simp)
        (fun _ _ => packed_div_mod room enough) (fun _ _ => Int.not_lt.1 unfit) fun _ free => absurd free unlimited
  | other text => exact ⟨by simp, fun _ => rfl, by simp, by simp, by simp⟩

private theorem staffed_of_build {c : Config} {t : Topology ChannelSlot} (built : c.build = .ok t) : t.Staffed c := by
  have accepted : c.validate = .ok () := by
    simp only [Config.build, bind_eq_ok] at built
    obtain ⟨_, accepted, -⟩ := built
    exact accepted
  obtain ⟨valid, topology⟩ := Config.build_eq_ok built
  have counted := (Config.bounds_of_flags (Config.validate_eq_ok accepted).1).1
  obtain ⟨chans, opened, stamped, slots, final, plan, consumer, publisher, laid, rfl, settled, staffed⟩ :=
    Config.staffed valid topology
  have dealt {n : ℕ} {worker : ℕ → ℕ} {goroutines : ChannelSlot → List ℕ}
      (noted : ∀ p < opened.length, goroutines (final.at p) = (List.range n).filter (worker · = p))
      (inside : ∀ j < n, worker j < opened.length) :
      (((plan.resolve final).conns.flatMap (·.channels)).flatMap goroutines).Perm (List.range n) := by
    rw [laid.flatMap_resolve, List.flatMap_map, List.flatMap_congr fun p member => noted p (List.mem_range.1 member)]
    exact List.flatMap_filter_perm List.nodup_range fun j below =>
      List.mem_range.2 (inside j (List.mem_range.1 below))
  -- a channel that cannot take the workers has none of them
  have barred {n : ℕ} {worker : ℕ → ℕ} {goroutines : ChannelSlot → List ℕ} (able : Role → Bool)
      (noted : ∀ p < opened.length, goroutines (final.at p) = (List.range n).filter (worker · = p))
      (capable : ∀ j < n, able (stamped.at (worker j)).role = true) {cp : ConnPlan ChannelSlot}
      (member : cp ∈ (plan.resolve final).conns) {sl : ChannelSlot} (listed : sl ∈ cp.channels)
      (unable : able sl.role = false) : goroutines sl = [] := by
    obtain ⟨p, inside, rfl⟩ := laid.exists_of_hosted member listed
    rw [noted p inside, List.filter_eq_nil_iff]
    intro j below here
    have takes := capable j (List.mem_range.1 below)
    rw [of_decide_eq_true here, ← settled.role p inside, unable] at takes
    exact Bool.false_ne_true takes
  constructor
  · exact dealt staffed.pubGoroutines fun j below => laid.lt_of_publishCapable (staffed.publishers j below)
  · refine dealt staffed.consGoroutines fun j below => ?_
    have capable := staffed.consumers j below
    rw [laid.consumeCapable] at capable
    exact Config.lt_of_mem_sortSlots (List.mem_of_mem_filter capable)
  · exact ⟨Int.toNat_of_nonneg valid.publishers, Int.toNat_of_nonneg counted⟩
  · intro cp member sl listed consumes
    refine barred Role.publishes staffed.pubGoroutines (fun j below => ?_) member listed (by rw [consumes]; rfl)
    have capable := staffed.publishers j below
    rw [laid.publishCapable] at capable
    exact (List.mem_filter.1 capable).2
  · intro cp member sl listed publishes
    refine barred Role.consumes staffed.consGoroutines (fun j below => ?_) member listed (by rw [publishes]; rfl)
    have capable := staffed.consumers j below
    rw [laid.consumeCapable] at capable
    exact (List.mem_filter.1 capable).2

/-- Workers are dealt out completely or not at all, evenly or packed, and so they are in every plan. -/
theorem workers_placed (noun slotsDesc capFlag : String) (assign : ChannelSlot → ℕ → ChannelSlot) :
    (∀ (count : Int64) (slots : List ℕ) (mode : Distribution) (capN : Int64) (allocated : Slots), 0 ≤ count →
      slots ≠ [] → (0 < capN → (slots.length : ℤ) * capN.toInt < 2 ^ 63) →
      Places count slots mode capN assign allocated
        ((placeWorkersIn count slots mode capN noun slotsDesc capFlag assign).run.run allocated)) ∧
    ∀ (c : Config) (t : Topology ChannelSlot), c.build = .ok t → t.Staffed c :=
  ⟨fun _ _ _ _ _ nonneg some fits => places_of_run nonneg some fits, fun _ _ built => staffed_of_build built⟩

/-- Seven publishers on three channels, packed by three, and a plan with a channel of each kind. -/
theorem workers_placed_packed :
    Places 7 [2, 0, 1] .uneven 3 (fun sl j => { sl with pubGoroutines := sl.pubGoroutines ++ [j] })
        (List.replicate 3 ⟨0, 0, 0, .both, [], [], -1⟩)
        ((placeWorkersIn 7 [2, 0, 1] .uneven 3 "" "" "" fun sl j =>
            { sl with pubGoroutines := sl.pubGoroutines ++ [j] }).run.run
          (List.replicate 3 ⟨0, 0, 0, .both, [], [], -1⟩)) ∧
      ∃ t, Config.build { conns := 2, channels := 6, pubChannels := 2, consChannels := 2, publishers := 5 } = .ok t ∧
        t.Staffed { conns := 2, channels := 6, pubChannels := 2, consChannels := 2, publishers := 5 } := by
  obtain ⟨places, staffed⟩ := workers_placed "" "" "" fun sl j => { sl with pubGoroutines := sl.pubGoroutines ++ [j] }
  refine ⟨places 7 [2, 0, 1] .uneven 3 _ (by decide) (by decide) (by decide), ?_⟩
  have accepted : Config.validate
      { conns := 2, channels := 6, pubChannels := 2, consChannels := 2, publishers := 5 } = .ok () := by decide +kernel
  obtain ⟨-, t, -, built⟩ := Config.validate_eq_ok accepted
  exact ⟨t, built, staffed _ t built⟩

end GolangMQ.Bench
