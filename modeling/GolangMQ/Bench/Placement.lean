import GolangMQ.Bench.Topology
import Mathlib.Data.List.Perm.Subperm

/-! # What the plan looks like

The loops of `buildTopology` only write into slots, so what a slot holds at the end is read off the entries that
select it. Together with the sorted order of the slots this gives the plan as a whole.
-/

namespace GolangMQ.Bench

variable {c : Config}

namespace Slots

variable {slots : Slots} {p : ℕ}

private theorem at_eq (inside : p < slots.length) : slots.at p = slots[p] := by
  simp [Slots.at, inside]

private theorem map_at_range (slots : Slots) : (List.range slots.length).map slots.at = slots :=
  List.ext_getElem (by simp) fun i _ inside => by simp [at_eq inside]

/-- What a loop over pointers leaves in a slot. -/
theorem at_scatter {ι : Type} {target : ι → ℕ} {f : ChannelSlot → ι → ChannelSlot} {entries : List ι}
    (inside : p < slots.length) :
    Slots.at (slots.scatter target f entries) p = (entries.filter (target · = p)).foldl f (slots.at p) := by
  have found := List.getElem?_scatter target f slots entries p
  rw [List.getElem?_eq_getElem inside] at found
  simp only [Slots.at, List.getD_eq_getElem?_getD, found, List.getElem?_eq_getElem inside, Option.map_some,
    Option.getD_some]

/-- A loop that numbers the pointers of a list. -/
private theorem at_scatter_zipIdx {f : ChannelSlot → ℕ → ChannelSlot} {pointers : List ℕ} (nodup : pointers.Nodup)
    (inside : p < slots.length) :
    Slots.at (slots.scatter Prod.fst (fun sl entry => f sl entry.2) pointers.zipIdx) p =
      if p ∈ pointers then f (slots.at p) (pointers.idxOf p) else slots.at p := by
  rw [at_scatter inside, List.filter_zipIdx_fst nodup]
  split <;> rfl

end Slots

namespace Config

/-- The slots of one connection as they are opened. -/
def slotsOf (c : Config) (cn : ℕ) (chans : List ℕ) : Slots := chans.zipIdx.map fun (gi, j) => c.newSlot cn j gi

/-- The slots are allocated connection by connection, and every connection points to its own. -/
private theorem openConns_spec (c : Config) (rows : List (List ℕ × ℕ)) :
    ∃ slots conns, rows.foldl c.openConn ([], []) = (slots, conns) ∧
      slots = rows.flatMap (fun row => c.slotsOf row.2 row.1) ∧
      conns.flatMap (·.channels) = List.range slots.length ∧
      conns.map (fun cp => (cp.conn, cp.role, cp.channels.map slots.at)) =
        rows.map fun row => (row.2, c.connRole row.2, c.slotsOf row.2 row.1) := by
  induction rows using List.reverseRecOn with
  | nil => exact ⟨[], [], rfl, rfl, rfl, rfl⟩
  | append_singleton rows row ih =>
    obtain ⟨slots, conns, opened, allocated, pointers, planned⟩ := ih
    obtain ⟨chans, cn⟩ := row
    have size : (c.slotsOf cn chans).length = chans.length := by simp [slotsOf]
    -- the pointers of the connections opened before keep their slots
    have old (q : ℕ) (inside : q < slots.length) : Slots.at (slots ++ c.slotsOf cn chans) q = slots.at q := by
      simp [Slots.at, List.getElem?_append_left inside]
    have new : (List.range' slots.length chans.length).map (Slots.at (slots ++ c.slotsOf cn chans)) =
        c.slotsOf cn chans := by
      refine List.ext_getElem (by simp [size]) fun i _ inside => ?_
      simp [Slots.at, inside]
    refine ⟨slots ++ c.slotsOf cn chans,
      conns ++ [⟨cn, c.connRole cn, List.range' slots.length chans.length⟩], ?_, ?_, ?_, ?_⟩
    · rw [List.foldl_append, opened]
      simp [openConn, slotsOf]
    · simp [allocated]
    · have joined : List.range' 0 slots.length ++ List.range' slots.length chans.length =
          List.range' 0 (slots.length + chans.length) := by
        simpa using List.range'_append_1 (s := 0) (m := slots.length) (n := chans.length)
      simp [pointers, size, List.range_eq_range', joined]
    · rw [List.map_append, List.map_append, ← planned]
      congr 1
      · refine List.map_congr_left fun cp member => ?_
        refine Prod.ext rfl (Prod.ext rfl (List.map_congr_left fun q pointed => old q ?_))
        exact List.mem_range.1 (pointers ▸ List.mem_flatMap.2 ⟨cp, member, pointed⟩)
      · simp [new]

/-- The role that the loop over the mixed slots gives to the slot at a position. -/
def carvedRole (c : Config) (k : ℕ) : Role :=
  if (k : ℤ) < c.pubChannels.toInt then .publish
  else if (k : ℤ) < c.pubChannels.toInt + c.consChannels.toInt then .consume
  else .both

/-- The two counters of the loop say how far it has come. -/
private theorem stampRoles_eq (pubs : 0 ≤ c.pubChannels.toInt) (cons : 0 ≤ c.consChannels.toInt) (slots : Slots)
    (mixed : List ℕ) :
    mixed.foldl stampRole (slots, c.pubChannels.toInt, c.consChannels.toInt) =
      (slots.scatter Prod.fst (fun sl entry => { sl with role := c.carvedRole entry.2 }) mixed.zipIdx,
        max 0 (c.pubChannels.toInt - mixed.length),
        min c.consChannels.toInt (max 0 (c.pubChannels.toInt + c.consChannels.toInt - mixed.length))) := by
  induction mixed using List.reverseRecOn with
  | nil => simp [List.scatter]; omega
  | append_singleton mixed p ih =>
    rw [List.foldl_append, ih]
    simp only [List.foldl_cons, List.foldl_nil, stampRole, List.zipIdx_append, List.scatter, List.foldl_append,
      List.zipIdx_cons, List.zipIdx_nil, Nat.zero_add, List.length_append, List.length_cons,
      List.length_nil, carvedRole]
    push_cast
    split_ifs <;> first | omega | skip
    all_goals refine Prod.ext rfl (Prod.ext ?_ ?_) <;> dsimp only <;> omega

theorem sortSlots_perm (slots : Slots) : (sortSlots slots).Perm (List.range slots.length) :=
  List.perm_insertionSort _ _

theorem nodup_sortSlots (slots : Slots) : (sortSlots slots).Nodup :=
  (sortSlots_perm slots).nodup_iff.2 List.nodup_range

theorem lt_of_mem_sortSlots {slots : Slots} {p : ℕ} (member : p ∈ sortSlots slots) : p < slots.length :=
  List.mem_range.1 ((sortSlots_perm slots).mem_iff.1 member)

/-- When the slots carry the indices below `n`, the sorted slots carry them in order. -/
private theorem map_globalIndex_sortSlots {slots : Slots} {n : ℕ}
    (indices : (slots.map (·.globalIndex)).Perm (List.range n)) :
    (sortSlots slots).map (fun p => (slots.at p).globalIndex) = List.range n := by
  have sorted : (sortSlots slots).Pairwise fun p q => (slots.at p).globalIndex ≤ (slots.at q).globalIndex := by
    have total : Std.Total fun p q => (slots.at p).globalIndex ≤ (slots.at q).globalIndex :=
      ⟨fun p q => Nat.le_total _ _⟩
    have transitive : IsTrans ℕ fun p q => (slots.at p).globalIndex ≤ (slots.at q).globalIndex :=
      ⟨fun p q r => Nat.le_trans⟩
    exact List.pairwise_insertionSort _ _
  have same : (sortSlots slots).map (fun p => (slots.at p).globalIndex) |>.Perm (List.range n) := by
    refine ((sortSlots_perm slots).map _).trans ?_
    have read : (List.range slots.length).map (fun p => (slots.at p).globalIndex) = slots.map (·.globalIndex) := by
      conv_rhs => rw [← slots.map_at_range, List.map_map]
      rfl
    rwa [read]
  refine same.eq_of_pairwise (fun a b _ _ => Nat.le_antisymm) (List.pairwise_map.2 sorted) ?_
  exact List.pairwise_le_range

/-- What `layout` returns, step by step. -/
structure Laid (c : Config) (chans : List (List ℕ)) (opened stamped slots : Slots) (t : Topology ℕ) : Prop where
  placed : c.chans = .ok chans
  opens : chans.zipIdx.foldl c.openConn ([], []) = (opened, t.conns)
  carves : (c.pubChannels + c.consChannels).toInt ≤
    ((sortSlots opened).filter fun p => c.connRole (opened.at p).conn = .mixed).length
  stamps : stamped = (((sortSlots opened).filter fun p => c.connRole (opened.at p).conn = .mixed).foldl stampRole
    (opened, c.pubChannels.toInt, c.consChannels.toInt)).1
  publishCapable : t.publishCapable = (sortSlots opened).filter fun p => (stamped.at p).role.publishes
  consumeCapable : t.consumeCapable = (sortSlots opened).filter fun p => (stamped.at p).role.consumes
  indexes : slots =
    stamped.scatter Prod.fst (fun sl entry => { sl with publishCapIdx := entry.2 }) t.publishCapable.zipIdx

private theorem laid_of_layout {slots : Slots} {t : Topology ℕ} (built : c.layout = .ok (slots, t)) :
    ∃ chans opened stamped, Laid c chans opened stamped slots t := by
  simp only [layout, bind_eq_ok, refuse_eq_ok, exists_const] at built
  obtain ⟨chans, placed, fits, same⟩ := built
  cases same
  exact ⟨chans, _, _, placed, rfl, Int.not_lt.1 fits, rfl, rfl, rfl, rfl⟩

end Config

/-- Placing workers notes every one of them in one of the slots that can take it. -/
private theorem placeWorkers_eq_ok {count capN : Int64} {slots : List ℕ} {mode : Distribution}
    {noun slotsDesc capFlag : String} {assign : ChannelSlot → ℕ → ChannelSlot} {allocated placed : Slots}
    (done : placeWorkers count slots mode capN noun slotsDesc capFlag assign allocated = .ok placed) :
    ∃ target : ℕ → ℕ, placed = allocated.scatter target assign (List.range count.toNatClampNeg) ∧
      ∀ j < count.toNatClampNeg, target j ∈ slots := by
  simp only [placeWorkers] at done
  by_cases none : count = 0
  · rw [if_pos none] at done
    cases done
    subst none
    exact ⟨fun _ => 0, rfl, fun j inside => absurd inside (Nat.not_lt_zero j)⟩
  by_cases empty : slots.length = 0
  · rw [if_neg none, if_pos empty] at done
    cases done
  rw [if_neg none, if_neg empty] at done
  have member (i : ℕ) (inside : i < slots.length) : slots.getD i 0 ∈ slots := by
    simp [inside]
  have positive := Nat.pos_of_ne_zero empty
  cases mode with
  | even =>
    cases done
    exact ⟨_, rfl, fun j _ => member _ (Nat.mod_lt _ positive)⟩
  | uneven =>
    dsimp only at done
    split_ifs at done <;> cases done
    · exact ⟨_, rfl, fun j _ => member _ positive⟩
    · exact ⟨_, rfl, fun j _ => member _ (Nat.mod_lt _ positive)⟩
  | other text => cases done

namespace Config

/-- The slots at the end: what was laid out, with the goroutines placed on them. -/
private theorem buildTopology_eq_ok {t : Topology ChannelSlot} (built : c.buildTopology true = .ok t) :
    ∃ slots final plan, c.layout = .ok (slots, plan) ∧ t = plan.resolve final ∧ final.length = slots.length ∧
      ∃ consumer publisher : ℕ → ℕ,
        (∀ j < c.consumers.toNatClampNeg, consumer j ∈ plan.consumeCapable) ∧
        (∀ j < c.publishers.toNatClampNeg, publisher j ∈ plan.publishCapable) ∧
        ∀ p < slots.length, final.at p = { slots.at p with
          consGoroutines := (slots.at p).consGoroutines ++
            (List.range c.consumers.toNatClampNeg).filter (consumer · = p)
          pubGoroutines := (slots.at p).pubGoroutines ++
            (List.range c.publishers.toNatClampNeg).filter (publisher · = p) } := by
  simp only [buildTopology, Bool.not_true, Bool.false_eq_true, ↓reduceIte, bind_eq_ok, refuse_eq_ok,
    exists_const] at built
  obtain ⟨⟨slots, plan⟩, laid, -, consuming, placed, -, publishing, placed', same⟩ := built
  cases same
  obtain ⟨consumer, rfl, consumers⟩ := placeWorkers_eq_ok placed
  obtain ⟨publisher, rfl, publishers⟩ := placeWorkers_eq_ok placed'
  refine ⟨slots, _, plan, laid, rfl, by simp only [List.length_scatter], consumer, publisher, consumers, publishers,
    fun p inside => ?_⟩
  have consumed (xs : List ℕ) (sl : ChannelSlot) :
      xs.foldl (fun sl j => { sl with consGoroutines := sl.consGoroutines ++ [j] }) sl =
        { sl with consGoroutines := sl.consGoroutines ++ xs } := by
    induction xs generalizing sl with
    | nil => simp
    | cons j rest ih => simp [ih]
  have published (xs : List ℕ) (sl : ChannelSlot) :
      xs.foldl (fun sl j => { sl with pubGoroutines := sl.pubGoroutines ++ [j] }) sl =
        { sl with pubGoroutines := sl.pubGoroutines ++ xs } := by
    induction xs generalizing sl with
    | nil => simp
    | cons j rest ih => simp [ih]
  rw [Slots.at_scatter (by simpa only [List.length_scatter] using inside), Slots.at_scatter inside, consumed, published]

/-- Everything that `Validate` checks before it tries the topology. -/
theorem validate_eq_ok (valid : c.validate = .ok ()) :
    c.validateFlags = .ok () ∧ ∃ t, c.buildTopology true = .ok t ∧ c.build = .ok t := by
  have both := valid
  simp only [validate, bind_eq_ok] at both
  obtain ⟨_, flags, t, built, -⟩ := both
  refine ⟨flags, t, built, ?_⟩
  simp only [build, bind_eq_ok]
  exact ⟨(), valid, built⟩

/-- The bounds that `Validate` checks on the numbers that the plan uses. -/
structure Validated (c : Config) : Prop where
  conns : 0 < c.conns.toInt
  pubConns : 0 ≤ c.pubConns.toInt
  consConns : 0 ≤ c.consConns.toInt
  pubChannels : 0 ≤ c.pubChannels.toInt
  consChannels : 0 ≤ c.consChannels.toInt
  publishers : 0 ≤ c.publishers.toInt
  msgs : 0 ≤ c.msgs.toInt
  connsDist : ∀ text, c.connsDist ≠ .other text

theorem validated_of_flags (flags : c.validateFlags = .ok ()) : c.Validated := by
  simp only [validateFlags, bind_eq_ok, refuse_eq_ok, exists_const, Int64.le_iff_toInt_le, Int64.lt_iff_toInt_lt,
    Int64.toInt_zero, not_le, not_lt] at flags
  obtain ⟨-, conns, pubConns, consConns, -, -, pubChannels, consChannels, publishers, -, msgs, -, -, -, -, -, known⟩ :=
    flags
  refine ⟨conns, pubConns, consConns, pubChannels, consChannels, publishers, msgs, fun text other => ?_⟩
  simp only [validateDistribution, other] at known
  cases known

/-- What else `Validate` checks on numbers. -/
theorem bounds_of_flags (flags : c.validateFlags = .ok ()) :
    0 ≤ c.consumers.toInt ∧ (c.pubConns + c.consConns).toInt ≤ c.conns.toInt := by
  simp only [validateFlags, bind_eq_ok, refuse_eq_ok, exists_const, Int64.lt_iff_toInt_lt, Int64.toInt_zero,
    not_lt] at flags
  obtain ⟨-, -, -, -, dedicated, -, -, -, -, consumers, -⟩ := flags
  exact ⟨consumers, dedicated⟩

/-- The connection of a channel under the distribution of the connections. -/
def connOf (c : Config) (i : ℕ) : ℕ :=
  match c.connsDist with
  | .even => i % c.conns.toNatClampNeg
  | .uneven => if c.maxChannelsPerConn ≤ 0 then 0 else i / c.maxChannelsPerConn.toNatClampNeg
  | .other _ => c.conns.toNatClampNeg

/-- A product of machine integers that are not negative never comes out too large. -/
private theorem toInt_mul_le {a b : Int64} (nonneg : 0 ≤ a.toInt) (nonneg' : 0 ≤ b.toInt) :
    (a * b).toInt ≤ a.toInt * b.toInt := by
  have product := Int.mul_nonneg nonneg nonneg'
  rw [Int64.toInt_mul, Int.bmod_def]
  split <;> omega

/-- Every connection gets the channels that belong to it, in order, and every channel belongs to one. -/
private theorem chans_eq (valid : c.Validated) {chans : List (List ℕ)} (placed : c.chans = .ok chans) :
    chans = ((List.range c.conns.toNatClampNeg).map fun k =>
      (List.range c.channels.toNatClampNeg).filter (c.connOf · = k)) ∧
      ∀ i < c.channels.toNatClampNeg, c.connOf i < c.conns.toNatClampNeg := by
  have some : 0 < c.conns.toNatClampNeg := Int.lt_toNat.2 valid.conns
  simp only [Config.chans] at placed
  cases dist : c.connsDist with
  | even =>
    rw [dist] at placed
    cases placed
    have conn (i : ℕ) : c.connOf i = i % c.conns.toNatClampNeg := by simp only [connOf, dist]
    simp only [conn]
    exact ⟨List.scatter_replicate _ _ _, fun i _ => Nat.mod_lt _ some⟩
  | uneven =>
    rw [dist] at placed
    dsimp only at placed
    split_ifs at placed with unlimited unfit <;> cases placed
    · have conn (i : ℕ) : c.connOf i = 0 := by simp only [connOf, dist, if_pos unlimited]
      simp only [conn]
      refine ⟨List.ext_getElem (by simp) fun k _ _ => ?_, fun i _ => some⟩
      by_cases first : 0 = k
      · subst first
        simp
      · simp [first]
    · have conn (i : ℕ) : c.connOf i = i / c.maxChannelsPerConn.toNatClampNeg := by
        simp only [connOf, dist, if_neg unlimited]
      simp only [conn]
      refine ⟨List.scatter_replicate _ _ _, fun i inside => Nat.div_lt_of_lt_mul ?_⟩
      -- the check compares with a product that may have wrapped, but never upwards
      rw [Int64.le_iff_toInt_le, Int64.toInt_zero, not_le] at unlimited
      rw [Int64.lt_iff_toInt_lt, not_lt] at unfit
      have fits := unfit.trans (toInt_mul_le valid.conns.le unlimited.le)
      have cast : (i : ℤ) < c.channels.toInt := Int.lt_toNat.1 inside
      have bound : (i : ℤ) < c.maxChannelsPerConn.toNatClampNeg * c.conns.toNatClampNeg := by
        simp only [Int64.toNatClampNeg, Int.toNat_of_nonneg valid.conns.le, Int.toNat_of_nonneg unlimited.le]
        rw [mul_comm]
        omega
      exact_mod_cast bound
  | other text => exact absurd dist (valid.connsDist text)

/-- The slots that are carved, in the order of their global indices. -/
def mixedSlots (c : Config) (opened : Slots) : List ℕ :=
  (sortSlots opened).filter fun p => c.connRole (opened.at p).conn = .mixed

namespace Laid

variable {chans : List (List ℕ)} {opened stamped slots : Slots} {t : Topology ℕ} {p : ℕ}

/-- Every slot was opened for one of the connections. -/
theorem newSlot (laid : Laid c chans opened stamped slots t) (inside : p < opened.length) :
    ∃ k < chans.length, ∃ j gi, opened.at p = c.newSlot k j gi := by
  obtain ⟨allocated, _, opens, rfl, -, -⟩ := openConns_spec c chans.zipIdx
  cases laid.opens.symm.trans opens
  have member := List.getElem_mem inside
  rw [← Slots.at_eq inside] at member
  generalize Slots.at _ p = sl at member
  obtain ⟨row, listed, member⟩ := List.mem_flatMap.1 member
  obtain ⟨entry, -, rfl⟩ := List.mem_map.1 member
  obtain ⟨-, bound, -⟩ := List.mem_zipIdx listed
  exact ⟨row.2, by omega, entry.2, entry.1, rfl⟩

private theorem length_stamped (laid : Laid c chans opened stamped slots t) (valid : c.Validated) :
    stamped.length = opened.length := by
  rw [laid.stamps, stampRoles_eq valid.pubChannels valid.consChannels]
  exact List.length_scatter _ _ _ _

/-- A slot of a mixed connection has the role of its rank; the others keep the role of their connection. -/
theorem at_stamped (laid : Laid c chans opened stamped slots t) (valid : c.Validated) (inside : p < opened.length) :
    stamped.at p = { opened.at p with
      role := if p ∈ c.mixedSlots opened then c.carvedRole ((c.mixedSlots opened).idxOf p)
        else (opened.at p).role } := by
  rw [laid.stamps, stampRoles_eq valid.pubChannels valid.consChannels]
  dsimp only
  rw [Slots.at_scatter_zipIdx (f := fun sl k => { sl with role := c.carvedRole k })
    ((nodup_sortSlots opened).filter _) inside]
  by_cases mixed : p ∈ c.mixedSlots opened
  · rw [if_pos mixed]
    exact if_pos mixed
  · rw [if_neg mixed]
    exact if_neg mixed

private theorem at_slots (laid : Laid c chans opened stamped slots t) (valid : c.Validated)
    (inside : p < opened.length) :
    slots.at p = { stamped.at p with
      publishCapIdx := if p ∈ t.publishCapable then t.publishCapable.idxOf p else -1 } := by
  have nodup : t.publishCapable.Nodup := laid.publishCapable ▸ (nodup_sortSlots opened).filter _
  rw [laid.indexes, Slots.at_scatter_zipIdx (f := fun sl k => { sl with publishCapIdx := k }) nodup
    (by rwa [laid.length_stamped valid])]
  split
  · rfl
  · obtain ⟨k, -, j, gi, slot⟩ := laid.newSlot inside
    rw [laid.at_stamped valid inside, slot]
    rfl

theorem lt_of_publishCapable (laid : Laid c chans opened stamped slots t) (member : p ∈ t.publishCapable) :
    p < opened.length := by
  rw [laid.publishCapable] at member
  exact lt_of_mem_sortSlots (List.mem_of_mem_filter member)

/-- What each connection was opened with. -/
theorem opened_conns (laid : Laid c chans opened stamped slots t) (valid : c.Validated) :
    t.conns.map (fun cp => (cp.conn, cp.role, cp.channels.map opened.at)) =
      (List.range c.conns.toNatClampNeg).map fun k =>
        (k, c.connRole k, c.slotsOf k ((List.range c.channels.toNatClampNeg).filter (c.connOf · = k))) := by
  obtain ⟨_, _, opens, -, -, planned⟩ := openConns_spec c chans.zipIdx
  cases laid.opens.symm.trans opens
  rw [planned, (chans_eq valid laid.placed).1]
  exact List.ext_getElem (by simp) fun k _ _ => by simp

private theorem map_conn (laid : Laid c chans opened stamped slots t) (valid : c.Validated) :
    t.conns.map (·.conn) = List.range c.conns.toNatClampNeg := by
  have numbers := congrArg (List.map Prod.fst) (laid.opened_conns valid)
  simpa [Function.comp_def] using numbers

theorem of_mem_conns (laid : Laid c chans opened stamped slots t) (valid : c.Validated) {cp : ConnPlan ℕ}
    (member : cp ∈ t.conns) :
    cp.role = c.connRole cp.conn ∧ cp.channels.map opened.at =
      c.slotsOf cp.conn ((List.range c.channels.toNatClampNeg).filter (c.connOf · = cp.conn)) := by
  have entry := List.mem_map_of_mem (f := fun cp => (cp.conn, cp.role, cp.channels.map opened.at)) member
  rw [laid.opened_conns valid] at entry
  obtain ⟨k, -, same⟩ := List.mem_map.1 entry
  simp only [Prod.mk.injEq] at same
  obtain ⟨rfl, role, channels⟩ := same
  exact ⟨role.symm, channels.symm⟩

theorem flatMap_channels (laid : Laid c chans opened stamped slots t) :
    t.conns.flatMap (·.channels) = List.range opened.length := by
  obtain ⟨_, _, opens, -, pointers, -⟩ := openConns_spec c chans.zipIdx
  cases laid.opens.symm.trans opens
  exact pointers

/-- Every global index is carried by exactly one slot. -/
theorem indices (laid : Laid c chans opened stamped slots t) (valid : c.Validated) :
    (opened.map (·.globalIndex)).Perm (List.range c.channels.toNatClampNeg) := by
  have read : opened.map (·.globalIndex) = (List.range c.conns.toNatClampNeg).flatMap fun k =>
      (List.range c.channels.toNatClampNeg).filter (c.connOf · = k) := by
    obtain ⟨_, _, opens, rfl, -, -⟩ := openConns_spec c chans.zipIdx
    cases laid.opens.symm.trans opens
    have rows : chans.zipIdx = (List.range c.conns.toNatClampNeg).map fun k =>
        ((List.range c.channels.toNatClampNeg).filter (c.connOf · = k), k) := by
      rw [(chans_eq valid laid.placed).1]
      exact List.ext_getElem (by simp) fun k _ _ => by simp
    have carried (k : ℕ) (gis : List ℕ) : (c.slotsOf k gis).map (·.globalIndex) = gis := by
      simp [slotsOf, Config.newSlot, Function.comp_def]
    simp [rows, List.map_flatMap, List.flatMap_map, carried]
  rw [read]
  exact List.flatMap_filter_perm List.nodup_range fun i inside =>
    List.mem_range.2 ((chans_eq valid laid.placed).2 i (List.mem_range.1 inside))

private theorem sorted (laid : Laid c chans opened stamped slots t) (valid : c.Validated) :
    (sortSlots opened).Pairwise fun p q => (opened.at p).globalIndex < (opened.at q).globalIndex := by
  rw [← List.pairwise_map (f := fun p => (opened.at p).globalIndex), map_globalIndex_sortSlots (laid.indices valid)]
  exact List.pairwise_lt_range

/-- A connection hosts the slots that carry its number, in the order of their global indices. -/
theorem channels_eq (laid : Laid c chans opened stamped slots t) (valid : c.Validated) {cp : ConnPlan ℕ}
    (member : cp ∈ t.conns) : cp.channels = (sortSlots opened).filter fun p => (opened.at p).conn = cp.conn := by
  have own (cp : ConnPlan ℕ) (member : cp ∈ t.conns) (p : ℕ) (pointed : p ∈ cp.channels) :
      (opened.at p).conn = cp.conn := by
    have slot := List.mem_map_of_mem (f := opened.at) pointed
    rw [(laid.of_mem_conns valid member).2] at slot
    obtain ⟨entry, -, same⟩ := List.mem_map.1 slot
    rw [← same]
    rfl
  have numbered : (t.conns.map (·.conn)).Nodup := laid.map_conn valid ▸ List.nodup_range
  have nodup : cp.channels.Nodup := by
    have all : (t.conns.flatMap (·.channels)).Nodup := laid.flatMap_channels ▸ List.nodup_range
    exact (List.nodup_flatMap.1 all).1 cp member
  have same (p : ℕ) : p ∈ cp.channels ↔ p ∈ (sortSlots opened).filter fun p => (opened.at p).conn = cp.conn := by
    rw [List.mem_filter, (sortSlots_perm opened).mem_iff, ← laid.flatMap_channels, List.mem_flatMap, decide_eq_true_eq]
    refine ⟨fun pointed => ⟨⟨cp, member, pointed⟩, own cp member p pointed⟩, ?_⟩
    rintro ⟨⟨other, listed, pointed⟩, conn⟩
    have equal := List.inj_on_of_nodup_map numbered listed member ((own other listed p pointed).symm.trans conn)
    exact equal ▸ pointed
  have antisymm (p q : ℕ) (_ : p ∈ cp.channels)
      (_ : q ∈ (sortSlots opened).filter fun p => (opened.at p).conn = cp.conn)
      (less : (opened.at p).globalIndex < (opened.at q).globalIndex)
      (more : (opened.at q).globalIndex < (opened.at p).globalIndex) : p = q :=
    absurd (less.trans more) (lt_irrefl _)
  refine List.Perm.eq_of_pairwise antisymm ?_ ((laid.sorted valid).filter _)
    ((List.perm_ext_iff_of_nodup nodup ((nodup_sortSlots opened).filter _)).2 same)
  rw [← List.pairwise_map (f := fun p => (opened.at p).globalIndex), ← Function.comp_def, ← List.map_map,
    (laid.of_mem_conns valid member).2]
  simpa [slotsOf, Config.newSlot, Function.comp_def] using List.pairwise_lt_range.filter _

/-- A slot is on the connection of its global index. -/
theorem conn_eq (laid : Laid c chans opened stamped slots t) (valid : c.Validated) (inside : p < opened.length) :
    (opened.at p).conn = c.connOf (opened.at p).globalIndex := by
  have pointed : p ∈ t.conns.flatMap (·.channels) := laid.flatMap_channels ▸ List.mem_range.2 inside
  obtain ⟨cp, member, pointed⟩ := List.mem_flatMap.1 pointed
  have slot := List.mem_map_of_mem (f := opened.at) pointed
  rw [(laid.of_mem_conns valid member).2] at slot
  obtain ⟨⟨gi, j⟩, entry, same⟩ := List.mem_map.1 slot
  have placed := (List.mem_filter.1 (List.fst_mem_of_mem_zipIdx entry)).2
  rw [← same]
  exact (of_decide_eq_true placed).symm

end Laid

/-- The sums that the plan uses come out as the true sums. -/
structure Exact (c : Config) : Prop where
  conns : (c.pubConns + c.consConns).toInt = c.pubConns.toInt + c.consConns.toInt
  channels : (c.pubChannels + c.consChannels).toInt = c.pubChannels.toInt + c.consChannels.toInt

private theorem connRole_eq_mixed (sums : c.Exact) (valid : c.Validated) {k : ℕ} :
    c.connRole k = .mixed ↔ c.pubConns.toInt + c.consConns.toInt ≤ k := by
  have := valid.consConns
  simp only [connRole, sums.conns]
  split_ifs <;> simp <;> omega

/-- The roles of the carved slots, in order. -/
private theorem map_carvedRole (valid : c.Validated) {n : ℕ} (fits : c.pubChannels.toInt + c.consChannels.toInt ≤ n) :
    (List.range n).map c.carvedRole =
      List.replicate c.pubChannels.toNatClampNeg .publish ++ List.replicate c.consChannels.toNatClampNeg .consume ++
        List.replicate (n - c.pubChannels.toNatClampNeg - c.consChannels.toNatClampNeg) .both := by
  have pubs : (c.pubChannels.toNatClampNeg : ℤ) = c.pubChannels.toInt := Int.toNat_of_nonneg valid.pubChannels
  have cons : (c.consChannels.toNatClampNeg : ℤ) = c.consChannels.toInt := Int.toNat_of_nonneg valid.consChannels
  refine List.ext_getElem (by simp; omega) fun k _ _ => ?_
  simp only [List.getElem_map, List.getElem_range, carvedRole, List.getElem_append, List.getElem_replicate,
    List.length_append, List.length_replicate]
  split_ifs <;> first | rfl | omega

end Config

/-- `slots` are the slots of a plan in the order of their global indices, and the plan is the documented one. -/
structure Topology.FollowsPlan (c : Config) (t : Topology ChannelSlot) (slots : List ChannelSlot) : Prop where
  indices : slots.map (·.globalIndex) = List.range c.channels.toNatClampNeg
  hosted : (t.conns.flatMap (·.channels)).Perm slots
  conns : t.conns.map (·.conn) = List.range c.conns.toNatClampNeg
  own : ∀ cp ∈ t.conns, cp.channels = slots.filter (·.conn = cp.conn)
  increasing : ∀ cp ∈ t.conns, cp.channels.Pairwise (·.globalIndex < ·.globalIndex)
  positions : ∀ cp ∈ t.conns, cp.channels.map (·.ch) = List.range cp.channels.length
  even : c.connsDist = .even → ∀ sl ∈ slots, sl.conn = sl.globalIndex % c.conns.toNatClampNeg
  unlimited : c.connsDist = .uneven → c.maxChannelsPerConn ≤ 0 → ∀ sl ∈ slots, sl.conn = 0
  limited : c.connsDist = .uneven → 0 < c.maxChannelsPerConn →
    (∀ sl ∈ slots, sl.conn = sl.globalIndex / c.maxChannelsPerConn.toNatClampNeg) ∧
      ∀ cp ∈ t.conns, cp.channels.length ≤ c.maxChannelsPerConn.toNatClampNeg
  known : ∀ text, c.connsDist ≠ .other text
  publishOnly : ∀ sl ∈ slots, (sl.conn : ℤ) < c.pubConns.toInt → sl.role = .publish
  consumeOnly : ∀ sl ∈ slots, c.pubConns.toInt ≤ sl.conn → (sl.conn : ℤ) < c.pubConns.toInt + c.consConns.toInt →
    sl.role = .consume
  carved : ∃ rest, (slots.filter (c.pubConns.toInt + c.consConns.toInt ≤ ·.conn)).map (·.role) =
    List.replicate c.pubChannels.toNatClampNeg .publish ++ List.replicate c.consChannels.toNatClampNeg .consume ++
      List.replicate rest .both
  publishCapable : t.publishCapable = slots.filter fun sl => sl.role = .publish ∨ sl.role = .both
  consumeCapable : t.consumeCapable = slots.filter fun sl => sl.role = .consume ∨ sl.role = .both
  ordered : t.publishCapable.Pairwise (·.globalIndex < ·.globalIndex) ∧
    t.consumeCapable.Pairwise (·.globalIndex < ·.globalIndex)
  indexed : ∀ (k : ℕ) (sl : ChannelSlot), t.publishCapable[k]? = some sl → sl.publishCapIdx = k
  unindexed : ∀ sl ∈ slots, sl.role = .consume → sl.publishCapIdx = -1

/-- What the slots are at the end, in terms of what they were opened with and of the roles. -/
structure Config.Settled (opened stamped final : Slots) (plan : Topology ℕ) : Prop where
  conn : ∀ p < opened.length, (final.at p).conn = (opened.at p).conn
  ch : ∀ p < opened.length, (final.at p).ch = (opened.at p).ch
  globalIndex : ∀ p < opened.length, (final.at p).globalIndex = (opened.at p).globalIndex
  role : ∀ p < opened.length, (final.at p).role = (stamped.at p).role
  publishCapIdx : ∀ p < opened.length,
    (final.at p).publishCapIdx = if p ∈ plan.publishCapable then (plan.publishCapable.idxOf p : ℤ) else -1

/-- Which slot each goroutine was noted in. -/
structure Config.Staffed (c : Config) (opened final : Slots) (plan : Topology ℕ) (consumer publisher : ℕ → ℕ) :
    Prop where
  consumers : ∀ j < c.consumers.toNatClampNeg, consumer j ∈ plan.consumeCapable
  publishers : ∀ j < c.publishers.toNatClampNeg, publisher j ∈ plan.publishCapable
  consGoroutines : ∀ p < opened.length,
    (final.at p).consGoroutines = (List.range c.consumers.toNatClampNeg).filter (consumer · = p)
  pubGoroutines : ∀ p < opened.length,
    (final.at p).pubGoroutines = (List.range c.publishers.toNatClampNeg).filter (publisher · = p)

/-- The plan that `Build` returns, taken apart. -/
theorem Config.staffed (valid : c.Validated) {t : Topology ChannelSlot} (built : c.buildTopology true = .ok t) :
    ∃ chans opened stamped slots final plan consumer publisher, Laid c chans opened stamped slots plan ∧
      t = plan.resolve final ∧ Settled opened stamped final plan ∧ Staffed c opened final plan consumer publisher := by
  obtain ⟨slots, final, plan, laidOut, rfl, -, consumer, publisher, consumers, publishers, placed⟩ :=
    buildTopology_eq_ok built
  obtain ⟨chans, opened, stamped, laid⟩ := laid_of_layout laidOut
  have size : slots.length = opened.length := by
    rw [laid.indexes, List.length_scatter, laid.length_stamped valid]
  have read (p : ℕ) (inside : p < opened.length) := placed p (by rwa [size])
  have idle (p : ℕ) (inside : p < opened.length) :
      (slots.at p).consGoroutines = [] ∧ (slots.at p).pubGoroutines = [] := by
    obtain ⟨k, -, j, gi, slot⟩ := laid.newSlot inside
    rw [laid.at_slots valid inside, laid.at_stamped valid inside, slot]
    exact ⟨rfl, rfl⟩
  refine ⟨chans, opened, stamped, slots, final, plan, consumer, publisher, laid, rfl, ⟨?_, ?_, ?_, ?_, ?_⟩,
    ⟨consumers, publishers, ?_, ?_⟩⟩ <;> intro p inside
  · rw [read p inside, laid.at_slots valid inside, laid.at_stamped valid inside]
  · rw [read p inside, laid.at_slots valid inside, laid.at_stamped valid inside]
  · rw [read p inside, laid.at_slots valid inside, laid.at_stamped valid inside]
  · rw [read p inside, laid.at_slots valid inside]
  · rw [read p inside, laid.at_slots valid inside]
  · rw [read p inside, (idle p inside).1, List.nil_append]
  · rw [read p inside, (idle p inside).2, List.nil_append]

theorem Config.settled (valid : c.Validated) {t : Topology ChannelSlot} (built : c.buildTopology true = .ok t) :
    ∃ chans opened stamped slots final plan, Laid c chans opened stamped slots plan ∧ t = plan.resolve final ∧
      Settled opened stamped final plan := by
  obtain ⟨chans, opened, stamped, slots, final, plan, -, -, laid, same, settled, -⟩ := staffed valid built
  exact ⟨chans, opened, stamped, slots, final, plan, laid, same, settled⟩

/-- The slots of a plan in the order of their global indices. -/
def Slots.inOrder (opened final : Slots) : List ChannelSlot := (Config.sortSlots opened).map final.at

namespace Config.Settled

variable {chans : List (List ℕ)} {opened stamped slots final : Slots} {plan : Topology ℕ}

/-- Selecting slots by what they are at the end is selecting their pointers. -/
theorem filter_inOrder (select : ChannelSlot → Bool) (selected : ℕ → Bool)
    (same : ∀ p < opened.length, select (final.at p) = selected p) :
    (opened.inOrder final).filter select = ((sortSlots opened).filter selected).map final.at := by
  rw [Slots.inOrder, List.filter_map]
  exact congrArg _ (List.filter_congr fun p member => same p (lt_of_mem_sortSlots member))

/-- The channels that can do something are selected by their roles at the end. -/
theorem capable_inOrder (settled : Settled opened stamped final plan) (able : Role → Bool)
    (select : ChannelSlot → Bool) (same : ∀ sl, select sl = able sl.role) :
    ((sortSlots opened).filter fun p => able (stamped.at p).role).map final.at = (opened.inOrder final).filter select :=
  (filter_inOrder _ _ fun p inside => by rw [same, settled.role p inside]).symm

private theorem mem_inOrder {sl : ChannelSlot} (member : sl ∈ opened.inOrder final) :
    ∃ p < opened.length, final.at p = sl := by
  obtain ⟨p, sorted, rfl⟩ := List.mem_map.1 member
  exact ⟨p, lt_of_mem_sortSlots sorted, rfl⟩

private theorem indices (settled : Settled opened stamped final plan) (laid : Laid c chans opened stamped slots plan)
    (valid : c.Validated) :
    (opened.inOrder final).map (·.globalIndex) = List.range c.channels.toNatClampNeg := by
  rw [← map_globalIndex_sortSlots (laid.indices valid), Slots.inOrder, List.map_map]
  exact List.map_congr_left fun p member => settled.globalIndex p (lt_of_mem_sortSlots member)

private theorem increasing (settled : Settled opened stamped final plan) (laid : Laid c chans opened stamped slots plan)
    (valid : c.Validated) : (opened.inOrder final).Pairwise (·.globalIndex < ·.globalIndex) := by
  rw [← List.pairwise_map (f := fun sl : ChannelSlot => sl.globalIndex), settled.indices laid valid]
  exact List.pairwise_lt_range

private theorem own (settled : Settled opened stamped final plan) (laid : Laid c chans opened stamped slots plan)
    (valid : c.Validated) {cp : ConnPlan ℕ} (member : cp ∈ plan.conns) :
    cp.channels.map final.at = (opened.inOrder final).filter (·.conn = cp.conn) := by
  rw [laid.channels_eq valid member]
  exact (filter_inOrder _ _ fun p inside => by rw [settled.conn p inside]).symm

private theorem positions (settled : Settled opened stamped final plan) (laid : Laid c chans opened stamped slots plan)
    (valid : c.Validated) {cp : ConnPlan ℕ} (member : cp ∈ plan.conns) :
    (cp.channels.map final.at).map (·.ch) = List.range cp.channels.length := by
  have inside (p : ℕ) (pointed : p ∈ cp.channels) : p < opened.length := by
    rw [laid.channels_eq valid member] at pointed
    exact lt_of_mem_sortSlots (List.mem_of_mem_filter pointed)
  have opens : cp.channels.map (fun p => (opened.at p).ch) = List.range cp.channels.length := by
    have counted := congrArg List.length (laid.of_mem_conns valid member).2
    have numbers := congrArg (List.map ChannelSlot.ch) (laid.of_mem_conns valid member).2
    simp only [slotsOf, Config.newSlot, List.map_map, List.length_map, List.length_zipIdx] at counted numbers
    rw [counted]
    simpa [Function.comp_def, List.zipIdx_map_snd, List.range_eq_range'] using numbers
  rw [← opens, List.map_map]
  exact List.map_congr_left fun p pointed => settled.ch p (inside p pointed)

/-- The role of a slot on a connection that is not mixed. -/
theorem role_of_conn (settled : Settled opened stamped final plan) (laid : Laid c chans opened stamped slots plan)
    (valid : c.Validated) {p : ℕ} (inside : p < opened.length) :
    (c.connRole (final.at p).conn = .publishOnly → (final.at p).role = .publish) ∧
      (c.connRole (final.at p).conn = .consumeOnly → (final.at p).role = .consume) := by
  obtain ⟨k, -, j, gi, slot⟩ := laid.newSlot inside
  have unmixed (role : ConnRole) (other : role ≠ .mixed) (conn : c.connRole (final.at p).conn = role) :
      (final.at p).role = (opened.at p).role := by
    have outside : p ∉ c.mixedSlots opened := fun mixed => by
      have carved := of_decide_eq_true (List.mem_filter.1 mixed).2
      rw [← settled.conn p inside, conn] at carved
      exact other carved
    rw [settled.role p inside, laid.at_stamped valid inside]
    exact if_neg outside
  have number : (final.at p).conn = k := by rw [settled.conn p inside, slot]; rfl
  constructor <;> intro conn <;> rw [unmixed _ (by decide) conn, slot] <;> rw [number] at conn <;>
    simp only [Config.newSlot, conn]

private theorem carved (settled : Settled opened stamped final plan) (laid : Laid c chans opened stamped slots plan)
    (valid : c.Validated) (sums : c.Exact) :
    ∃ rest, ((opened.inOrder final).filter (c.pubConns.toInt + c.consConns.toInt ≤ ·.conn)).map (·.role) =
      List.replicate c.pubChannels.toNatClampNeg .publish ++ List.replicate c.consChannels.toNatClampNeg .consume ++
        List.replicate rest .both := by
  have mixed : (opened.inOrder final).filter (c.pubConns.toInt + c.consConns.toInt ≤ ·.conn) =
      (c.mixedSlots opened).map final.at :=
    filter_inOrder _ _ fun p inside => by
      rw [decide_eq_decide, connRole_eq_mixed sums valid, settled.conn p inside]
  have nodup : (c.mixedSlots opened).Nodup := (nodup_sortSlots opened).filter _
  have roles : ((c.mixedSlots opened).map final.at).map (·.role) =
      (List.range (c.mixedSlots opened).length).map c.carvedRole := by
    rw [← List.map_idxOf nodup, List.map_map, List.map_map]
    refine List.map_congr_left fun p member => ?_
    have inside := lt_of_mem_sortSlots (List.mem_of_mem_filter member)
    rw [Function.comp_apply, settled.role p inside, laid.at_stamped valid inside]
    exact if_pos member
  exact ⟨_, by rw [mixed, roles, map_carvedRole valid (sums.channels ▸ laid.carves)]⟩

end Config.Settled

namespace Config.Laid

variable {chans : List (List ℕ)} {opened stamped slots final : Slots} {plan : Topology ℕ}

/-- The connections host all slots. -/
theorem flatMap_resolve (laid : Laid c chans opened stamped slots plan) (final : Slots) :
    (plan.resolve final).conns.flatMap (·.channels) = (List.range opened.length).map final.at := by
  rw [← laid.flatMap_channels]
  simp [Topology.resolve, List.flatMap_map, List.map_flatMap]

theorem exists_of_hosted (laid : Laid c chans opened stamped slots plan) {cp : ConnPlan ChannelSlot}
    (member : cp ∈ (plan.resolve final).conns) {sl : ChannelSlot} (listed : sl ∈ cp.channels) :
    ∃ p < opened.length, final.at p = sl := by
  have hosted : sl ∈ (plan.resolve final).conns.flatMap (·.channels) := List.mem_flatMap.2 ⟨cp, member, listed⟩
  rw [laid.flatMap_resolve] at hosted
  simpa using hosted

end Config.Laid

/-- The indices that the record calls use are inside their arrays, and consumers have a key for their latencies. -/
structure Topology.Indexed (t : Topology ChannelSlot) : Prop where
  hosted : ∀ cp ∈ t.conns, ∀ sl ∈ cp.channels,
    sl.conn < t.conns.length ∧ sl.publishCapIdx < t.publishCapable.length
  publishing : ∀ sl ∈ t.publishCapable, sl.conn < t.conns.length ∧ 0 ≤ sl.publishCapIdx ∧
    sl.publishCapIdx < t.publishCapable.length
  consuming : ∀ sl ∈ t.consumeCapable, sl.conn < t.conns.length ∧ sl.role ≠ .publish

theorem Config.build_eq_ok {t : Topology ChannelSlot} (built : c.build = .ok t) :
    c.Validated ∧ c.buildTopology true = .ok t := by
  simp only [build, bind_eq_ok] at built
  obtain ⟨_, valid, topology⟩ := built
  exact ⟨validated_of_flags (validate_eq_ok valid).1, topology⟩

theorem indexed_of_build {t : Topology ChannelSlot} (built : c.build = .ok t) : t.Indexed := by
  obtain ⟨valid, topology⟩ := Config.build_eq_ok built
  obtain ⟨chans, opened, stamped, slots, final, plan, laid, rfl, settled⟩ := Config.settled valid topology
  have size : (plan.resolve final).conns.length = chans.length := by
    have numbers := congrArg List.length (laid.opened_conns valid)
    simpa [Topology.resolve, (Config.chans_eq valid laid.placed).1] using numbers
  have conn (p : ℕ) (inside : p < opened.length) : (final.at p).conn < (plan.resolve final).conns.length := by
    obtain ⟨k, below, j, gi, slot⟩ := laid.newSlot inside
    rw [settled.conn p inside, slot, size]
    exact below
  have index (p : ℕ) (inside : p < opened.length) :
      (final.at p).publishCapIdx < (plan.resolve final).publishCapable.length := by
    rw [settled.publishCapIdx p inside, Topology.resolve, List.length_map]
    split
    · next member => exact_mod_cast List.idxOf_lt_length_of_mem member
    · omega
  constructor
  · intro cp member sl listed
    obtain ⟨p, inside, rfl⟩ := laid.exists_of_hosted member listed
    exact ⟨conn p inside, index p inside⟩
  · intro sl listed
    obtain ⟨p, pointed, rfl⟩ := List.mem_map.1 listed
    have inside := laid.lt_of_publishCapable pointed
    refine ⟨conn p inside, ?_, index p inside⟩
    rw [settled.publishCapIdx p inside, if_pos pointed]
    exact Int.natCast_nonneg _
  · intro sl listed
    obtain ⟨p, pointed, rfl⟩ := List.mem_map.1 listed
    rw [laid.consumeCapable, List.mem_filter] at pointed
    have inside := Config.lt_of_mem_sortSlots pointed.1
    refine ⟨conn p inside, fun publishes => ?_⟩
    rw [← settled.role p inside, publishes] at pointed
    exact absurd pointed.2 (by decide)

/-- The plan is the documented one. -/
theorem build_follows_plan (c : Config) (valid : c.validate = .ok ()) (sums : c.Exact) :
    ∃ t slots, c.build = .ok t ∧ Topology.FollowsPlan c t slots := by
  obtain ⟨flags, t, topology, built⟩ := Config.validate_eq_ok valid
  have valid := Config.validated_of_flags flags
  obtain ⟨chans, opened, stamped, slots, final, plan, laid, rfl, settled⟩ := Config.settled valid topology
  refine ⟨_, opened.inOrder final, built, ?_⟩
  have publishing : (plan.resolve final).publishCapable =
      (opened.inOrder final).filter fun sl => sl.role = .publish ∨ sl.role = .both := by
    simp only [Topology.resolve, laid.publishCapable]
    exact settled.capable_inOrder Role.publishes _ fun sl => by cases sl.role <;> rfl
  have consuming : (plan.resolve final).consumeCapable =
      (opened.inOrder final).filter fun sl => sl.role = .consume ∨ sl.role = .both := by
    simp only [Topology.resolve, laid.consumeCapable]
    exact settled.capable_inOrder Role.consumes _ fun sl => by cases sl.role <;> rfl
  have increasing := settled.increasing laid valid
  have conn (sl : ChannelSlot) (member : sl ∈ opened.inOrder final) : sl.conn = c.connOf sl.globalIndex := by
    obtain ⟨p, inside, rfl⟩ := Config.Settled.mem_inOrder member
    rw [settled.conn p inside, settled.globalIndex p inside, laid.conn_eq valid inside]
  have limited (uneven : c.connsDist = .uneven) (positive : 0 < c.maxChannelsPerConn) (i : ℕ) :
      c.connOf i = i / c.maxChannelsPerConn.toNatClampNeg := by
    simp only [Config.connOf, uneven, if_neg (Int64.not_le.2 positive)]
  refine
    { indices := settled.indices laid valid
      hosted := ?_
      conns := by simpa [Topology.resolve, Function.comp_def] using laid.map_conn valid
      own := ?_
      increasing := ?_
      positions := ?_
      even := fun even sl member => by rw [conn sl member, Config.connOf, even]
      unlimited := fun uneven free sl member => by
        rw [conn sl member]
        simp only [Config.connOf, uneven, if_pos free]
      limited := fun uneven positive => ⟨fun sl member => by rw [conn sl member, limited uneven positive], ?_⟩
      known := valid.connsDist
      publishOnly := ?_
      consumeOnly := ?_
      carved := settled.carved laid valid sums
      publishCapable := publishing
      consumeCapable := consuming
      ordered := ⟨?_, ?_⟩
      indexed := ?_
      unindexed := ?_ }
  · rw [laid.flatMap_resolve]
    exact (Config.sortSlots_perm opened).symm.map _
  · intro cp member
    obtain ⟨cp, listed, rfl⟩ := List.mem_map.1 member
    exact settled.own laid valid listed
  · intro cp member
    obtain ⟨cp, listed, rfl⟩ := List.mem_map.1 member
    rw [settled.own laid valid listed]
    exact increasing.filter _
  · intro cp member
    obtain ⟨cp, listed, rfl⟩ := List.mem_map.1 member
    rw [settled.positions laid valid listed, List.length_map]
  · intro cp member
    obtain ⟨cp, listed, rfl⟩ := List.mem_map.1 member
    have size := congrArg List.length (laid.of_mem_conns valid listed).2
    simp only [Config.slotsOf, List.length_map, List.length_zipIdx, limited uneven positive] at size
    rw [List.length_map, size]
    have limit : 0 < c.maxChannelsPerConn.toNatClampNeg := Int.lt_toNat.2 (Int64.lt_iff_toInt_lt.1 positive)
    rw [List.length_filter_range_div _ _ limit]
    exact Nat.min_le_left _ _
  · intro sl member first
    obtain ⟨p, inside, rfl⟩ := Config.Settled.mem_inOrder member
    exact (settled.role_of_conn laid valid inside).1 (by rw [Config.connRole, if_pos first])
  · intro sl member next last
    obtain ⟨p, inside, rfl⟩ := Config.Settled.mem_inOrder member
    refine (settled.role_of_conn laid valid inside).2 ?_
    rw [Config.connRole, if_neg (Int.not_lt.2 next), sums.conns, if_pos last]
  · rw [publishing]
    exact increasing.filter _
  · rw [consuming]
    exact increasing.filter _
  · intro k sl found
    have nodup : plan.publishCapable.Nodup := laid.publishCapable ▸ (Config.nodup_sortSlots opened).filter _
    rw [Topology.resolve, List.getElem?_map] at found
    obtain ⟨p, pointed, rfl⟩ := Option.map_eq_some_iff.1 found
    obtain ⟨bound, rfl⟩ := List.getElem?_eq_some_iff.1 pointed
    have member := List.getElem_mem bound
    have inside : plan.publishCapable[k] < opened.length := laid.lt_of_publishCapable member
    rw [settled.publishCapIdx _ inside, if_pos member, nodup.idxOf_getElem]
  · intro sl member consumes
    obtain ⟨p, inside, rfl⟩ := Config.Settled.mem_inOrder member
    rw [settled.publishCapIdx p inside, if_neg]
    intro capable
    rw [laid.publishCapable, List.mem_filter, ← settled.role p inside, consumes] at capable
    exact absurd capable.2 (by decide)

theorem build_follows_plan_carved :
    ∃ t slots, Config.build { conns := 2, channels := 6, pubChannels := 2, consChannels := 2 } = .ok t ∧
      Topology.FollowsPlan { conns := 2, channels := 6, pubChannels := 2, consChannels := 2 } t slots :=
  build_follows_plan _ (by decide +kernel) ⟨by decide +kernel, by decide +kernel⟩

end GolangMQ.Bench
