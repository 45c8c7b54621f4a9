import GolangMQ.Bench.Engine
import GolangMQ.Bench.Placement

/-! # Sums and products that wrap

`Validate` checks the signs of the flags and then compares sums and a product that have been computed in 64 bits.
When they wrap they come out negative, and the comparisons accept them. For the flags that `Validate` accepts, every
number that `Run` and `Warnings` work with is the true one exactly when nothing has wrapped.
-/

namespace GolangMQ.Bench

variable {c : Config}

namespace Config

/-- The warning about delivery tags, with the number of messages it shows. -/
def tagWarning (total : Int64) : Errorf :=
  ⟨"publishers x msgs = %d exceeds the uint16 delivery-tag space (65535): delivery tags may wrap and dispatch can corrupt (Phase 3 deliberately probes this)",
    [.int total]⟩

/-- `Warnings`; a warning is the call of `fmt.Sprintf` that makes it. -/
def warnings (c : Config) : List Errorf :=
  let total := c.publishers * c.msgs
  (if 65535 < total then [tagWarning total] else []) ++
  (if !c.ack then
    [⟨"consumers will not ack: dispatch freezes each consumer at the broker's fixed prefetch (10); this run is a stall probe, not a throughput run",
      []⟩]
  else []) ++
  (if c.prefetch ≠ 10 then
    [⟨"-prefetch %d ignored: the broker hardcodes a prefetch of 10 (no basic.qos)", [.int c.prefetch]⟩]
  else []) ++
  (if 0 < c.maxChannelsPerConn ∧ c.connsDist ≠ .uneven then
    [⟨"-max-channels-per-conn ignored: the conns distribution axis is even (a cap only applies under uneven packing)",
      []⟩]
  else []) ++
  (if 0 < c.maxConsumersPerChannel ∧ c.channelsDist ≠ .uneven then
    [⟨"-max-consumers-per-channel ignored: the channels distribution axis is even (a cap only applies under uneven packing)",
      []⟩]
  else []) ++
  (if 0 < c.maxPublishersPerChannel ∧ c.pubChannelsDist ≠ .uneven then
    [⟨"-max-publishers-per-channel ignored: the pub-channels distribution axis is even (a cap only applies under uneven packing)",
      []⟩]
  else [])

theorem tagWarning_mem_warnings (total : Int64) :
    tagWarning total ∈ c.warnings ↔ total = c.publishers * c.msgs ∧ 65535 < c.publishers * c.msgs := by
  -- the texts of the other warnings are different
  simp only [warnings, List.mem_append, List.mem_ite_nil_right, List.mem_singleton, tagWarning, Errorf.mk.injEq,
    String.reduceEq, false_and, and_false, or_false]
  simp [and_comm]

/-- The two sums and the product stay below `2^63`. -/
structure Fits (c : Config) : Prop where
  conns : c.pubConns.toInt ≤ 2 ^ 63 - 1 - c.consConns.toInt
  channels : c.pubChannels.toInt ≤ 2 ^ 63 - 1 - c.consChannels.toInt
  messages : c.publishers = 0 ∨ c.msgs.toInt ≤ (2 ^ 63 - 1) / c.publishers.toInt

end Config

/-- The channels of the mixed connections of a plan. -/
def Topology.mixed (t : Topology ChannelSlot) : List ChannelSlot :=
  (t.conns.filter (·.role = .mixed)).flatMap (·.channels)

/-- What `Validate` promises about a configuration, over the integers, and what is computed from it. -/
structure Config.OverflowFree (c : Config) (t : Topology ChannelSlot) : Prop where
  conns : c.pubConns.toInt + c.consConns.toInt ≤ c.conns.toInt
  channels : c.pubChannels.toInt + c.consChannels.toInt ≤ t.mixed.length
  messages : 0 ≤ c.publishers.toInt * c.msgs.toInt ∧ c.publishers.toInt * c.msgs.toInt < 2 ^ 63
  total : (Job.total ⟨c, t⟩ : ℤ) = c.publishers.toInt * c.msgs.toInt
  shown : (c.publishers * c.msgs).toInt = c.publishers.toInt * c.msgs.toInt
  warned : (∃ total, tagWarning total ∈ c.warnings) ↔ 65535 < c.publishers.toInt * c.msgs.toInt

/-- A sum of machine integers that fits comes out as the true one. -/
private theorem toInt_add_of_le {a b : Int64} (nonneg : 0 ≤ a.toInt) (nonneg' : 0 ≤ b.toInt)
    (fits : a.toInt ≤ 2 ^ 63 - 1 - b.toInt) : (a + b).toInt = a.toInt + b.toInt := by
  rw [Int64.toInt_add, Int.bmod_eq_of_le (by omega) (by omega)]

namespace Config.Laid

variable {chans : List (List ℕ)} {opened stamped slots : Slots} {t : Topology ℕ}

/-- The slots that are carved are those of the mixed connections. -/
theorem length_mixed (laid : Laid c chans opened stamped slots t) (valid : c.Validated) (final : Slots) :
    (t.resolve final).mixed.length = (c.mixedSlots opened).length := by
  have own (cp : ConnPlan ℕ) (member : cp ∈ t.conns) (p : ℕ) (pointed : p ∈ cp.channels) :
      decide (c.connRole (opened.at p).conn = .mixed) = decide (cp.role = .mixed) := by
    rw [laid.channels_eq valid member] at pointed
    rw [(laid.of_mem_conns valid member).1, of_decide_eq_true (List.mem_filter.1 pointed).2]
  have carved : (t.conns.filter (·.role = .mixed)).flatMap (·.channels) =
      (List.range opened.length).filter fun p => c.connRole (opened.at p).conn = .mixed := by
    rw [← laid.flatMap_channels]
    exact List.flatMap_filter_eq own
  have resolved : (t.resolve final).mixed = ((t.conns.filter (·.role = .mixed)).flatMap (·.channels)).map final.at := by
    simp [Topology.mixed, Topology.resolve, List.filter_map, List.flatMap_map, List.map_flatMap, Function.comp_def]
  rw [resolved, List.length_map, carved]
  exact ((sortSlots_perm opened).filter _).length_eq.symm

/-- There are no more slots than channels. -/
theorem length_mixedSlots_le (laid : Laid c chans opened stamped slots t) (valid : c.Validated) :
    (c.mixedSlots opened).length ≤ c.channels.toNatClampNeg := by
  have all := (laid.indices valid).length_eq
  have sorted := (sortSlots_perm opened).length_eq
  rw [List.length_map, List.length_range] at all
  rw [List.length_range] at sorted
  exact (List.length_filter_le _ _).trans (by omega)

end Config.Laid

/-- The numbers of an accepted configuration are the true ones exactly when nothing has wrapped. -/
theorem overflow_free_iff (c : Config) (accepted : c.validate = .ok ()) :
    ∃ t, c.build = .ok t ∧ (c.OverflowFree t ↔ c.Fits) := by
  obtain ⟨flags, t, topology, built⟩ := Config.validate_eq_ok accepted
  have valid := Config.validated_of_flags flags
  have dedicated := (Config.bounds_of_flags flags).2
  refine ⟨t, built, ?_⟩
  obtain ⟨chans, opened, stamped, slots, final, plan, laid, rfl, -⟩ := Config.settled valid topology
  have mixed := laid.length_mixed valid final
  have few := laid.length_mixedSlots_le valid
  have carves : (c.pubChannels + c.consChannels).toInt ≤ (c.mixedSlots opened).length := laid.carves
  have nonneg := Int.mul_nonneg valid.publishers valid.msgs
  have conns := c.conns.toInt_lt
  have channels : (c.channels.toNatClampNeg : ℤ) < 2 ^ 63 := by
    have bound := c.channels.toInt_lt
    rw [Int64.toNatClampNeg]
    omega
  constructor
  · intro free
    refine ⟨by have := free.conns; omega, by have := free.channels; omega, ?_⟩
    by_cases none : c.publishers = 0
    · exact .inl none
    · refine .inr ((Int.le_ediv_iff_mul_le ?_).2 (by have := free.messages.2; rw [mul_comm]; omega))
      exact lt_of_le_of_ne valid.publishers fun zero => none (Int64.toInt.inj (by simpa using zero.symm))
  · intro fits
    have below : c.publishers.toInt * c.msgs.toInt < 2 ^ 63 := by
      rcases fits.messages with none | few
      · rw [none]
        simp
      · by_cases positive : 0 < c.publishers.toInt
        · have most := (Int.le_ediv_iff_mul_le positive).1 few
          rw [mul_comm]
          omega
        · have zero : c.publishers.toInt = 0 := le_antisymm (Int.not_lt.1 positive) valid.publishers
          rw [zero]
          simp
    have product : (c.publishers * c.msgs).toInt = c.publishers.toInt * c.msgs.toInt := by
      rw [Int64.toInt_mul, Int.bmod_eq_of_le (by omega) (by omega)]
    constructor
    · rw [← toInt_add_of_le valid.pubConns valid.consConns fits.conns]
      exact dedicated
    · rw [mixed, ← toInt_add_of_le valid.pubChannels valid.consChannels fits.channels]
      exact carves
    · exact ⟨nonneg, below⟩
    · rw [Job.total, Int64.toNatClampNeg, product, Int.toNat_of_nonneg nonneg]
    · exact product
    · simp only [Config.tagWarning_mem_warnings, exists_eq_left, Int64.lt_iff_toInt_lt, product]
      rfl

/-- The default configuration, with more messages than there are delivery tags. -/
theorem overflow_free_iff_many :
    ∃ t, Config.build { msgs := 65536 } = .ok t ∧ Config.OverflowFree { msgs := 65536 } t := by
  obtain ⟨t, built, free⟩ := overflow_free_iff { msgs := 65536 } (by decide +kernel)
  exact ⟨t, built, free.2 ⟨by decide, by decide, .inr (by decide)⟩⟩

def wrappedTotal : Config := { publishers := 2, msgs := 4611686018427387904 }

def wrappedConns : Config := { pubConns := 9223372036854775807, consConns := 1, consumers := 0 }

def wrappedChannels : Config := { pubChannels := 9223372036854775807, consChannels := 1, consumers := 0 }

/-- All three comparisons accept numbers that have wrapped, and the warning is not given. -/
theorem overflow_accepted :
    (wrappedTotal.validate = .ok () ∧ wrappedTotal.publishers.toInt * wrappedTotal.msgs.toInt = 2 ^ 63 ∧
      (wrappedTotal.publishers * wrappedTotal.msgs).toInt = -2 ^ 63 ∧ wrappedTotal.warnings = []) ∧
    (wrappedConns.validate = .ok () ∧
      wrappedConns.conns.toInt < wrappedConns.pubConns.toInt + wrappedConns.consConns.toInt) ∧
    (wrappedChannels.validate = .ok () ∧ wrappedChannels.build.map (·.mixed.length) = .ok 1 ∧
      1 < wrappedChannels.pubChannels.toInt + wrappedChannels.consChannels.toInt) := by
  decide +kernel

end GolangMQ.Bench
