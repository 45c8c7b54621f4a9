import GolangMQ.Bench.Stats
import GolangMQ.Machine.Slices
import GolangMQ.ToMathlib.OrderStatistics
import Mathlib.Algebra.Order.BigOperators.Group.List
import Mathlib.Algebra.Order.Field.Basic
import Mathlib.Data.List.DropRight
import Mathlib.Data.List.Sort
import Mathlib.Tactic.Linarith
import Mathlib.Tactic.Positivity

/-! # Latency summaries

`latencySet` keeps its samples in a slice: `add` appends to it, `reset` cuts it to nothing and goes on in the same
array, and `summary` sorts a copy unless the samples are sorted already. `StoredSet` is the set as it lies in memory,
and stores the `LatencySet` of the rest of the development. Whatever calls were made, a summary describes the samples
added since the last reset.
-/

namespace GolangMQ.Bench

/-- A call on a `latencySet`; its mutex makes each of them atomic. -/
inductive LatencyCall (F : Type) where
  | add (v : F)
  | reset
  | summary
  | snapshotReset
deriving DecidableEq

namespace LatencyCall

variable {F : Type}

/-- The calls that empty the set. -/
def clears : LatencyCall F → Bool
  | reset | snapshotReset => true
  | add _ | summary => false

def added : LatencyCall F → Option F
  | add v => some v
  | reset | summary | snapshotReset => none

/-- The samples added since the last reset. -/
def sinceReset (calls : List (LatencyCall F)) : List F := (calls.rtakeWhile (!·.clears)).filterMap added

private theorem sinceReset_concat (calls : List (LatencyCall F)) (call : LatencyCall F) :
    sinceReset (calls ++ [call]) = if call.clears then [] else sinceReset calls ++ call.added.toList := by
  cases call <;> simp [sinceReset, clears, added]

end LatencyCall

variable {F : Type} [Field F] [LinearOrder F]

/-- `latencySet` and the memory its samples lie in. -/
structure StoredSet (F : Type) where
  memory : Heap (List F)
  samples : Slice
  count : ℕ
  sum : F
  min : F
  max : F
  has : Bool

def newLatencySet (memory : Heap (List F)) : StoredSet F :=
  let (memory, samples) := memory.make [] 1024
  { memory, samples, count := 0, sum := 0, min := 0, max := 0, has := false }

namespace StoredSet

variable (spare : ℕ → ℕ → ℕ)

def add (s : StoredSet F) (v : F) : StoredSet F :=
  let (memory, samples) := s.memory.append spare s.samples v
  { memory, samples
    count := s.count + 1
    sum := s.sum + v
    min := if !s.has || v < s.min then v else s.min
    max := if !s.has || s.max < v then v else s.max
    has := true }

/-- The slice `sorted` of `summaryLocked`: the samples themselves, or a sorted copy. -/
def sorted (s : StoredSet F) : Heap (List F) × Slice :=
  if 1 < s.samples.len ∧ ¬(s.memory.contents s.samples).Pairwise (· ≤ ·) then
    let (memory, sorted) := s.memory.make (s.memory.contents s.samples) (spare 0 s.samples.len)
    (memory.inPlace sorted (·.insertionSort (· ≤ ·)), sorted)
  else (s.memory, s.samples)

def summaryLocked (s : StoredSet F) : StoredSet F × LatencySummary F :=
  if !s.has then (s, {})
  else
    let (memory, sorted) := s.sorted spare
    ({ s with memory },
      { count := s.count
        min := s.min
        avg := s.sum / s.count
        max := s.max
        p50 := percentile (memory.contents sorted) 50
        p95 := percentile (memory.contents sorted) 95
        p99 := percentile (memory.contents sorted) 99 })

def resetLocked (s : StoredSet F) : StoredSet F :=
  { s with samples := s.samples.cut 0, count := 0, sum := 0, min := 0, max := 0, has := false }

def summary (s : StoredSet F) : StoredSet F × LatencySummary F := s.summaryLocked spare

def reset (s : StoredSet F) : StoredSet F := s.resetLocked

def snapshotReset (s : StoredSet F) : StoredSet F × LatencySummary F :=
  let (s, out) := s.summaryLocked spare
  (s.resetLocked, out)

end StoredSet

/-- The set after one call. -/
def StoredSet.call (spare : ℕ → ℕ → ℕ) (s : StoredSet F) : LatencyCall F → StoredSet F
  | .add v => s.add spare v
  | .reset => s.reset
  | .summary => (s.summary spare).1
  | .snapshotReset => (s.snapshotReset spare).1

/-- The set after the calls, one after the other. -/
def StoredSet.run (spare : ℕ → ℕ → ℕ) (s : StoredSet F) (calls : List (LatencyCall F)) : StoredSet F :=
  calls.foldl (·.call spare) s

/-- The set in memory has the values of `set`, and its slice shows the samples. -/
structure StoredSet.Stores (s : StoredSet F) (set : LatencySet F) : Prop where
  samples : s.memory.Holds s.samples set.samples
  count : s.count = set.count
  sum : s.sum = set.sum
  min : s.min = set.min
  max : s.max = set.max
  has : s.has = set.has

namespace StoredSet.Stores

variable {s : StoredSet F} {set : LatencySet F} (spare : ℕ → ℕ → ℕ)

private theorem new (memory : Heap (List F)) : (newLatencySet memory).Stores {} :=
  ⟨Heap.Holds.make memory [] 1024, rfl, rfl, rfl, rfl, rfl⟩

private theorem add (stores : s.Stores set) (v : F) : (s.add spare v).Stores (set.add v) where
  samples := stores.samples.append spare v
  count := congrArg (· + 1) stores.count
  sum := congrArg (· + v) stores.sum
  min := by simp only [StoredSet.add, LatencySet.add, stores.has, stores.min]
  max := by simp only [StoredSet.add, LatencySet.add, stores.has, stores.max]
  has := rfl

private theorem resetLocked (stores : s.Stores set) : s.resetLocked.Stores {} :=
  ⟨stores.samples.cut (Nat.zero_le _), rfl, rfl, rfl, rfl, rfl⟩

/-- The slice that is sorted is not the one of the set. -/
theorem sorted (stores : s.Stores set) :
    (s.sorted spare).1.Holds s.samples set.samples ∧
      (s.sorted spare).1.contents (s.sorted spare).2 =
        if 1 < set.samples.length ∧ ¬set.samples.Pairwise (· ≤ ·) then set.samples.insertionSort (· ≤ ·)
        else set.samples := by
  have shown := stores.samples.contents_eq
  have measured := stores.samples.measured
  simp only [StoredSet.sorted, shown, measured]
  split
  · have copied := Heap.Holds.make s.memory set.samples (spare 0 set.samples.length)
    refine ⟨(stores.samples.alloc _).inPlace_of_ne (Nat.ne_of_lt stores.samples.allocated) _, ?_⟩
    exact (copied.inPlace_self (List.length_insertionSort _ _)).contents_eq
  · exact ⟨stores.samples, shown⟩

/-- A summary is the one of the set it is taken of, which stays as it is. -/
theorem summaryLocked (stores : s.Stores set) :
    (s.summaryLocked spare).1.Stores set ∧ (s.summaryLocked spare).2 = set.summary := by
  obtain ⟨kept, sorted⟩ := stores.sorted spare
  simp only [StoredSet.summaryLocked, LatencySet.summary, stores.has]
  split
  · exact ⟨stores, rfl⟩
  · refine ⟨⟨kept, stores.count, stores.sum, stores.min, stores.max, rfl⟩, ?_⟩
    simp only [sorted, stores.count, stores.sum, stores.min, stores.max]

end StoredSet.Stores

/-- A set after any calls stores the samples added since the last reset. -/
private theorem StoredSet.exists_stores_run (spare : ℕ → ℕ → ℕ) (memory : Heap (List F))
    (calls : List (LatencyCall F)) :
    ∃ set : LatencySet F, ((newLatencySet memory).run spare calls).Stores set ∧
      set.samples = LatencyCall.sinceReset calls := by
  induction calls using List.reverseRecOn with
  | nil => exact ⟨{}, .new memory, rfl⟩
  | append_singleton calls call ih =>
    obtain ⟨set, stores, samples⟩ := ih
    rw [StoredSet.run, List.foldl_append, LatencyCall.sinceReset_concat, ← samples]
    cases call with
    | add v => exact ⟨set.add v, stores.add spare v, rfl⟩
    | reset => exact ⟨{}, stores.resetLocked, rfl⟩
    | summary => exact ⟨set, (stores.summaryLocked spare).1, (List.append_nil _).symm⟩
    | snapshotReset => exact ⟨{}, (stores.summaryLocked spare).1.resetLocked, rfl⟩

/-- Neither clamp is taken, and the rank is the nearest. -/
private theorem percentile_nearestRank {sorted : List F} {p : ℚ} (ordered : sorted.Pairwise (· ≤ ·))
    (nonempty : sorted ≠ [])
    (positive : 0 < p) (bounded : p ≤ 100) : sorted.NearestRank p (percentile sorted p) := by
  have length := List.length_pos_iff.2 nonempty
  have above : 0 < (p / 100 * sorted.length).ceil := by
    rw [← not_le, Rat.ceil_le_iff, Int.cast_zero, not_le]
    positivity
  have below : (p / 100 * sorted.length).ceil ≤ sorted.length := by
    have part : p / 100 ≤ 1 := by linarith
    rw [Rat.ceil_le_iff]
    simpa using mul_le_mul_of_nonneg_right part (Nat.cast_nonneg (α := ℚ) sorted.length)
  obtain ⟨i, rank⟩ := Int.eq_succ_of_zero_lt above
  have inside : i < sorted.length := by omega
  have entry : percentile sorted p = sorted[i] := by
    simp only [percentile, rank, add_sub_cancel_right, if_neg length.ne']
    rw [if_neg (by omega), if_neg (by omega), Int.toNat_natCast, List.getD_eq_getElem?_getD,
      List.getElem?_eq_getElem inside, Option.getD_some]
  rw [entry]
  exact .of_sorted ordered inside rank

namespace LatencySummary

variable {out out' : LatencySummary F} {samples samples' : List F}

/-- The order statistics and the mean of samples, of which there is at least one. -/
structure Statistics (out : LatencySummary F) (samples : List F) : Prop where
  count : out.count = samples.length
  min : IsLeast {v | v ∈ samples} out.min
  max : IsGreatest {v | v ∈ samples} out.max
  avg : out.avg = samples.sum / samples.length
  p50 : samples.NearestRank 50 out.p50
  p95 : samples.NearestRank 95 out.p95
  p99 : samples.NearestRank 99 out.p99

/-- What a summary of `samples` says; without samples it is all zeros. -/
inductive Describes : LatencySummary F → List F → Prop
  | empty : Describes {} []
  | statistics {out : LatencySummary F} {samples : List F} (stats : out.Statistics samples) : Describes out samples

private theorem Statistics.ne_nil (stats : out.Statistics samples) : samples ≠ [] := List.ne_nil_of_mem stats.min.1

private theorem Statistics.perm (stats : out.Statistics samples) (same : samples.Perm samples') :
    out.Statistics samples' where
  count := stats.count.trans same.length_eq
  min := by simpa only [same.mem_iff] using stats.min
  max := by simpa only [same.mem_iff] using stats.max
  avg := by rw [stats.avg, same.sum_eq, same.length_eq]
  p50 := stats.p50.perm same
  p95 := stats.p95.perm same
  p99 := stats.p99.perm same

private theorem Statistics.unique (stats : out.Statistics samples) (stats' : out'.Statistics samples) : out = out' := by
  have count := stats.count.trans stats'.count.symm
  have min := stats.min.unique stats'.min
  have max := stats.max.unique stats'.max
  have avg := stats.avg.trans stats'.avg.symm
  have p50 := stats.p50.unique stats'.p50
  have p95 := stats.p95.unique stats'.p95
  have p99 := stats.p99.unique stats'.p99
  cases out; cases out'
  simp only [mk.injEq]
  exact ⟨count, min, avg, max, p50, p95, p99⟩

/-- The order of the samples does not matter. -/
theorem Describes.unique (describes : out.Describes samples) (describes' : out'.Describes samples')
    (same : samples.Perm samples') : out = out' := by
  cases describes with
  | empty =>
    cases describes' with
    | empty => rfl
    | statistics stats' => exact absurd same.symm.eq_nil stats'.ne_nil
  | statistics stats =>
    cases describes' with
    | empty => exact absurd same.eq_nil stats.ne_nil
    | statistics stats' => exact (stats.perm same).unique stats'

/-- The values of a summary are in their order. -/
structure Ordered (out : LatencySummary F) : Prop where
  min_le_p50 : out.min ≤ out.p50
  p50_le_p95 : out.p50 ≤ out.p95
  p95_le_p99 : out.p95 ≤ out.p99
  p99_le_max : out.p99 ≤ out.max
  min_le_avg : out.min ≤ out.avg
  avg_le_max : out.avg ≤ out.max

variable [IsStrictOrderedRing F]

private theorem Statistics.ordered (stats : out.Statistics samples) : out.Ordered := by
  have positive : (0 : F) < samples.length := Nat.cast_pos.2 (List.length_pos_iff.2 stats.ne_nil)
  refine ⟨stats.min.2 stats.p50.1.1, stats.p50.mono stats.p95 (by norm_num), stats.p95.mono stats.p99 (by norm_num),
    stats.max.2 stats.p99.1.1, ?_, ?_⟩
  · rw [stats.avg, le_div_iff₀ positive, mul_comm, ← nsmul_eq_mul]
    exact List.card_nsmul_le_sum samples _ fun v listed => stats.min.2 listed
  · rw [stats.avg, div_le_iff₀ positive, mul_comm, ← nsmul_eq_mul]
    exact List.sum_le_card_nsmul samples _ fun v listed => stats.max.2 listed

private theorem Describes.ordered (describes : out.Describes samples) : out.Ordered := by
  cases describes with
  | empty => exact ⟨le_rfl, le_rfl, le_rfl, le_rfl, le_rfl, le_rfl⟩
  | statistics stats => exact stats.ordered

end LatencySummary

namespace LatencySet

private theorem summary_statistics (s : LatencySet F) (some : s.has = true) : s.summary.Statistics s.samples := by
  have nonempty : s.samples ≠ [] := by simpa [s.started] using some
  -- sorted already, or a sorted copy
  obtain ⟨sorted, chosen, same, ordered⟩ : ∃ sorted : List F,
      (if 1 < s.samples.length ∧ ¬s.samples.Pairwise (· ≤ ·) then s.samples.insertionSort (· ≤ ·) else s.samples) =
        sorted ∧ sorted.Perm s.samples ∧ sorted.Pairwise (· ≤ ·) := by
    refine ⟨_, rfl, ?_⟩
    split
    case isTrue => exact ⟨List.perm_insertionSort .., List.pairwise_insertionSort ..⟩
    case isFalse kept =>
      refine ⟨.refl _, ?_⟩
      by_contra unsorted
      have short : ¬1 < s.samples.length := fun long => kept ⟨long, unsorted⟩
      exact unsorted (List.pairwise_iff_getElem.2 fun i j _ _ _ => by omega)
  have rank {p : ℚ} (positive : 0 < p) (bounded : p ≤ 100) : s.samples.NearestRank p (percentile sorted p) :=
    (percentile_nearestRank ordered (mt (fun empty => by simpa [empty] using same) nonempty) positive bounded).perm same
  simp only [summary, some, chosen]
  exact ⟨s.counted, s.least some, s.greatest some, by simp [s.summed, s.counted], rank (by norm_num) (by norm_num),
    rank (by norm_num) (by norm_num), rank (by norm_num) (by norm_num)⟩

private theorem summary_describes (s : LatencySet F) : s.summary.Describes s.samples := by
  cases some : s.has with
  | false =>
    have empty : s.samples = [] := by simpa [some] using s.started
    simp only [summary, some, empty]
    exact .empty
  | true => exact .statistics (s.summary_statistics some)

end LatencySet

/-- After any calls, the summary and the snapshot describe the samples added since the last reset, in whatever order
they were added. The summary leaves the set as it is, and the snapshot leaves no samples. -/
theorem summary_faithful [IsStrictOrderedRing F] (spare : ℕ → ℕ → ℕ) (memory : Heap (List F))
    (calls : List (LatencyCall F)) :
    let s := (newLatencySet memory).run spare calls
    let after := (s.summary spare).1
    let out := (s.summary spare).2
    let cleared := (s.snapshotReset spare).1
    s.memory.contents s.samples = LatencyCall.sinceReset calls ∧
      out.Describes (LatencyCall.sinceReset calls) ∧ out.Ordered ∧
      (∀ spare' memory' calls', (LatencyCall.sinceReset calls).Perm (LatencyCall.sinceReset calls') →
        (((newLatencySet memory').run spare' calls').summary spare').2 = out) ∧
      after = { s with memory := after.memory } ∧
      after.memory.contents after.samples = LatencyCall.sinceReset calls ∧
      (s.snapshotReset spare).2 = out ∧ cleared.memory.contents cleared.samples = [] := by
  obtain ⟨set, stores, samples⟩ := StoredSet.exists_stores_run spare memory calls
  obtain ⟨kept, returned⟩ := stores.summaryLocked spare
  have describes := set.summary_describes
  simp only [StoredSet.summary, StoredSet.snapshotReset, returned, ← samples]
  refine ⟨stores.samples.contents_eq, describes, describes.ordered, ?_, ?_, kept.samples.contents_eq, trivial,
    kept.resetLocked.samples.contents_eq⟩
  · intro spare' memory' calls' same
    obtain ⟨set', stores', samples'⟩ := StoredSet.exists_stores_run spare' memory' calls'
    rw [(stores'.summaryLocked spare').2]
    exact set'.summary_describes.unique describes (samples' ▸ same.symm)
  · simp only [StoredSet.summaryLocked]
    split <;> rfl

/-- The samples before the reset do not count, and the array is the one they were in. -/
theorem summary_faithful_three :
    (⟨3, 1, 2, 3, 2, 3, 3⟩ : LatencySummary ℚ).Describes [3, 1, 2] ∧
      (⟨3, 1, 2, 3, 2, 3, 3⟩ : LatencySummary ℚ).Ordered := by
  obtain ⟨-, describes, ordered, -⟩ := summary_faithful (fun _ _ => 0) (.empty : Heap (List ℚ))
    [.add 7, .snapshotReset, .add 3, .add 1, .summary, .add 2]
  have out : (((newLatencySet (.empty : Heap (List ℚ))).run (fun _ _ => 0)
      [.add 7, .snapshotReset, .add 3, .add 1, .summary, .add 2]).summary fun _ _ => 0).2 = ⟨3, 1, 2, 3, 2, 3, 3⟩ := by
    decide +kernel
  rw [out] at describes ordered
  exact ⟨describes, ordered⟩

end GolangMQ.Bench
