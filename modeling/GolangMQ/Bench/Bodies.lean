import GolangMQ.Bench.Engine
import Mathlib.Algebra.Field.Rat
import Mathlib.Algebra.Order.Ring.Unbundled.Rat

/-! # Deliveries with any body

A consumer derives an index from the first eight bytes of a body, whatever they are. The conversion to `int` makes
the upper half of the numbers negative; all but the first of them pass the check against the length of the array, and
`sentTimes` is then indexed below zero.
-/

namespace GolangMQ.Bench

variable {F : Type} [Field F] {sentTimes : List Int64} {seen : List Bool} {seq : UInt64} {body : List UInt8}
  {recvNanos : Int64}

/-- The sequence number that a body carries. -/
private theorem toNat_decodeHeader (long : headerLen ≤ body.length) :
    (decodeHeader body).1.toNat = ofBigEndian (body.take 8) := by
  have fits := ofBigEndian_lt (body.take 8)
  rw [List.length_take_of_le (by simp only [headerLen] at long; omega)] at fits
  rw [decodeHeader, if_neg (Nat.not_lt.2 long)]
  exact UInt64.toNat_ofNat_of_lt' fits

/-- The worker gets through a delivery: it rejects the index, or the index is one of both arrays. -/
def Harmless (F : Type) [Field F] (sentTimes : List Int64) (seen : List Bool) (body : List UInt8) (recvNanos : Int64) :
    Prop :=
  ∃ (idx : Int64) (delLatUs : F), locate F sentTimes (decodeHeader body).1 recvNanos = some (idx, delLatUs) ∧
    (idx = -1 ∨ 0 ≤ idx.toInt ∧ idx.toInt < sentTimes.length ∧ idx.toInt < seen.length)

/-- A sequence number up to `2^63` is rejected or an index. -/
private theorem harmless_of_le (size : sentTimes.length < 2 ^ 63) (common : seen.length = sentTimes.length)
    (small : (decodeHeader body).1.toNat ≤ 2 ^ 63) : Harmless F sentTimes seen body recvNanos := by
  have index := toInt_index (decodeHeader body).1
  unfold Harmless
  generalize (decodeHeader body).1 = seq at small index ⊢
  by_cases covered : 0 < seq ∧ seq.toInt64 - 1 < Int64.ofNat sentTimes.length
  · have positive : 0 < seq.toNat := UInt64.lt_iff_toNat_lt.1 covered.1
    rw [if_pos ⟨small, positive⟩] at index
    have below := Int64.lt_iff_toInt_lt.1 covered.2
    rw [Int64.toInt_ofNat_of_lt size] at below
    have nonneg : ¬seq.toInt64 - 1 < 0 := by
      rw [Int64.lt_iff_toInt_lt, index, Int64.toInt_zero]
      omega
    have inside : (seq.toInt64 - 1).toNatClampNeg < sentTimes.length := by
      rw [Int64.toNatClampNeg]
      omega
    simp only [locate, if_pos covered, if_neg nonneg, List.getElem?_eq_getElem inside, Option.map_some]
    exact ⟨_, _, rfl, .inr ⟨by omega, below, by omega⟩⟩
  · simp only [locate, if_neg covered]
    exact ⟨-1, 0, rfl, .inl rfl⟩

/-- Any larger one is a negative index that passes the check. -/
private theorem locate_of_lt (size : sentTimes.length < 2 ^ 63) (large : 2 ^ 63 < seq.toNat) :
    locate F sentTimes seq recvNanos = none := by
  have bound := seq.toNat_lt
  have index := toInt_index seq
  rw [if_neg (by omega), if_neg (by omega)] at index
  have negative : seq.toInt64 - 1 < 0 := by
    rw [Int64.lt_iff_toInt_lt, index, Int64.toInt_zero]
    omega
  have covered : 0 < seq ∧ seq.toInt64 - 1 < Int64.ofNat sentTimes.length := by
    rw [UInt64.lt_iff_toNat_lt, Int64.lt_iff_toInt_lt, index, Int64.toInt_ofNat_of_lt size, UInt64.toNat_zero]
    omega
  simp only [locate, if_pos covered, if_pos negative]

/-- A worker gets through a delivery exactly when the body has no header or its number is at most `2^63`. -/
theorem harmless_iff (F : Type) [Field F] (sentTimes : List Int64) (seen : List Bool) (body : List UInt8)
    (recvNanos : Int64) (size : sentTimes.length < 2 ^ 63) (common : seen.length = sentTimes.length) :
    Harmless F sentTimes seen body recvNanos ↔ body.length < headerLen ∨ ofBigEndian (body.take 8) ≤ 2 ^ 63 := by
  by_cases short : body.length < headerLen
  · have zero : (decodeHeader body).1 = 0 := by rw [decodeHeader, if_pos short]
    exact iff_of_true (harmless_of_le size common (by simp [zero])) (.inl short)
  · have number := toNat_decodeHeader (Nat.not_lt.1 short)
    rw [or_iff_right short, ← number]
    refine ⟨fun harmless => ?_, harmless_of_le size common⟩
    obtain ⟨idx, delLatUs, found, -⟩ := harmless
    by_contra large
    rw [locate_of_lt size (Nat.not_le.1 large)] at found
    contradiction

/-- A body whose header starts with these eight bytes. -/
def headed (number : List UInt8) : List UInt8 := number ++ List.replicate 8 0

/-- The largest number that is converted to a negative `int` and still rejected. -/
theorem harmless_iff_rejected : Harmless ℚ [0] [false] (headed [128, 0, 0, 0, 0, 0, 0, 0]) 0 :=
  (harmless_iff ℚ [0] [false] _ 0 (by decide) rfl).2 (.inr (by decide))

/-- The next one becomes the index `-2^63`. -/
theorem index_below_zero :
    let seq := (decodeHeader (headed [128, 0, 0, 0, 0, 0, 0, 1])).1
    0 < seq ∧ seq.toInt64 - 1 < Int64.ofNat 1 ∧ (seq.toInt64 - 1).toInt = -2 ^ 63 ∧ locate ℚ [0] seq 0 = none ∧
      ¬Harmless ℚ [0] [false] (headed [128, 0, 0, 0, 0, 0, 0, 1]) 0 := by
  intro seq
  have panics : locate ℚ [0] seq 0 = none := by decide +kernel
  refine ⟨by decide, by decide, by decide, panics, fun ⟨idx, delLatUs, found, _⟩ => ?_⟩
  cases panics.symm.trans found

end GolangMQ.Bench
