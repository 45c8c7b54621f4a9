import Mathlib.Data.Nat.Init
import Mathlib.Data.Set.Function
import Mathlib.Order.Interval.Set.Defs

/-! # Numerals and separators

The numeral of a number in some base and some digits determines the number. In a text of two parts, the last separator
tells them apart when the second one has none.
-/

namespace GolangMQ

/-- The digits of a number, most significant first; zero has one digit. -/
def numeral {α : Type*} (digit : ℕ → α) (base : ℕ) [base.AtLeastTwo] (n : ℕ) : List α :=
  if n < base then [digit n] else numeral digit base (n / base) ++ [digit (n % base)]
termination_by n
decreasing_by
  have := Nat.AtLeastTwo.prop (n := base)
  exact Nat.div_lt_self (by omega) (by omega)

section Numerals

variable {α : Type*} {digit : ℕ → α} {base : ℕ} [base.AtLeastTwo]

private theorem numeral_of_lt {n : ℕ} (short : n < base) :
    numeral digit base n = [digit n] := by
  rw [numeral, if_pos short]

private theorem numeral_of_not_lt {n : ℕ} (long : ¬n < base) :
    numeral digit base n = numeral digit base (n / base) ++ [digit (n % base)] := by
  rw [numeral, if_neg long]

private theorem numeral_ne_nil (n : ℕ) : numeral digit base n ≠ [] := by
  rw [numeral]
  split <;> simp

theorem exists_of_mem_numeral {n : ℕ} {c : α} (member : c ∈ numeral digit base n) : ∃ d < base, digit d = c := by
  fun_induction numeral digit base n with
  | case1 n small => exact ⟨n, small, (List.mem_singleton.1 member).symm⟩
  | case2 n _ ih =>
    rcases List.mem_append.1 member with earlier | last
    · exact ih earlier
    · have := Nat.AtLeastTwo.prop (n := base)
      exact ⟨n % base, Nat.mod_lt _ (by omega), (List.mem_singleton.1 last).symm⟩

/-- A single digit is no longer numeral: what precedes the last digit of that is not empty. -/
private theorem numeral_ne_of_lt {small large : ℕ} (short : small < base) (long : ¬large < base) :
    numeral digit base small ≠ numeral digit base large := by
  rw [numeral_of_lt short, numeral_of_not_lt long]
  intro same
  have alone : numeral digit base (large / base) ++ [digit (large % base)] = [] ++ [digit small] := same.symm
  exact numeral_ne_nil _ (List.append_inj_left' alone rfl)

theorem numeral_injective (injective : Set.InjOn digit (Set.Iio base)) : (numeral digit base).Injective := by
  have positive : 0 < base := Nat.lt_of_lt_of_le Nat.zero_lt_two Nat.AtLeastTwo.prop
  intro n
  induction n using Nat.strongRecOn with
  | ind n ih =>
    intro m same
    by_cases short : n < base <;> by_cases short' : m < base
    · rw [numeral_of_lt short, numeral_of_lt short'] at same
      exact injective short short' (List.singleton_inj.1 same)
    · exact absurd same (numeral_ne_of_lt short short')
    · exact absurd same.symm (numeral_ne_of_lt short' short)
    · rw [numeral_of_not_lt short, numeral_of_not_lt short'] at same
      have first : n / base = m / base :=
        ih _ (Nat.div_lt_self (by omega) Nat.AtLeastTwo.prop) (List.append_inj_left' same rfl)
      have last : n % base = m % base :=
        injective (Nat.mod_lt _ positive) (Nat.mod_lt _ positive)
          (List.singleton_inj.1 (List.append_inj_right' same rfl))
      rw [← Nat.div_add_mod n base, ← Nat.div_add_mod m base, first, last]

end Numerals

/-- The last separator separates. -/
theorem append_separator_inj {α : Type*} {first first' second second' : List α} {separator : α}
    (absent : separator ∉ second) (absent' : separator ∉ second')
    (same : first ++ separator :: second = first' ++ separator :: second') : first = first' ∧ second = second' := by
  rcases List.append_eq_append_iff.1 same with ⟨between, rfl, rest⟩ | ⟨between, rfl, rest⟩
  · cases between with
    | nil => exact ⟨(List.append_nil _).symm, (List.cons.inj rest).2⟩
    | cons c between => exact absurd (by simp [(List.cons.inj rest).2]) absent
  · cases between with
    | nil => exact ⟨List.append_nil _, (List.cons.inj rest).2.symm⟩
    | cons c between => exact absurd (by simp [(List.cons.inj rest).2]) absent'

end GolangMQ
