import Mathlib.Data.List.Induction
import Mathlib.Tactic.Ring

/-! # Big-endian numbers

The last `n` base-256 digits of a number, most significant first, and the number that a list of bytes stands for.
-/

namespace GolangMQ

/-- The last `n` bytes of a number, most significant first. -/
def bigEndian : ℕ → ℕ → List UInt8
  | 0, _ => []
  | n + 1, value => bigEndian n (value / 256) ++ [UInt8.ofNat value]

/-- The number that the bytes stand for, most significant first. -/
def ofBigEndian (bytes : List UInt8) : ℕ := bytes.foldl (fun value byte => value * 256 + byte.toNat) 0

@[simp] theorem length_bigEndian (n value : ℕ) : (bigEndian n value).length = n := by
  induction n generalizing value with
  | zero => rfl
  | succ n ih => simp [bigEndian, ih]

theorem ofBigEndian_lt (bytes : List UInt8) : ofBigEndian bytes < 256 ^ bytes.length := by
  induction bytes using List.reverseRecOn with
  | nil => simp [ofBigEndian]
  | append_singleton bytes last ih =>
    have shifted : ofBigEndian (bytes ++ [last]) = ofBigEndian bytes * 256 + last.toNat := by simp [ofBigEndian]
    have byte := last.toNat_lt
    rw [shifted, List.length_append, List.length_singleton, pow_succ]
    omega

/-- Reading the bytes back gives the number modulo what fits. -/
theorem ofBigEndian_bigEndian (n value : ℕ) : ofBigEndian (bigEndian n value) = value % 256 ^ n := by
  induction n generalizing value with
  | zero => simp [bigEndian, ofBigEndian, Nat.mod_one]
  | succ n ih =>
    have last : ofBigEndian (bigEndian (n + 1) value) =
        ofBigEndian (bigEndian n (value / 256)) * 256 + (UInt8.ofNat value).toNat := by
      simp [bigEndian, ofBigEndian]
    have byte : (UInt8.ofNat value).toNat = value % 256 := UInt8.toNat_ofNat'
    rw [last, ih, byte, pow_succ, mul_comm (256 ^ n), Nat.mod_mul]
    ring

end GolangMQ
