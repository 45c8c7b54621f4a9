import Mathlib.Data.List.Basic
import Mathlib.Data.List.Infix

/-! # Buffered writers

A buffered writer passes on what it is handed, in order, until a write to its destination fails. `BufferedWriter` is
what its users rely on; nothing is asked of a writer after an error. `Bufio.Writer` has the algorithm of Go's
`bufio.Writer`, over a destination that takes any part of any write.
-/

namespace GolangMQ

/-- A writer `W` for destinations `D`: what the destination got through it, what is pending in the buffer, and the two
operations with the errors they return. -/
class BufferedWriter (W : Type*) (D β ε : outParam Type*) where
  newWriter : D → W
  output : W → List β
  pending : W → List β
  writeString : W → List β → W × Option ε
  flush : W → W × Option ε
  output_new (d : D) : output (newWriter d) = []
  pending_new (d : D) : pending (newWriter d) = []
  write_ordered (w : W) (s : List β) :
    output (writeString w s).1 ++ pending (writeString w s).1 <+: output w ++ pending w ++ s
  write_passed (w : W) (s : List β) (ok : (writeString w s).2 = none) :
    output (writeString w s).1 ++ pending (writeString w s).1 = output w ++ pending w ++ s
  flush_ordered (w : W) : output (flush w).1 ++ pending (flush w).1 <+: output w ++ pending w
  flush_passed (w : W) (ok : (flush w).2 = none) :
    output (flush w).1 = output w ++ pending w ∧ pending (flush w).1 = []

namespace Bufio

variable {β ε : Type*}

/-- How a destination answers its writes, one after the other: how much it takes, and its error. By the contract of
`io.Writer` there is one when it takes less than it was given. -/
structure Destination (β ε : Type*) where
  answer : ℕ → List β → ℕ × Option ε
  /-- It is an `io.StringWriter`. -/
  writesStrings : Bool
  contract : ∀ call p, (answer call p).2 = none → p.length ≤ (answer call p).1

/-- `bufio.Writer`; the destination has answered `calls` writes, and got `output`. -/
structure Writer (β ε : Type*) where
  wr : Destination β ε
  calls : ℕ := 0
  output : List β := []
  buf : List β := []
  err : Option ε := none

def defaultBufSize : ℕ := 4096

namespace Writer

def available (b : Writer β ε) : ℕ := defaultBufSize - b.buf.length

/-- `Flush`. What a failed write has left stays in the buffer. -/
def flush (b : Writer β ε) : Writer β ε × Option ε :=
  if b.err.isSome ∨ b.buf = [] then (b, b.err)
  else
    let (n, err) := b.wr.answer b.calls b.buf
    ({ b with calls := b.calls + 1, output := b.output ++ b.buf.take n, buf := b.buf.drop n, err := err }, err)

/-- The write of a string that is too long for the buffer to the destination, and how much it takes. -/
def writeThrough (b : Writer β ε) (s : List β) : Writer β ε × ℕ :=
  let (n, err) := b.wr.answer b.calls s
  ({ b with calls := b.calls + 1, output := b.output ++ s.take n, err := err }, n)

/-- The buffer takes what it has room for, and is flushed. -/
def fill (b : Writer β ε) (s : List β) : Writer β ε :=
  ({ b with buf := b.buf ++ s.take b.available } : Writer β ε).flush.1

theorem flush_of_buffered (b : Writer β ε) (healthy : b.err = none) (buffered : b.buf ≠ []) :
    b.flush =
      ({ b with
          calls := b.calls + 1
          output := b.output ++ b.buf.take (b.wr.answer b.calls b.buf).1
          buf := b.buf.drop (b.wr.answer b.calls b.buf).1
          err := (b.wr.answer b.calls b.buf).2 }, (b.wr.answer b.calls b.buf).2) := by
  simp only [flush]
  rw [if_neg (by simp [healthy, buffered])]

private theorem flush_err (b : Writer β ε) : b.flush.1.err = b.flush.2 := by
  simp only [flush]
  split <;> rfl

private theorem flush_total (b : Writer β ε) : b.flush.1.output ++ b.flush.1.buf = b.output ++ b.buf := by
  simp only [flush]
  split
  · rfl
  · rw [List.append_assoc, List.take_append_drop]

private theorem buf_flush (b : Writer β ε) (ok : b.flush.1.err = none) : b.flush.1.buf = [] := by
  simp only [flush] at ok ⊢
  split at ok
  case isTrue idle =>
    rw [if_pos idle]
    have healthy : b.err = none := ok
    simpa [healthy] using idle
  case isFalse busy =>
    rw [if_neg busy]
    exact List.drop_eq_nil_of_le (b.wr.contract _ _ ok)

private theorem writeThrough_taken (b : Writer β ε) (s : List β) (ok : (b.writeThrough s).1.err = none) :
    s.length ≤ (b.writeThrough s).2 :=
  b.wr.contract _ _ ok

/-- `WriteString`. -/
def writeString (b : Writer β ε) (s : List β) : Writer β ε × Option ε :=
  if b.available < s.length ∧ b.err = none then
    if b.buf = [] ∧ b.wr.writesStrings then
      (b.writeThrough s).1.writeString (s.drop (b.writeThrough s).2)
    else (b.fill s).writeString (s.drop b.available)
  else if b.err.isSome then (b, b.err)
  else ({ b with buf := b.buf ++ s }, none)
-- an error ends the loop; otherwise the string gets shorter, unless the buffer was full and is emptied first
termination_by (if b.err = none then 1 else 0, s.length, b.buf.length)
decreasing_by
  case _ long _ =>
    rw [if_pos long.2]
    by_cases ok : (b.writeThrough s).1.err = none
    · have taken := b.writeThrough_taken s ok
      rw [if_pos ok]
      exact .right _ (.left _ _ (by rw [List.length_drop]; omega))
    · rw [if_neg ok]
      exact .left _ _ Nat.zero_lt_one
  case _ long _ =>
    rw [if_pos long.2]
    by_cases ok : (b.fill s).err = none
    · have emptied : (b.fill s).buf = [] := buf_flush _ ok
      have size : 0 < defaultBufSize := by decide
      rw [if_pos ok, emptied]
      refine .right _ ?_
      by_cases full : b.available = 0
      · rw [full, List.drop_zero]
        exact .right _ (by rw [List.length_nil]; unfold available at full; omega)
      · exact .left _ _ (by rw [List.length_drop]; omega)
    · rw [if_neg ok]
      exact .left _ _ Nat.zero_lt_one

theorem writeString_of_fits (b : Writer β ε) {s : List β} (healthy : b.err = none) (fits : s.length ≤ b.available) :
    b.writeString s = ({ b with buf := b.buf ++ s }, none) := by
  rw [writeString, if_neg fun long => absurd long.1 (Nat.not_lt.2 fits), if_neg (by simp [healthy])]

private theorem fill_total (b : Writer β ε) (s : List β) :
    (b.fill s).output ++ (b.fill s).buf = b.output ++ b.buf ++ s.take b.available := by
  rw [fill, flush_total, List.append_assoc]

private theorem writeThrough_total (b : Writer β ε) (s : List β) (empty : b.buf = []) :
    (b.writeThrough s).1.output ++ (b.writeThrough s).1.buf = b.output ++ b.buf ++ s.take (b.writeThrough s).2 := by
  simp [writeThrough, empty]

/-- The destination and the buffer have the first part of what was handed over, and all of it without an error. -/
private theorem writeString_total (b : Writer β ε) (s : List β) :
    ∃ left, (b.writeString s).1.output ++ (b.writeString s).1.buf ++ left = b.output ++ b.buf ++ s ∧
      ((b.writeString s).2 = none → left = []) := by
  fun_induction writeString b s with
  | case1 b s _ direct ih =>
    rw [b.writeThrough_total s direct.1, List.append_assoc _ (s.take _), List.take_append_drop] at ih
    exact ih
  | case2 b s _ _ ih =>
    rw [fill_total, List.append_assoc _ (s.take _), List.take_append_drop] at ih
    exact ih
  | case3 b s _ failed =>
    refine ⟨s, rfl, fun ok => ?_⟩
    have healthy : b.err = none := ok
    simp [healthy] at failed
  | case4 b s => exact ⟨[], by rw [List.append_nil, List.append_assoc], fun _ => rfl⟩

instance : BufferedWriter (Writer β ε) (Destination β ε) β ε where
  newWriter wr := { wr }
  output := output
  pending := buf
  writeString := writeString
  flush := flush
  output_new _ := rfl
  pending_new _ := rfl
  write_ordered b s := by
    obtain ⟨left, total, -⟩ := b.writeString_total s
    exact ⟨left, total⟩
  write_passed b s ok := by
    obtain ⟨left, total, passed⟩ := b.writeString_total s
    rwa [passed ok, List.append_nil] at total
  flush_ordered b := by rw [flush_total]
  flush_passed b ok := by
    have emptied := b.buf_flush (b.flush_err.trans ok)
    have total := b.flush_total
    rw [emptied, List.append_nil] at total
    exact ⟨total, emptied⟩

end Writer

end Bufio

end GolangMQ
