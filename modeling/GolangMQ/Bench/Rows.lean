import GolangMQ.Bench.Stats

/-! # Filling a row

`sampleWindow` reads every window accumulator once and into a field of its own, so that a field is empty until its
reading.
-/

namespace GolangMQ.Bench

variable {F : Type}

/-- The readings that move an accumulator into the row. -/
def Reading.moves : Reading → Bool
  | .swap _ | .snapshot _ => true
  | .loadPublished | .loadConsumed _ => false

/-- The counters of the current window. -/
def Counter.windowed : Counter → Bool
  | .pubW | .delW | .consW | .dupW => true
  | _ => false

/-- The latencies of the current window. -/
def LatencyKey.windowed : LatencyKey → Bool
  | .delLatWin | .ackLatWin | .roleDelWin _ => true
  | _ => false

variable [Field F]

/-- The field of a row that a window counter goes to. -/
def Window.counter (w : Window F) : Counter → ℕ
  | .pubW => w.published
  | .delW => w.delivered
  | .consW => w.consumed
  | .dupW => w.duplicates
  | _ => 0

/-- A reading of the current window whose field in the row is still empty. -/
def Window.Unread (w : Window F) : Reading → Prop
  | .swap c => c.windowed = true ∧ w.counter c = 0
  | .snapshot key => key.windowed = true ∧ (key = .delLatWin → w.delSamples = [])
  | .loadPublished | .loadConsumed _ => True

/-- A row that is being filled: what is still to be read is read once, into an empty field. -/
structure Filling (row : Window F) (left : List Reading) : Prop where
  nodup : (left.filter Reading.moves).Nodup
  unread : ∀ reading ∈ left, row.Unread reading

theorem filling_sampleWindow : Filling ({} : Window F) sampleWindow :=
  ⟨by decide, by simp [sampleWindow, Window.Unread, Window.counter, Counter.windowed, LatencyKey.windowed]⟩

theorem Window.counter_setCounter (w : Window F) (v : ℕ) {c d : Counter} (other : c ≠ d) :
    (w.setCounter v c).counter d = w.counter d := by
  cases c <;> cases d <;> first | rfl | exact absurd rfl other

theorem Window.counter_setCounter_self (w : Window F) (v : ℕ) {c : Counter} (windowed : c.windowed = true) :
    (w.setCounter v c).counter c = v := by
  cases c <;> first | rfl | contradiction

theorem Window.delSamples_setCounter (w : Window F) (v : ℕ) (c : Counter) :
    (w.setCounter v c).delSamples = w.delSamples := by
  cases c <;> rfl

variable [LinearOrder F]

theorem Window.counter_setLatency (w : Window F) (s : LatencySet F) (key : LatencyKey) (c : Counter) :
    (w.setLatency s key).counter c = w.counter c := by
  cases key with
  | roleDelTot key | roleDelWin key => cases key <;> cases c <;> rfl
  | ackLatWin => simp only [setLatency]; split <;> cases c <;> rfl
  | _ => cases c <;> rfl

theorem Window.delSamples_setLatency (w : Window F) (s : LatencySet F) {key : LatencyKey} (other : key ≠ .delLatWin) :
    (w.setLatency s key).delSamples = w.delSamples := by
  cases key with
  | delLatWin => exact absurd rfl other
  | roleDelTot key | roleDelWin key => cases key <;> rfl
  | ackLatWin => simp only [setLatency]; split <;> rfl
  | _ => rfl

/-- A reading goes to its own field. -/
theorem Window.Unread.read {w : Window F} {s : Stats F} {reading other : Reading} (unread : w.Unread other)
    (apart : reading.moves = true → reading ≠ other) : (s.read w reading).2.1.Unread other := by
  have same (w' : Window F) (counter : ∀ c, other = .swap c → w'.counter c = w.counter c)
      (samples : other = .snapshot .delLatWin → w'.delSamples = w.delSamples) : w'.Unread other := by
    cases other with
    | swap c => exact ⟨unread.1, (counter c rfl).trans unread.2⟩
    | snapshot key => exact ⟨unread.1, fun last => (samples (by rw [last])).trans (unread.2 last)⟩
    | _ => trivial
  cases reading with
  | swap c =>
    refine same _ (fun d read => w.counter_setCounter _ fun equal => ?_) fun _ => w.delSamples_setCounter _ _
    exact apart rfl (by rw [equal, read])
  | snapshot key =>
    refine same _ (fun d _ => w.counter_setLatency _ key d) fun read => w.delSamples_setLatency _ fun equal => ?_
    exact apart rfl (by rw [equal, read])
  | loadPublished => exact unread
  | loadConsumed pub =>
    simp only [Stats.read]
    split
    · exact same _ (fun c _ => by cases c <;> rfl) fun _ => rfl
    · exact unread

theorem Filling.read {row : Window F} {s : Stats F} {reading : Reading} {left : List Reading}
    (filling : Filling row (reading :: left)) :
    Filling (s.read row reading).2.1 ((s.read row reading).2.2 ++ left) := by
  obtain ⟨nodup, unread⟩ := filling
  have next : ∀ other ∈ (s.read row reading).2.2, other.moves = false ∧ ∀ w : Window F, w.Unread other := by
    cases reading <;> simp [Stats.read, Reading.moves, Window.Unread]
  constructor
  · have none : (s.read row reading).2.2.filter Reading.moves = [] :=
      List.filter_eq_nil_iff.2 fun other member => by simp [(next other member).1]
    rw [List.filter_append, none, List.nil_append]
    exact nodup.sublist ((List.sublist_cons_self _ _).filter _)
  · intro other member
    rcases List.mem_append.1 member with fresh | old
    · exact (next other fresh).2 _
    · refine (unread other (List.mem_cons_of_mem _ old)).read fun moves equal => ?_
      rw [List.filter_cons_of_pos moves, List.nodup_cons] at nodup
      exact nodup.1 (List.mem_filter.2 ⟨equal ▸ old, moves⟩)

end GolangMQ.Bench
