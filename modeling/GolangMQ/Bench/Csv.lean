import GolangMQ.Bench.Stats
import GolangMQ.Machine.Bufio

/-! # The CSV rows

`csvWriter` hands its header and its rows to a buffered writer, and keeps the first error that it returns: every later
call returns that error and hands over nothing. A failure can show at any write or flush, or only when `close` flushes
the buffer, so that an error of the destination reaches the result of `close` whatever the caller does with the
results before it.
-/

namespace GolangMQ.Bench

/-- `csvColumns`. -/
def csvColumns : List String :=
  ["ts_start_rfc3339", "window_ms", "published", "delivered", "consumed", "pub_rate_per_s", "delivered_rate_per_s",
    "consumed_rate_per_s", "avg_delivery_lat_us", "min_delivery_lat_us", "max_delivery_lat_us", "p50_delivery_lat_us",
    "p95_delivery_lat_us", "p99_delivery_lat_us", "avg_ack_lat_us", "duplicates", "drops_cumulative",
    "both_lat_p95_us", "cons_lat_p95_us"]

/-- The bytes of a line with these fields. -/
@[irreducible] def csvLine (fields : List String) : List UInt8 :=
  (",".intercalate fields ++ "\n").toByteArray.data.toList

section Rows

variable {T F : Type} [Field F] [LinearOrder F]

/-- `intervalRecord`. -/
structure IntervalRecord (T F : Type) [Zero F] extends Window F where
  tsStart : T
  windowMs : F

/-- How times and numbers are printed: `Format` with the layout of RFC 3339, and `FormatFloat` with a number of
decimals. -/
structure Formats (T F : Type) where
  time : T → String
  float : F → ℕ → String

/-- `perSec`. -/
def perSec (n : ℕ) (windowMs : F) : F := if windowMs ≤ 0 then 0 else n / (windowMs / (1000 : ℕ))

/-- The fields of `writeInterval`. -/
def IntervalRecord.row (fmt : Formats T F) (r : IntervalRecord T F) : List String :=
  [fmt.time r.tsStart,
    fmt.float r.windowMs 1,
    toString r.published,
    toString r.delivered,
    toString r.consumed,
    fmt.float (perSec r.published r.windowMs) 2,
    fmt.float (perSec r.delivered r.windowMs) 2,
    fmt.float (perSec r.consumed r.windowMs) 2,
    fmt.float r.delLat.avg 2,
    fmt.float r.delLat.min 2,
    fmt.float r.delLat.max 2,
    fmt.float r.delLat.p50 2,
    fmt.float r.delLat.p95 2,
    fmt.float r.delLat.p99 2,
    fmt.float r.ackAvgUs 2,
    toString r.duplicates,
    toString r.drops,
    fmt.float r.bothP95Us 2,
    fmt.float r.consP95Us 2]

end Rows

variable {W D ε : Type} [BufferedWriter W D UInt8 ε]

/-- `csvWriter`. `close` sets the pointer `w` to nil; the buffered writer it pointed to is `bufio`. -/
structure CsvWriter (W ε : Type) where
  bufio : W
  w : Bool := true
  n : ℕ := 0
  err : Option ε := none

namespace CsvWriter

/-- What the calls have in common: after an error that error is returned again, and the error of an operation on the
buffered writer is kept. Without an error, a nil pointer is a panic. -/
def guarded (c : CsvWriter W ε) (op : W → W × Option ε) (rows : ℕ) : Option (CsvWriter W ε × Option ε) :=
  if c.err.isSome then some (c, c.err)
  else if !c.w then none
  else
    let (bufio, err) := op c.bufio
    if err.isSome then some ({ c with bufio, err }, err) else some ({ c with bufio, n := c.n + rows }, none)

def writeHeader (c : CsvWriter W ε) : Option (CsvWriter W ε × Option ε) :=
  c.guarded (BufferedWriter.writeString · (csvLine csvColumns)) 0

def writeInterval {T F : Type} [Field F] [LinearOrder F] (fmt : Formats T F) (c : CsvWriter W ε)
    (r : IntervalRecord T F) : Option (CsvWriter W ε × Option ε) :=
  c.guarded (BufferedWriter.writeString · (csvLine (r.row fmt))) 1

def flush (c : CsvWriter W ε) : Option (CsvWriter W ε × Option ε) := c.guarded BufferedWriter.flush 0

def close (c : CsvWriter W ε) : CsvWriter W ε × Option ε :=
  if !c.w then (c, c.err)
  else if c.err.isSome then ({ c with w := false }, c.err)
  else
    let (bufio, err) := BufferedWriter.flush c.bufio
    ({ c with bufio, err, w := false }, err)

end CsvWriter

/-- `newCSVWriter`. -/
def newCSVWriter (dst : D) : Option (Except ε (CsvWriter W ε)) := do
  let (cw, err) ← CsvWriter.writeHeader (W := W) { bufio := BufferedWriter.newWriter dst }
  if let some err := err then return .error err
  let (cw, err) ← cw.flush
  if let some err := err then return .error err
  return .ok cw

/-- A call of the sampler. -/
inductive CsvCall (T F : Type) [Zero F] where
  | writeInterval (r : IntervalRecord T F)
  | flush

namespace CsvCall

variable {T F : Type} [Field F] [LinearOrder F] (fmt : Formats T F)

def record : CsvCall T F → Option (IntervalRecord T F)
  | writeInterval r => some r
  | flush => none

/-- One row for each `writeInterval`, in the order of the calls. -/
def rows (calls : List (CsvCall T F)) : List UInt8 :=
  (calls.filterMap record).flatMap fun r => csvLine (r.row fmt)

private theorem rows_append (calls calls' : List (CsvCall T F)) :
    rows fmt (calls ++ calls') = rows fmt calls ++ rows fmt calls' := by
  simp [rows]

end CsvCall

namespace CsvWriter

variable {T F : Type} [Field F] [LinearOrder F] (fmt : Formats T F) {c c' : CsvWriter W ε} {handed line : List UInt8}

def call (c : CsvWriter W ε) : CsvCall T F → Option (CsvWriter W ε × Option ε)
  | .writeInterval r => c.writeInterval fmt r
  | .flush => c.flush

/-- The calls one after the other, with what each returns. -/
def run (c : CsvWriter W ε) : List (CsvCall T F) → Option (CsvWriter W ε × List (Option ε))
  | [] => some (c, [])
  | call :: calls => do
    let (c, result) ← c.call fmt call
    let (c, results) ← c.run calls
    return (c, result :: results)

/-- What the destination has got. -/
def output (c : CsvWriter W ε) : List UInt8 := BufferedWriter.output c.bufio

/-- What the destination has got or is still to get. -/
def accepted (c : CsvWriter W ε) : List UInt8 := c.output ++ BufferedWriter.pending c.bufio

/-- The writer is open, and has `handed` over what it was given, except after an error. -/
structure Consistent (c : CsvWriter W ε) (handed : List UInt8) : Prop where
  opened : c.w = true
  ordered : c.accepted <+: handed
  complete : c.err = none → c.accepted = handed

private theorem Consistent.new (dst : D) :
    Consistent ({ bufio := BufferedWriter.newWriter dst } : CsvWriter W ε) [] := by
  have empty : ({ bufio := BufferedWriter.newWriter dst } : CsvWriter W ε).accepted = [] := by
    simp [accepted, output, BufferedWriter.output_new, BufferedWriter.pending_new]
  exact ⟨rfl, empty ▸ List.prefix_rfl, fun _ => empty⟩

/-- The first error is kept: the writer hands nothing over, and returns the error again. -/
private theorem guarded_of_err {e : ε} (failed : c.err = some e) (op : W → W × Option ε) (rows : ℕ) :
    c.guarded op rows = some (c, some e) := by
  simp [guarded, failed]

private theorem call_of_err {e : ε} (failed : c.err = some e) (call : CsvCall T F) :
    c.call fmt call = some (c, some e) := by
  cases call with
  | writeInterval r => rw [CsvWriter.call, writeInterval, guarded_of_err failed]
  | flush => rw [CsvWriter.call, flush, guarded_of_err failed]

private theorem guarded_of_ok {op : W → W × Option ε} {bufio : W} (healthy : c.err = none) (opened : c.w = true)
    (passed : op c.bufio = (bufio, none)) (rows : ℕ) :
    c.guarded op rows = some ({ c with bufio, n := c.n + rows }, none) := by
  simp [guarded, healthy, opened, passed]

private theorem guarded_of_fail {op : W → W × Option ε} {bufio : W} {e : ε} (healthy : c.err = none)
    (opened : c.w = true)
    (failed : op c.bufio = (bufio, some e)) (rows : ℕ) :
    c.guarded op rows = some ({ c with bufio, err := some e }, some e) := by
  simp [guarded, healthy, opened, failed]

/-- An operation that hands over `line` does so, or its error is kept. -/
theorem Consistent.guarded (consistent : c.Consistent handed) (op : W → W × Option ε) (rows : ℕ)
    (ordered : ∀ w, BufferedWriter.output (op w).1 ++ BufferedWriter.pending (op w).1 <+:
      BufferedWriter.output w ++ BufferedWriter.pending w ++ line)
    (passed : ∀ w, (op w).2 = none → BufferedWriter.output (op w).1 ++ BufferedWriter.pending (op w).1 =
      BufferedWriter.output w ++ BufferedWriter.pending w ++ line) :
    ∃ c', c.guarded op rows = some (c', c'.err) ∧ c'.Consistent (handed ++ line) := by
  cases before : c.err with
  | some e =>
    refine ⟨c, by rw [guarded_of_err before, before], consistent.opened,
      consistent.ordered.trans (List.prefix_append ..), fun healthy => ?_⟩
    simp [before] at healthy
  | none =>
    have start : BufferedWriter.output c.bufio ++ BufferedWriter.pending c.bufio = handed := consistent.complete before
    have ordered := start ▸ ordered c.bufio
    have passed := start ▸ passed c.bufio
    rcases result : op c.bufio with ⟨bufio, e | e⟩
    · rw [result] at ordered passed
      refine ⟨{ c with bufio, n := c.n + rows }, ?_, consistent.opened, ordered, fun _ => passed rfl⟩
      simp only [guarded_of_ok before consistent.opened result, before]
    · rw [result] at ordered
      exact ⟨_, guarded_of_fail before consistent.opened result rows, consistent.opened, ordered, nofun⟩

private theorem Consistent.flush (consistent : c.Consistent handed) :
    ∃ c', c.flush = some (c', c'.err) ∧ c'.Consistent handed := by
  obtain ⟨c', flushed, consistent⟩ : ∃ c', c.flush = some (c', c'.err) ∧ c'.Consistent (handed ++ []) := by
    refine consistent.guarded BufferedWriter.flush 0 (fun w => ?_) (fun w ok => ?_)
    · rw [List.append_nil]
      exact BufferedWriter.flush_ordered w
    · obtain ⟨written, emptied⟩ := BufferedWriter.flush_passed w ok
      rw [written, emptied]
  rw [List.append_nil] at consistent
  exact ⟨c', flushed, consistent⟩

private theorem Consistent.writeInterval (consistent : c.Consistent handed) (r : IntervalRecord T F) :
    ∃ c', c.writeInterval fmt r = some (c', c'.err) ∧ c'.Consistent (handed ++ csvLine (r.row fmt)) :=
  consistent.guarded _ 1 (BufferedWriter.write_ordered · _) (BufferedWriter.write_passed · _)

private theorem Consistent.call (consistent : c.Consistent handed) (call : CsvCall T F) :
    ∃ c', c.call fmt call = some (c', c'.err) ∧ c'.Consistent (handed ++ CsvCall.rows fmt [call]) := by
  cases call with
  | writeInterval r =>
    have line : CsvCall.rows fmt [.writeInterval r] = csvLine (r.row fmt) := by simp [CsvCall.rows, CsvCall.record]
    rw [line]
    exact consistent.writeInterval fmt r
  | flush =>
    have line : CsvCall.rows fmt [.flush] = [] := by simp [CsvCall.rows, CsvCall.record]
    rw [line, List.append_nil]
    exact consistent.flush

private theorem run_cons {result : Option ε} {call : CsvCall T F} (called : c.call fmt call = some (c', result))
    (calls : List (CsvCall T F)) :
    c.run fmt (call :: calls) = (c'.run fmt calls).map fun ran => (ran.1, result :: ran.2) := by
  simp only [run, called, Option.bind_eq_bind, Option.bind_some]
  cases c'.run fmt calls <;> rfl

/-- Calls on an open writer return, and leave it consistent. -/
theorem Consistent.run (consistent : c.Consistent handed) (calls : List (CsvCall T F)) :
    ∃ c' results, c.run fmt calls = some (c', results) ∧ results.length = calls.length ∧
      c'.Consistent (handed ++ CsvCall.rows fmt calls) := by
  induction calls generalizing c handed with
  | nil => exact ⟨c, [], rfl, rfl, by simpa [CsvCall.rows] using consistent⟩
  | cons call calls ih =>
    obtain ⟨next, called, consistent⟩ := consistent.call fmt call
    obtain ⟨last, results, ran, length, consistent⟩ := ih consistent
    refine ⟨last, next.err :: results, by simp [run_cons fmt called, ran], by simp [length], ?_⟩
    rw [List.append_assoc, ← CsvCall.rows_append] at consistent
    exact consistent

/-- After an error nothing changes. -/
private theorem run_of_err {e : ε} (failed : c.err = some e) (calls : List (CsvCall T F)) :
    c.run fmt calls = some (c, List.replicate calls.length (some e)) := by
  induction calls with
  | nil => rfl
  | cons call calls ih => simp [run, call_of_err fmt failed, ih, List.replicate_succ]

/-- The calls after one that failed return its error and do nothing. -/
theorem Consistent.run_failed (consistent : c.Consistent handed) {calls : List (CsvCall T F)}
    {results : List (Option ε)} (ran : c.run fmt calls = some (c', results)) {i : ℕ} {e : ε}
    (failed : results[i]? = some (some e)) :
    c'.err = some e ∧ (∀ j, i ≤ j → j < calls.length → results[j]? = some (some e)) ∧
      c.run fmt (calls.take (i + 1)) = some (c', results.take (i + 1)) := by
  induction calls generalizing c handed results i with
  | nil =>
    cases ran
    simp at failed
  | cons call calls ih =>
    obtain ⟨next, called, consistent⟩ := consistent.call fmt call
    obtain ⟨last, rest, ran', -, -⟩ := consistent.run fmt calls
    obtain ⟨rfl, rfl⟩ : last = c' ∧ next.err :: rest = results := by
      simpa [run_cons fmt called, ran'] using ran
    cases i with
    | zero =>
      have kept : next.err = some e := by simpa using failed
      rw [run_of_err fmt kept] at ran'
      obtain ⟨rfl, rfl⟩ : next = last ∧ List.replicate calls.length (some e) = rest := by simpa using ran'
      refine ⟨kept, fun j _ inside => ?_, by simp [run_cons fmt called, CsvWriter.run]⟩
      rw [kept, ← List.replicate_succ]
      exact List.getElem?_replicate_of_lt inside
    | succ i =>
      obtain ⟨kept, later, before⟩ := ih consistent ran' (by simpa using failed)
      refine ⟨kept, fun j after inside => ?_, by simp [run_cons fmt called, before]⟩
      cases j with
      | zero => omega
      | succ j => simpa using later j (by omega) (by simpa using inside)

private theorem close_of_err {e : ε} (opened : c.w = true) (failed : c.err = some e) :
    c.close = ({ c with w := false }, some e) := by
  simp [close, opened, failed]

/-- The last flush passes on all that was handed over, or its error is returned. -/
theorem Consistent.close (consistent : c.Consistent handed) :
    c.close.1.output <+: handed ∧ (c.close.2 = none → c.close.1.output = handed) := by
  cases before : c.err with
  | some e =>
    rw [close_of_err consistent.opened before]
    exact ⟨(List.prefix_append ..).trans consistent.ordered, nofun⟩
  | none =>
    have start : BufferedWriter.output c.bufio ++ BufferedWriter.pending c.bufio = handed := consistent.complete before
    have closed : c.close = (⟨(BufferedWriter.flush c.bufio).1, false, c.n, (BufferedWriter.flush c.bufio).2⟩,
        (BufferedWriter.flush c.bufio).2) := by
      simp [CsvWriter.close, consistent.opened, before]
    rw [closed, ← start]
    exact ⟨(List.prefix_append ..).trans (BufferedWriter.flush_ordered c.bufio),
      fun ok => (BufferedWriter.flush_passed c.bufio ok).1⟩

end CsvWriter

/-- An opened writer has handed over the header. -/
private theorem consistent_of_new {dst : D} {c : CsvWriter W ε} (opened : newCSVWriter dst = some (.ok c)) :
    c.Consistent (csvLine csvColumns) := by
  obtain ⟨written, headed, consistent⟩ := (CsvWriter.Consistent.new (W := W) dst).guarded
    (BufferedWriter.writeString · (csvLine csvColumns)) 0 (BufferedWriter.write_ordered · _)
    (BufferedWriter.write_passed · _)
  obtain ⟨flushed, passed, consistent⟩ := consistent.flush
  cases first : written.err with
  | some e => simp [newCSVWriter, CsvWriter.writeHeader, headed, first] at opened
  | none =>
    cases second : flushed.err with
    | some e => simp [newCSVWriter, CsvWriter.writeHeader, headed, first, passed, second] at opened
    | none =>
      obtain rfl : flushed = c := by
        simpa [newCSVWriter, CsvWriter.writeHeader, headed, first, passed, second] using opened
      exact consistent

/-- A writer that has been opened returns from all its calls. Once a call fails, the later calls and `close` return
its error, and the destination gets nothing more; when `close` returns no error, the destination has got the header
and one row for each `writeInterval`. -/
theorem csv_errors_reported {T F : Type} [Field F] [LinearOrder F] (fmt : Formats T F) (dst : D) {c : CsvWriter W ε}
    (opened : newCSVWriter dst = some (.ok c)) (calls : List (CsvCall T F)) :
    ∃ c' results, c.run fmt calls = some (c', results) ∧ results.length = calls.length ∧
      (∀ i e, results[i]? = some (some e) →
        (∀ j, i ≤ j → j < calls.length → results[j]? = some (some e)) ∧ c'.close.2 = some e ∧
          ∃ before, c.run fmt (calls.take (i + 1)) = some (before, results.take (i + 1)) ∧
            c'.close.1.output = before.output) ∧
      c'.close.1.output <+: csvLine csvColumns ++ CsvCall.rows fmt calls ∧
      (c'.close.2 = none → c'.close.1.output = csvLine csvColumns ++ CsvCall.rows fmt calls) := by
  have start := consistent_of_new opened
  obtain ⟨c', results, ran, length, consistent⟩ := start.run fmt calls
  refine ⟨c', results, ran, length, fun i e failed => ?_, consistent.close⟩
  obtain ⟨kept, later, before⟩ := start.run_failed fmt ran failed
  rw [CsvWriter.close_of_err consistent.opened kept]
  exact ⟨later, rfl, c', before, rfl⟩

/-- Whole numbers with their decimals. -/
def wholeFormats : Formats String ℚ :=
  ⟨id, fun x decimals => toString x.num ++ "." ++ String.ofList (List.replicate decimals '0')⟩

/-- Two seconds in which no two numbers are the same. -/
def busySeconds : IntervalRecord String ℚ where
  tsStart := "2006-01-02T15:04:05Z"
  windowMs := 2000
  published := 40
  delivered := 60
  consumed := 50
  duplicates := 3
  drops := 7
  delLat := { count := 60, min := 11, avg := 12, max := 16, p50 := 13, p95 := 14, p99 := 15 }
  ackAvgUs := 17
  bothP95Us := 18
  consP95Us := 19

example : busySeconds.row wholeFormats =
    ["2006-01-02T15:04:05Z", "2000.0", "40", "60", "50", "20.00", "30.00", "25.00", "12.00", "11.00", "16.00", "13.00",
      "14.00", "15.00", "17.00", "3", "7", "18.00", "19.00"] := by
  decide +kernel

/-- A destination that has room for the header only. -/
def fullAfterHeader : Bufio.Destination UInt8 String where
  answer call p := if call = 0 then (p.length, none) else (0, some "no space left on device")
  writesStrings := true
  contract call p ok := by
    by_cases first : call = 0
    · simp [first]
    · simp [first] at ok

def plainFormats : Formats Unit ℚ := ⟨fun _ => "2006-01-02T15:04:05Z", fun _ _ => "0.00"⟩

/-- A second without messages. -/
def idleSecond : IntervalRecord Unit ℚ := { tsStart := (), windowMs := 1000 }

/-- The writer when the header has been flushed. -/
def headerWritten : CsvWriter (Bufio.Writer UInt8 String) String :=
  { bufio := { wr := fullAfterHeader, calls := 1, output := csvLine csvColumns } }

private theorem newCSVWriter_full : newCSVWriter fullAfterHeader = some (.ok headerWritten) := by
  have fits : (csvLine csvColumns).length ≤ Bufio.defaultBufSize := by decide +kernel
  have nonempty : csvLine csvColumns ≠ [] := by decide +kernel
  let opened : CsvWriter (Bufio.Writer UInt8 String) String := { bufio := { wr := fullAfterHeader } }
  let buffered : CsvWriter (Bufio.Writer UInt8 String) String :=
    { bufio := { wr := fullAfterHeader, buf := csvLine csvColumns } }
  have wrote : opened.writeHeader = some (buffered, none) :=
    CsvWriter.guarded_of_ok rfl rfl (Bufio.Writer.writeString_of_fits _ rfl fits) 0
  have flushed : buffered.flush = some (headerWritten, none) := by
    refine (CsvWriter.guarded_of_ok rfl rfl (Bufio.Writer.flush_of_buffered _ rfl nonempty) 0).trans ?_
    simp [buffered, headerWritten, fullAfterHeader]
  have start : (BufferedWriter.newWriter fullAfterHeader : Bufio.Writer UInt8 String) = { wr := fullAfterHeader } := rfl
  rw [newCSVWriter, start]
  simp only [opened] at wrote
  simp [wrote, flushed]

/-- The first row fits into the buffer, and the error shows at the flush; `close` returns it. -/
theorem csv_errors_reported_full :
    newCSVWriter fullAfterHeader = some (.ok headerWritten) ∧
      ∃ c', headerWritten.run plainFormats [.writeInterval idleSecond, .flush, .writeInterval idleSecond] =
          some (c', [none, some "no space left on device", some "no space left on device"]) ∧
        c'.close.2 = some "no space left on device" ∧ c'.close.1.output = csvLine csvColumns := by
  have fits : (csvLine (idleSecond.row plainFormats)).length ≤ Bufio.defaultBufSize := by decide +kernel
  have nonempty : csvLine (idleSecond.row plainFormats) ≠ [] := by decide +kernel
  let buffered : CsvWriter (Bufio.Writer UInt8 String) String :=
    { headerWritten with
      bufio := { headerWritten.bufio with buf := csvLine (idleSecond.row plainFormats) }
      n := 1 }
  let failed : CsvWriter (Bufio.Writer UInt8 String) String :=
    { buffered with
      bufio := { buffered.bufio with calls := 2, err := some "no space left on device" }
      err := some "no space left on device" }
  have wrote : headerWritten.call plainFormats (.writeInterval idleSecond) = some (buffered, none) := by
    rw [CsvWriter.call]
    exact CsvWriter.guarded_of_ok rfl rfl (Bufio.Writer.writeString_of_fits _ rfl fits) 1
  have flushed : buffered.call plainFormats .flush = some (failed, some "no space left on device") := by
    have refused : BufferedWriter.flush buffered.bufio = (failed.bufio, some "no space left on device") := by
      refine (Bufio.Writer.flush_of_buffered _ rfl nonempty).trans ?_
      simp [buffered, failed, headerWritten, fullAfterHeader]
    rw [CsvWriter.call]
    exact CsvWriter.guarded_of_fail rfl rfl refused 0
  have ran : headerWritten.run plainFormats [.writeInterval idleSecond, .flush, .writeInterval idleSecond] =
      some (failed, [none, some "no space left on device", some "no space left on device"]) := by
    rw [CsvWriter.run_cons _ wrote, CsvWriter.run_cons _ flushed, CsvWriter.run_of_err _ rfl]
    rfl
  refine ⟨newCSVWriter_full, failed, ran, ?_⟩
  obtain ⟨c', results, ran', -, reported, -⟩ := csv_errors_reported plainFormats fullAfterHeader newCSVWriter_full
    [.writeInterval idleSecond, .flush, .writeInterval idleSecond]
  obtain ⟨rfl, rfl⟩ : c' = failed ∧
      results = [none, some "no space left on device", some "no space left on device"] := by
    simpa [ran] using ran'.symm
  exact ⟨(reported 1 _ rfl).2.1, rfl⟩

/-- The calls of the sampler: for each tick a row and a flush, as long as there is no error, and a last row whose
results it ignores. -/
def sampler {T F : Type} [Field F] [LinearOrder F] (fmt : Formats T F) (c : CsvWriter W ε) (last : IntervalRecord T F) :
    List (IntervalRecord T F) → Option (CsvWriter W ε)
  | [] => do
    let (c, _) ← c.writeInterval fmt last
    let (c, _) ← c.flush
    return c
  | r :: ticks => do
    let (c, err) ← c.writeInterval fmt r
    if err.isSome then return c
    let (c, err) ← c.flush
    if err.isSome then return c
    sampler fmt c last ticks

/-- An error that the sampler leaves with, or ignores, is the one of `close`. -/
theorem CsvWriter.Consistent.sampler {T F : Type} [Field F] [LinearOrder F] (fmt : Formats T F) {c : CsvWriter W ε}
    {handed : List UInt8} (consistent : c.Consistent handed) (last : IntervalRecord T F)
    (ticks : List (IntervalRecord T F)) :
    ∃ c', Bench.sampler fmt c last ticks = some c' ∧ (c'.close.2 = none → c'.close.1.output =
      handed ++ (ticks ++ [last]).flatMap fun r => csvLine (r.row fmt)) := by
  induction ticks generalizing c handed with
  | nil =>
    obtain ⟨written, wrote, consistent⟩ := consistent.writeInterval fmt last
    obtain ⟨flushed, passed, consistent⟩ := consistent.flush
    refine ⟨flushed, by simp [Bench.sampler, wrote, passed], fun ok => ?_⟩
    simpa using consistent.close.2 ok
  | cons r ticks ih =>
    obtain ⟨written, wrote, consistent⟩ := consistent.writeInterval fmt r
    cases first : written.err with
    | some e =>
      refine ⟨written, by simp [Bench.sampler, wrote, first], fun ok => ?_⟩
      simp [CsvWriter.close_of_err consistent.opened first] at ok
    | none =>
      obtain ⟨flushed, passed, consistent⟩ := consistent.flush
      cases second : flushed.err with
      | some e =>
        refine ⟨flushed, by simp [Bench.sampler, wrote, first, passed, second], fun ok => ?_⟩
        simp [CsvWriter.close_of_err consistent.opened second] at ok
      | none =>
        obtain ⟨c', ran, complete⟩ := ih consistent
        refine ⟨c', by simp [Bench.sampler, wrote, first, passed, second, ran], fun ok => ?_⟩
        rw [complete ok]
        simp

/-- When the engine gets no error from `close`, the destination has the header and all rows of the sampler. -/
theorem sampler_complete {T F : Type} [Field F] [LinearOrder F] (fmt : Formats T F) {dst : D} {c : CsvWriter W ε}
    (opened : newCSVWriter dst = some (.ok c)) (last : IntervalRecord T F) (ticks : List (IntervalRecord T F)) :
    ∃ c', sampler fmt c last ticks = some c' ∧ (c'.close.2 = none → c'.close.1.output =
      csvLine csvColumns ++ (ticks ++ [last]).flatMap fun r => csvLine (r.row fmt)) :=
  (consistent_of_new opened).sampler fmt last ticks

end GolangMQ.Bench
