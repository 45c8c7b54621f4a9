import GolangMQ.Machine.Core
import GolangMQ.ToMathlib.Numerals
import Mathlib.Algebra.Group.Nat.Defs
import Mathlib.Tactic.Common

/-! # The identifiers of the runs

`newRunID` joins a reading of the clock, a number of an atomic sequence and the nonce of the process with dashes. The
clock may show anything, and its numeral may begin with a dash of its own; the sequence number and the nonce have
none, so that they are read off the end of the identifier. The calls of a process are interleaved at their reading of
the clock and their atomic addition.
-/

namespace GolangMQ.Bench

/-- `digits` of `strconv`. -/
def digits : List Char := "0123456789abcdefghijklmnopqrstuvwxyz".toList

def digitChar (d : ℕ) : Char := digits.getD d '0'

private theorem digitChar_injOn : Set.InjOn digitChar (Set.Iio 36) := by
  have distinct : ∀ d < 36, ∀ e < 36, digitChar d = digitChar e → d = e := by decide +kernel
  exact fun d small e small' same => distinct d small e small' same

/-- `strconv.FormatUint` with base 36. -/
def formatUint (u : UInt64) : String := String.ofList (numeral digitChar 36 u.toNat)

/-- `strconv.FormatInt` with base 36. -/
def formatInt (i : Int64) : String :=
  if i < 0 then "-" ++ String.ofList (numeral digitChar 36 i.toInt.natAbs)
  else String.ofList (numeral digitChar 36 i.toInt.natAbs)

/-- `hex.EncodeToString`. -/
def encodeToString (bytes : List UInt8) : String :=
  String.ofList (bytes.flatMap fun b => [digitChar (b.toNat / 16), digitChar (b.toNat % 16)])

/-- `runIDNonce`: the eight random bytes, or the process id when there are none. -/
def runIDNonce (read : Option (List UInt8)) (pid : UInt64) : String :=
  match read with
  | some bytes => encodeToString bytes
  | none => formatUint pid

/-- The text has no dash, which separates the fields. -/
def Dashless (text : String) : Prop := '-' ∉ text.toList

private theorem digitChar_ne_dash {d : ℕ} (small : d < 36) : digitChar d ≠ '-' := by
  have plain : ∀ d < 36, digitChar d ≠ '-' := by decide +kernel
  exact plain d small

private theorem dashless_formatUint (u : UInt64) : Dashless (formatUint u) := by
  rw [Dashless, formatUint, String.toList_ofList]
  intro member
  obtain ⟨d, small, same⟩ := exists_of_mem_numeral member
  exact digitChar_ne_dash small same

private theorem dashless_runIDNonce (read : Option (List UInt8)) (pid : UInt64) : Dashless (runIDNonce read pid) := by
  cases read with
  | none => exact dashless_formatUint pid
  | some bytes =>
    rw [runIDNonce, Dashless, encodeToString, String.toList_ofList]
    intro member
    obtain ⟨b, -, member⟩ := List.mem_flatMap.1 member
    have bounded := b.toNat_lt
    simp only [List.mem_cons, List.not_mem_nil, or_false] at member
    rcases member with same | same
    · exact digitChar_ne_dash (by omega) same.symm
    · exact digitChar_ne_dash (by omega) same.symm

private theorem formatUint_injective : formatUint.Injective := by
  intro u v same
  exact UInt64.toNat_inj.1 (numeral_injective digitChar_injOn (String.ofList_inj.1 same))

/-- What `newRunID` returns. -/
def runID (nonce : String) (nanos : Int64) (seq : UInt64) : String :=
  formatInt nanos ++ "-" ++ formatUint seq ++ "-" ++ nonce

private theorem toList_runID (nonce : String) (nanos : Int64) (seq : UInt64) :
    (runID nonce nanos seq).toList =
      ((formatInt nanos).toList ++ '-' :: (formatUint seq).toList) ++ '-' :: nonce.toList := by
  simp [runID]

/-- The identifier determines the sequence number and the nonce. -/
private theorem runID_inj {nonce nonce' : String} {nanos nanos' : Int64} {seq seq' : UInt64} (dashless : Dashless nonce)
    (dashless' : Dashless nonce') (same : runID nonce nanos seq = runID nonce' nanos' seq') :
    seq = seq' ∧ nonce = nonce' := by
  have chars := congrArg String.toList same
  rw [toList_runID, toList_runID] at chars
  obtain ⟨front, nonces⟩ := append_separator_inj dashless dashless' chars
  obtain ⟨-, numbers⟩ := append_separator_inj (dashless_formatUint seq) (dashless_formatUint seq') front
  exact ⟨formatUint_injective (String.toList_inj.1 numbers), String.toList_inj.1 nonces⟩

/-- The names that `Run` takes from the identifier, and the path of `openCSV` when `-output` is empty. -/
structure RunNames where
  exchange : String
  queue : String
  routingKey : String
  csvPath : String
deriving DecidableEq, Repr

def runNames (runid : String) : RunNames where
  exchange := "bench.ex." ++ runid
  queue := "bench.q." ++ runid
  routingKey := "bench.rk." ++ runid
  csvPath := "bench-" ++ runid ++ ".csv"

/-- Two runs share no name. -/
structure RunNames.Apart (names names' : RunNames) : Prop where
  exchange : names.exchange ≠ names'.exchange
  queue : names.queue ≠ names'.queue
  routingKey : names.routingKey ≠ names'.routingKey
  csvPath : names.csvPath ≠ names'.csvPath

private theorem runNames_apart {runid runid' : String} (distinct : runid ≠ runid') :
    (runNames runid).Apart (runNames runid') where
  exchange same := distinct (String.append_right_inj _ |>.1 same)
  queue same := distinct (String.append_right_inj _ |>.1 same)
  routingKey same := distinct (String.append_right_inj _ |>.1 same)
  csvPath same := distinct (String.append_right_inj _ |>.1 (String.append_left_inj _ |>.1 same))

/-- How far a call of `newRunID` has come. -/
inductive RunIDCall where
  | clocked (nanos : Int64)
  | numbered (nanos : Int64) (seq : UInt64)
  | returned (id : String)
deriving DecidableEq, Repr

/-- `runIDSeq`, and the calls of the process in the order in which they began. -/
structure RunIDs where
  runIDSeq : UInt64 := 0
  calls : List RunIDCall := []
deriving DecidableEq, Repr

/-- A call begins and reads the clock, takes its number, or returns. -/
inductive RunIDStep where
  | now (nanos : Int64)
  | add (call : ℕ)
  | ret (call : ℕ)
deriving DecidableEq, Repr

/-- The calls of `newRunID` in a process. -/
def newRunID (nonce : String) : Machine RunIDs RunIDStep where
  init := {}
  step? s
    | .now nanos => some { s with calls := s.calls ++ [.clocked nanos] }
    | .add i =>
      match s.calls[i]? with
      | some (.clocked nanos) =>
        some { runIDSeq := s.runIDSeq + 1, calls := s.calls.set i (.numbered nanos (s.runIDSeq + 1)) }
      | _ => none
    | .ret i =>
      match s.calls[i]? with
      | some (.numbered nanos seq) => some { s with calls := s.calls.set i (.returned (runID nonce nanos seq)) }
      | _ => none

/-- The steps of `newRunID`. -/
inductive Mints (nonce : String) (s : RunIDs) : RunIDs → Prop
  | now (nanos : Int64) : Mints nonce s { s with calls := s.calls ++ [.clocked nanos] }
  | add {i : ℕ} {nanos : Int64} (clocked : s.calls[i]? = some (.clocked nanos)) :
      Mints nonce s { runIDSeq := s.runIDSeq + 1, calls := s.calls.set i (.numbered nanos (s.runIDSeq + 1)) }
  | ret {i : ℕ} {nanos : Int64} {seq : UInt64} (numbered : s.calls[i]? = some (.numbered nanos seq)) :
      Mints nonce s { s with calls := s.calls.set i (.returned (runID nonce nanos seq)) }

private theorem mints_of_step {nonce : String} {s s' : RunIDs} {step : RunIDStep}
    (stepped : (newRunID nonce).step? s step = some s') : Mints nonce s s' := by
  cases step with
  | now nanos =>
    cases stepped
    exact .now nanos
  | add i =>
    simp only [newRunID] at stepped
    split at stepped
    case h_1 nanos clocked =>
      cases stepped
      exact .add clocked
    case h_2 => cases stepped
  | ret i =>
    simp only [newRunID] at stepped
    split at stepped
    case h_1 nanos seq numbered =>
      cases stepped
      exact .ret numbered
    case h_2 => cases stepped

namespace RunIDCall

/-- The call has read the clock only. -/
def isClocked : RunIDCall → Bool
  | clocked _ => true
  | numbered .. | returned _ => false

/-- The call has taken the number `seq`. -/
def Took (nonce : String) (seq : UInt64) : RunIDCall → Prop
  | clocked _ => False
  | numbered _ own => own = seq
  | returned id => ∃ nanos, id = runID nonce nanos seq

end RunIDCall

namespace RunIDs

/-- The call `i` has returned `id`. -/
def Returned (s : RunIDs) (i : ℕ) (id : String) : Prop := s.calls[i]? = some (.returned id)

/-- The call `i` has taken the number `seq`. -/
def Took (s : RunIDs) (nonce : String) (i : ℕ) (seq : UInt64) : Prop :=
  ∃ call, s.calls[i]? = some call ∧ call.Took nonce seq

/-- The calls have different numbers, none above the counter; those without a number are still to increment it. -/
structure Issued (s : RunIDs) (nonce : String) : Prop where
  counted : s.runIDSeq.toNat + s.calls.countP RunIDCall.isClocked = s.calls.length
  bounded : ∀ i seq, s.Took nonce i seq → seq.toNat ≤ s.runIDSeq.toNat
  distinct : ∀ i j seq, s.Took nonce i seq → s.Took nonce j seq → i = j

end RunIDs

private theorem Mints.length_le {nonce : String} {s s' : RunIDs} (mints : Mints nonce s s') :
    s.calls.length ≤ s'.calls.length := by
  cases mints with
  | now nanos => simp
  | add clocked => simp
  | ret numbered => simp

namespace RunIDs

variable {nonce : String} {s s' : RunIDs}

/-- A call that has just begun has no number. -/
private theorem took_of_now {j : ℕ} {seq : UInt64} {nanos : Int64}
    (took : ({ s with calls := s.calls ++ [.clocked nanos] } : RunIDs).Took nonce j seq) : s.Took nonce j seq := by
  obtain ⟨call, found, took⟩ := took
  by_cases old : j < s.calls.length
  · rw [List.getElem?_append_left old] at found
    exact ⟨call, found, took⟩
  · rw [List.getElem?_append_right (Nat.le_of_not_lt old)] at found
    obtain rfl := List.mem_singleton.1 (List.mem_of_getElem? found)
    exact took.elim

/-- A step of one call leaves the numbers of the others alone. -/
private theorem took_of_set {i j : ℕ} {seq counter : UInt64} {call : RunIDCall}
    (took : ({ runIDSeq := counter, calls := s.calls.set i call } : RunIDs).Took nonce j seq) :
    j ≠ i ∧ s.Took nonce j seq ∨ j = i ∧ call.Took nonce seq := by
  obtain ⟨other, found, took⟩ := took
  by_cases same : j = i
  · subst same
    have inside : j < s.calls.length := by simpa using (List.getElem?_eq_some_iff.1 found).1
    rw [List.getElem?_set_self inside] at found
    cases found
    exact .inr ⟨rfl, took⟩
  · rw [List.getElem?_set_ne (Ne.symm same)] at found
    exact .inl ⟨same, other, found, took⟩

private theorem Issued.step (issued : s.Issued nonce) (dashless : Dashless nonce) (mints : Mints nonce s s')
    (few : s'.calls.length < 2 ^ 64) : s'.Issued nonce := by
  have counted := issued.counted
  cases mints with
  | now nanos =>
    refine ⟨?_, fun i seq took => issued.bounded i seq (took_of_now took),
      fun i j seq took took' => issued.distinct i j seq (took_of_now took) (took_of_now took')⟩
    simp only [List.countP_append, List.length_append, List.countP_singleton, List.length_singleton,
      RunIDCall.isClocked, if_true]
    omega
  | @add i nanos clocked =>
    obtain ⟨inside, entry⟩ := List.getElem?_eq_some_iff.1 clocked
    have waiting : 0 < s.calls.countP RunIDCall.isClocked :=
      List.countP_pos_iff.2 ⟨_, List.mem_of_getElem? clocked, rfl⟩
    rw [List.length_set] at few
    have next : (s.runIDSeq + 1).toNat = s.runIDSeq.toNat + 1 := by
      rw [UInt64.toNat_add, UInt64.toNat_one, Nat.mod_eq_of_lt (by omega)]
    have fresh {j : ℕ} (took : s.Took nonce j (s.runIDSeq + 1)) : False := by
      have := issued.bounded j _ took
      omega
    refine ⟨?_, fun j seq took => ?_, fun j k seq took took' => ?_⟩
    · rw [List.countP_set inside, entry, List.length_set, next]
      simp only [RunIDCall.isClocked, if_true, Bool.false_eq_true, if_false]
      omega
    · rw [next]
      rcases took_of_set took with ⟨-, old⟩ | ⟨-, rfl⟩
      · exact Nat.le_succ_of_le (issued.bounded j seq old)
      · exact next.le
    · rcases took_of_set took with ⟨-, old⟩ | ⟨here, rfl⟩ <;> rcases took_of_set took' with ⟨-, old'⟩ | ⟨here', same⟩
      · exact issued.distinct j k seq old old'
      · exact (fresh (same ▸ old)).elim
      · exact (fresh old').elim
      · rw [here, here']
  | @ret i nanos seq numbered =>
    obtain ⟨inside, entry⟩ := List.getElem?_eq_some_iff.1 numbered
    have kept {j : ℕ} {other : UInt64} (took : ({ s with
        calls := s.calls.set i (.returned (runID nonce nanos seq)) } : RunIDs).Took nonce j other) :
        s.Took nonce j other := by
      rcases took_of_set took with ⟨-, old⟩ | ⟨rfl, nanos', printed⟩
      · exact old
      · -- the number is read off the identifier
        exact ⟨_, numbered, (runID_inj dashless dashless printed).1⟩
    refine ⟨?_, fun j other took => issued.bounded j other (kept took),
      fun j k other took took' => issued.distinct j k other (kept took) (kept took')⟩
    rw [List.countP_set inside, entry, List.length_set]
    simpa only [RunIDCall.isClocked, Bool.false_eq_true, if_false, Nat.sub_zero, Nat.add_zero] using counted

theorem issued_of_reachable (dashless : Dashless nonce) (reached : (newRunID nonce).Reachable Machine.anyStep s)
    (few : s.calls.length < 2 ^ 64) : s.Issued nonce := by
  refine reached.invariant (P := fun s => s.calls.length < 2 ^ 64 → s.Issued nonce) ?_ ?_ few
  · exact fun _ => ⟨rfl, fun i seq ⟨_, found, _⟩ => by simp [newRunID] at found,
      fun i j seq ⟨_, found, _⟩ => by simp [newRunID] at found⟩
  · intro source target step _ issued _ stepped few
    have mints := mints_of_step stepped
    exact (issued (mints.length_le.trans_lt few)).step dashless mints few

/-- What a call returns has a number and the nonce of the process. -/
theorem returned_of_reachable (reached : (newRunID nonce).Reachable Machine.anyStep s) {i : ℕ} {id : String}
    (returned : s.Returned i id) : ∃ nanos seq, id = runID nonce nanos seq := by
  have member : .returned id ∈ s.calls := List.mem_of_getElem? (i := i) returned
  refine reached.invariant (P := fun s => ∀ id, .returned id ∈ s.calls → ∃ nanos seq, id = runID nonce nanos seq) ?_ ?_
    id member
  · simp [newRunID]
  · intro source target step _ known _ stepped id member
    cases mints_of_step stepped with
    | now nanos => exact known id (by simpa using member)
    | add clocked =>
      rcases List.mem_or_eq_of_mem_set member with old | new
      · exact known id old
      · cases new
    | @ret _ nanos seq numbered =>
      rcases List.mem_or_eq_of_mem_set member with old | new
      · exact known id old
      · cases new
        exact ⟨nanos, seq, rfl⟩

end RunIDs

/-- Different calls of `newRunID` return different identifiers, in one process with less than 2^64 calls and in two
processes with different nonces; the names of their runs are different as well. -/
theorem runIDs_distinct (nonce : String) (dashless : Dashless nonce) (s : RunIDs)
    (reached : (newRunID nonce).Reachable Machine.anyStep s) :
    (s.calls.length < 2 ^ 64 → ∀ i j id id', i ≠ j → s.Returned i id → s.Returned j id' →
      id ≠ id' ∧ (runNames id).Apart (runNames id')) ∧
    ∀ nonce' s', Dashless nonce' → nonce ≠ nonce' → (newRunID nonce').Reachable Machine.anyStep s' →
      ∀ i j id id', s.Returned i id → s'.Returned j id' → id ≠ id' ∧ (runNames id).Apart (runNames id') := by
  constructor
  · intro few i j id id' other returned returned'
    have distinct : id ≠ id' := by
      rintro rfl
      obtain ⟨nanos, seq, printed⟩ := RunIDs.returned_of_reachable reached returned
      have issued := RunIDs.issued_of_reachable dashless reached few
      exact other (issued.distinct i j seq ⟨_, returned, nanos, printed⟩ ⟨_, returned', nanos, printed⟩)
    exact ⟨distinct, runNames_apart distinct⟩
  · intro nonce' s' dashless' other reached' i j id id' returned returned'
    have distinct : id ≠ id' := by
      rintro rfl
      obtain ⟨nanos, seq, printed⟩ := RunIDs.returned_of_reachable reached returned
      obtain ⟨nanos', seq', printed'⟩ := RunIDs.returned_of_reachable reached' returned'
      exact other (runID_inj dashless dashless' (printed.symm.trans printed')).2
    exact ⟨distinct, runNames_apart distinct⟩

/-- Two calls that read the same time before either takes its number, in each of two processes. -/
theorem runIDs_distinct_two :
    let nonce := runIDNonce (some [1, 2, 3, 4, 5, 6, 7, 8]) 0
    let nonce' := runIDNonce (some [1, 2, 3, 4, 5, 6, 7, 9]) 0
    runID nonce (-7) 2 ≠ runID nonce (-7) 1 ∧
      (runNames (runID nonce (-7) 2)).Apart (runNames (runID nonce' (-7) 2)) := by
  intro nonce nonce'
  have reached (nonce : String) : (newRunID nonce).Reachable Machine.anyStep
      { runIDSeq := 2, calls := [.returned (runID nonce (-7) 2), .returned (runID nonce (-7) 1)] } :=
    .next (.next (.next (.next (.next (.next .init (.now (-7)) rfl) (.now (-7)) rfl) (.add 1) rfl) (.add 0) rfl)
      (.ret 1) rfl) (.ret 0) rfl
  have other : nonce ≠ nonce' := by decide +kernel
  obtain ⟨one, two⟩ := runIDs_distinct nonce (dashless_runIDNonce _ 0) _ (reached nonce)
  exact ⟨(one (by decide) 0 1 _ _ (by decide) rfl rfl).1,
    (two nonce' _ (dashless_runIDNonce _ 0) other (reached nonce') 0 0 _ _ rfl rfl).2⟩

end GolangMQ.Bench
