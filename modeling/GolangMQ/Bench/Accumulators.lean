import GolangMQ.Bench.Accounts

/-! # The accumulators of `stats`

The counters and latency sets that `beginMeasured` clears, and the fields kept for each connection and for each
publish-capable channel, are accumulators.
-/

namespace GolangMQ.Bench

variable {F : Type} {plan : Plan}

namespace Counter

/-- The counters that count record calls and that `resetAll` clears. -/
def resettable : Counter → Bool
  | allPublished | allDelivered | allConsumed | allAcks | drops => false
  | _ => true

/-- What an update adds to a counter. -/
def weight (c : Counter) : Update F → ℕ
  | .add d => if d = c then 1 else 0
  | _ => 0

end Counter

/-- The record calls that a counter counts. -/
def Counter.counts : Counter → Record F → Bool
  | .published, .publish .. | .pubW, .publish .. => true
  | .delivered, .deliver .. | .delW, .deliver .. => true
  | .consumed, .deliver _ _ _ dup | .consW, .deliver _ _ _ dup => !dup
  | .duplicates, .deliver _ _ _ dup | .dupW, .deliver _ _ _ dup => dup
  | _, _ => false

/-- A record call adds one to the counters that count it. -/
private theorem Counter.sum_weight_body {c : Counter} (measured : c.resettable = true) (record : Record F) :
    (record.body.map c.weight).sum = if c.counts record then 1 else 0 := by
  cases record with
  | publish slot seq =>
    simp only [Record.body]
    cases c <;> first | contradiction | split <;> simp [Counter.weight, Counter.counts]
  | deliver slot seq latUs dup =>
    simp only [Record.body]
    cases dup <;> cases slot.role.key <;> cases c <;> first | contradiction | simp [Counter.weight, Counter.counts]
  | ack seq latUs => cases c <;> first | contradiction | simp [Record.body, Counter.weight, Counter.counts]

namespace LatencyKey

/-- The latencies that no row takes without keeping them. -/
def kept : LatencyKey → Bool
  | ackLatWin | roleDelWin _ => false
  | _ => true

/-- The samples that an update adds to a latency set. -/
def weight (key : LatencyKey) : Update F → Multiset F
  | .sample k v => if k = key then {v} else 0
  | _ => 0

end LatencyKey

/-- The sample that a record call adds to a latency set. -/
def LatencyKey.sampleOf : LatencyKey → Record F → Option F
  | .delLatTot, .deliver _ _ latUs _ | .delLatWin, .deliver _ _ latUs _ => some latUs
  | .roleDelTot key, .deliver slot _ latUs _ => if slot.role.key = some key then some latUs else none
  | .ackLatTot, .ack _ latUs => some latUs
  | _, _ => none

private theorem LatencyKey.sum_weight_body {key : LatencyKey} (kept : key.kept = true) (record : Record F) :
    (record.body.map key.weight).sum = ((key.sampleOf record).toList : Multiset F) := by
  cases record with
  | publish slot seq =>
    simp only [Record.body]
    split <;> simp [LatencyKey.weight, LatencyKey.sampleOf]
  | deliver slot seq latUs dup =>
    cases key with
    | roleDelTot k =>
      simp only [Record.body, LatencyKey.sampleOf]
      generalize slot.role.key = role
      cases role with
      | none => cases dup <;> simp [LatencyKey.weight]
      | some k' => by_cases same : k' = k <;> cases dup <;> simp [LatencyKey.weight, same]
    | roleDelWin | ackLatWin => contradiction
    | _ => cases role : slot.role.key <;> cases dup <;> simp [Record.body, LatencyKey.weight, LatencyKey.sampleOf, role]
  | ack seq latUs => cases key <;> first | contradiction | simp [Record.body, LatencyKey.weight, LatencyKey.sampleOf]

variable [Field F] [LinearOrder F]

/-- A counter of the measured phase, or of the current window. -/
def counted (F : Type) [Field F] [LinearOrder F] (plan : Plan) (c : Counter) (measured : c.resettable = true) :
    Accumulator F ℕ plan where
  value s := s.counter c
  weight := c.weight
  row w := w.counter c
  reset := .clear c
  listed := by cases c <;> first | contradiction | simp [Stats.resetAll]
  fresh := rfl
  phase _ _ := rfl
  stores s v := Function.update_of_ne (fun same => by subst same; contradiction) _ _
  adds s s' u applied adding := by
    cases Stats.applies_of_apply applied with
    | add d =>
      by_cases same : d = c
      · subst same; simp [Counter.weight]
      · simp [Counter.weight, same, Function.update_of_ne (Ne.symm same)]
    | sample | connPublish | connDeliver | pubChPublish => rfl
    | _ => contradiction
  keeps s s' u applied clearing other := by
    cases Stats.applies_of_apply applied with
    | clear d => exact Function.update_of_ne (fun same => other (by rw [same])) _ _
    | resetLatency | resetConn | resetPubCh => rfl
    | _ => contradiction
  empties s s' applied := by
    cases applied
    exact Function.update_self _ _ _
  arrives u arriving := by
    cases u with
    | add d =>
      have other : d ≠ c := fun same => by
        subst same
        cases d <;> contradiction
      simp [Counter.weight, other]
    | _ => rfl
  blank := by cases c <;> rfl
  reads s w reading unread := by
    cases reading with
    | swap d =>
      by_cases same : d = c
      · subst same
        simp [Stats.read, w.counter_setCounter_self _ unread.1, unread.2]
      · simp [Stats.read, Function.update_of_ne (Ne.symm same), w.counter_setCounter _ same]
    | snapshot key => simp [Stats.read, w.counter_setLatency]
    | loadPublished => rfl
    | loadConsumed pub =>
      simp only [Stats.read]
      split <;> cases c <;> rfl

theorem counted_total {c : Counter} (measured : c.resettable = true) (total : c.windowed = false) :
    (counted F plan c measured).Total := by
  intro w
  cases c <;> first | contradiction | rfl

theorem due_counted {c : Counter} (measured : c.resettable = true) (records : List (Record F)) :
    (counted F plan c measured).due records = records.countP c.counts := by
  induction records with
  | nil => rfl
  | cons record rest ih =>
    simp only [Accumulator.due, List.map_cons, List.sum_cons] at ih ⊢
    rw [ih, List.countP_cons, add_comm]
    exact congrArg _ (Counter.sum_weight_body measured record)

/-- The samples of a latency set. -/
def sampled (F : Type) [Field F] [LinearOrder F] (plan : Plan) (key : LatencyKey) (kept : key.kept = true) :
    Accumulator F (Multiset F) plan where
  value s := (s.latency key).samples
  weight := key.weight
  row w := if key = .delLatWin then w.delSamples else 0
  reset := .resetLatency key
  listed := by
    cases key with
    | roleDelTot k => cases k <;> simp [Stats.resetAll, roleKeys]
    | _ => first | contradiction | simp [Stats.resetAll]
  fresh := rfl
  phase _ _ := rfl
  stores _ _ := rfl
  adds s s' u applied adding := by
    cases Stats.applies_of_apply applied with
    | sample k v =>
      by_cases same : k = key
      · subst same; simp [LatencyKey.weight, LatencySet.add, ← Multiset.coe_add]
      · simp [LatencyKey.weight, same, Function.update_of_ne (Ne.symm same)]
    | add | connPublish | connDeliver | pubChPublish => exact (add_zero _).symm
    | _ => contradiction
  keeps s s' u applied clearing other := by
    cases Stats.applies_of_apply applied with
    | resetLatency k =>
      simp only
      rw [Function.update_of_ne fun same => other (by rw [same])]
    | clear | resetConn | resetPubCh => rfl
    | _ => contradiction
  empties s s' applied := by
    cases applied
    simp
  arrives u arriving := by
    cases u <;> first | contradiction | rfl
  blank := by simp
  reads s w reading unread := by
    cases reading with
    | swap d => simp [Stats.read, w.delSamples_setCounter]
    | snapshot k =>
      by_cases same : k = key
      · subst same
        have window : k = .delLatWin := by
          have := unread.1
          cases k <;> first | contradiction | rfl
        subst window
        simp [Stats.read, Window.setLatency, unread.2 rfl]
      · have row : (if key = .delLatWin then ((w.setLatency (s.latency k) k).delSamples : Multiset F) else 0) =
            if key = .delLatWin then (w.delSamples : Multiset F) else 0 := by
          split
          · next last => rw [w.delSamples_setLatency _ fun equal => same (equal.trans last.symm)]
          · rfl
        simp only [Stats.read, Function.update_of_ne (Ne.symm same), row]
    | loadPublished => rfl
    | loadConsumed pub =>
      simp only [Stats.read]
      split_ifs <;> rfl

theorem sampled_total {key : LatencyKey} (kept : key.kept = true) (total : key ≠ .delLatWin) :
    (sampled F plan key kept).Total :=
  fun _ => if_neg total

theorem due_sampled {key : LatencyKey} (kept : key.kept = true) (records : List (Record F)) :
    (sampled F plan key kept).due records = (records.filterMap key.sampleOf : Multiset F) := by
  rw [coe_filterMap]
  exact congrArg _ (List.map_congr_left fun record _ => LatencyKey.sum_weight_body kept record)

/-- A field of the entry of a connection, with what a publish and a delivery add to it. -/
structure ConnField (F : Type) [Field F] [LinearOrder F] where
  read : ConnStats F → ℕ
  publish : ℕ
  deliver : Bool → ℕ
  fresh : read {} = 0
  published : ∀ cs, read { cs with published := cs.published + 1 } = read cs + publish
  delivered : ∀ cs latUs dup, read (cs.deliver latUs dup) = read cs + deliver dup

/-- What an update adds to the field of a connection. -/
def ConnField.weight (field : ConnField F) (conn : ℕ) : Update F → ℕ
  | .connPublish i => if i = conn then field.publish else 0
  | .connDeliver i _ dup => if i = conn then field.deliver dup else 0
  | _ => 0

/-- A field of the entry of a connection. -/
def onConn (F : Type) [Field F] [LinearOrder F] (plan : Plan) (field : ConnField F) (conn : ℕ)
    (inside : conn < plan.conns) : Accumulator F ℕ plan where
  value s := field.read (s.perConn.getD conn {})
  weight := field.weight conn
  row := 0
  reset := .resetConn conn
  listed := by simp [Stats.resetAll, inside]
  fresh := by simp [newStats, inside, field.fresh]
  phase _ _ := rfl
  stores _ _ := rfl
  adds s s' u applied adding := by
    cases Stats.applies_of_apply applied with
    | @connPublish i bound =>
      by_cases same : i = conn
      · subst same
        simp [ConnField.weight, bound, field.published]
      · simp [ConnField.weight, same]
    | @connDeliver i latUs dup bound =>
      by_cases same : i = conn
      · subst same
        simp [ConnField.weight, bound, field.delivered]
      · simp [ConnField.weight, same]
    | add | sample | pubChPublish => rfl
    | _ => contradiction
  keeps s s' u applied clearing other := by
    cases Stats.applies_of_apply applied with
    | @resetConn i bound =>
      have apart : i ≠ conn := fun same => other (by rw [same])
      simp [apart]
    | clear | resetLatency | resetPubCh => rfl
    | _ => contradiction
  empties s s' applied := by
    cases Stats.applies_of_apply applied with
    | resetConn bound => simp [bound, field.fresh]
  arrives u arriving := by cases u <;> first | contradiction | rfl
  blank := Pi.zero_apply _
  reads s w reading _ := by cases reading <;> rfl

/-- What an update adds to the entry of a publish-capable channel. -/
def pubChWeight (idx : ℕ) : Update F → ℕ
  | .pubChPublish i => if i = idx then 1 else 0
  | _ => 0

/-- The entry of a publish-capable channel. -/
def onPubCh (F : Type) [Field F] [LinearOrder F] (plan : Plan) (idx : ℕ) (inside : idx < plan.pubChs) :
    Accumulator F ℕ plan where
  value s := s.perPubCh.getD idx 0
  weight := pubChWeight idx
  row := 0
  reset := .resetPubCh idx
  listed := by simp [Stats.resetAll, inside]
  fresh := by simp [newStats, inside]
  phase _ _ := rfl
  stores _ _ := rfl
  adds s s' u applied adding := by
    cases Stats.applies_of_apply applied with
    | @pubChPublish i bound =>
      by_cases same : i = idx
      · subst same
        simp [pubChWeight, bound]
      · simp [pubChWeight, same]
    | add | sample | connPublish | connDeliver => rfl
    | _ => contradiction
  keeps s s' u applied clearing other := by
    cases Stats.applies_of_apply applied with
    | @resetPubCh i bound =>
      have apart : i ≠ idx := fun same => other (by rw [same])
      simp [apart]
    | clear | resetLatency | resetConn => rfl
    | _ => contradiction
  empties s s' applied := by
    cases Stats.applies_of_apply applied with
    | resetPubCh bound => simp [bound]
  arrives u arriving := by cases u <;> first | contradiction | rfl
  blank := Pi.zero_apply _
  reads s w reading _ := by cases reading <;> rfl

end GolangMQ.Bench
