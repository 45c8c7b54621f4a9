import GolangMQ.Transport.Pump

/-! # Who is answered when the pump returns

`send` waits for its answer once its request is in the channel, and the pump answers the requests it
takes. Between the two stands the end of the connection: the pump may leave its loop with requests still
in the channel, and `select` may still put one there afterwards. `Orderly` excludes exactly these two;
then nobody waits for an answer that will not come.
-/

namespace GolangMQ.Transport

open Machine

variable {α : Type*} {frame : α → List UInt8} {l l' : Link α} {move : Move α}

/-- The pump is about to report an error and to leave its loop. -/
def Phase.failing : Phase α → Bool
  | .replying _ ok => !ok
  | _ => false

/-- The pump leaves its loop only when no request is buffered, and none is buffered after it has left. -/
def Orderly (l : Link α) : Move α → Prop
  | .accept _ => l.phase.loops = true
  | .stop => l.writeCh = []
  | .reply => l.phase.failing = true → l.writeCh = []
  | _ => True

instance (l : Link α) : ∀ move, Decidable (Orderly l move)
  | .accept _ => inferInstanceAs (Decidable (_ = _))
  | .stop => inferInstanceAs (Decidable (l.writeCh = []))
  | .reply => inferInstanceAs (Decidable (_ → l.writeCh = []))
  | .call .. | .refuse _ | .receive _ | .shutdown | .take | .write .. | .flush .. | .leave => .isTrue trivial

/-- Every waiting goroutine's request is buffered, in the hands of the pump, or answered. -/
structure Answered (l : Link α) : Prop where
  own : ∀ g req, l.sender g = .selecting req ∨ l.sender g = .waiting req → req.sender = g
  accounted : ∀ g req, l.sender g = .waiting req →
    req ∈ l.writeCh ∨ l.phase.current = some req ∨ l.err (g, req.call) ≠ none
  drained : l.phase.loops = false → l.writeCh = []

namespace Answered

private theorem init : Answered ({} : Link α) where
  own _ _ stands := by simp at stands
  accounted _ _ stands := by simp at stands
  drained left := by simp [Phase.loops] at left

/-- A goroutine that moves in `send` leaves the others where they are. -/
theorem own_update (answered : Answered l) {g : ℕ} {sender : Sender α}
    (mine : ∀ req, sender = .selecting req ∨ sender = .waiting req → req.sender = g) :
    ∀ g' req, Function.update l.sender g sender g' = .selecting req ∨
      Function.update l.sender g sender g' = .waiting req → req.sender = g' :=
  (Function.forall_update_iff l.sender fun g' stage =>
    ∀ req, stage = .selecting req ∨ stage = .waiting req → req.sender = g').2 ⟨mine, fun g' _ => answered.own g'⟩

private theorem step (answered : Answered l) (orderly : Orderly l move) (moves : Moves frame l move l') :
    Answered l' := by
  cases moves with
  | @call g body idle =>
    refine ⟨answered.own_update (by rintro req (same | same) <;> simp at same; rw [← same]), ?_, answered.drained⟩
    intro g' req waiting
    simp only [Link.setSender, Function.update_apply] at waiting
    split_ifs at waiting
    exact answered.accounted g' req waiting
  | @accept g req selecting room =>
    refine ⟨answered.own_update ?_, ?_, fun left => ?_⟩
    · rintro req' (same | same)
      · simp at same
      · obtain rfl : req = req' := by simpa using same
        exact answered.own g req (.inl selecting)
    · intro g' req' waiting
      simp only [Link.setSender, Function.update_apply] at waiting
      split_ifs at waiting with same
      · obtain rfl : req = req' := by simpa using waiting
        exact .inl (by simp)
      · rcases answered.accounted g' req' waiting with buffered | held | answer
        · exact .inl (List.mem_append_left _ buffered)
        · exact .inr (.inl held)
        · exact .inr (.inr answer)
    · have loops : l.phase.loops = true := orderly
      exact absurd (loops.symm.trans left) (by simp)
  | @refuse g req selecting closed =>
    refine ⟨answered.own_update (by simp), ?_, answered.drained⟩
    intro g' req' waiting
    simp only [Link.setSender, Function.update_apply] at waiting
    split_ifs at waiting
    exact answered.accounted g' req' waiting
  | @receive g req ok waiting answer =>
    refine ⟨answered.own_update (by simp), ?_, answered.drained⟩
    intro g' req' stands
    simp only [Link.setSender, Function.update_apply] at stands
    split_ifs at stands with other
    rcases answered.accounted g' req' stands with buffered | held | answer'
    · exact .inl buffered
    · exact .inr (.inl held)
    · refine .inr (.inr ?_)
      dsimp only
      rwa [Function.update_of_ne (by simp [other])]
  | shutdown => exact ⟨answered.own, answered.accounted, answered.drained⟩
  | @take req rest loop head =>
    refine ⟨answered.own, fun g req' waiting => ?_, fun left => by simp [Phase.loops] at left⟩
    rcases answered.accounted g req' waiting with buffered | held | answer
    · rw [head, List.mem_cons] at buffered
      rcases buffered with rfl | later
      · exact .inr (.inl rfl)
      · exact .inl later
    · simp [loop, Phase.current] at held
    · exact .inr (.inr answer)
  | stop loop closed =>
    refine ⟨answered.own, fun g req waiting => ?_, fun _ => orderly⟩
    simpa [loop, Phase.current] using answered.accounted g req waiting
  | @write handed ok req writing =>
    refine ⟨answered.own, fun g req' waiting => ?_, fun left => ?_⟩
    · have held := answered.accounted g req' waiting
      rw [writing] at held
      cases ok <;> exact held
    · cases ok <;> simp [Phase.loops] at left
  | flushed flushing | flushFailed flushing =>
    refine ⟨answered.own, fun g req' waiting => ?_, fun left => by simp [Phase.loops] at left⟩
    have held := answered.accounted g req' waiting
    rw [flushing] at held
    exact held
  | @reply req ok replying =>
    refine ⟨answered.own, fun g req' waiting => ?_, fun left => ?_⟩
    · rcases answered.accounted g req' waiting with buffered | held | answer
      · exact .inl buffered
      · rw [replying] at held
        obtain rfl : req = req' := Option.some.inj held
        obtain rfl := answered.own g req (.inr waiting)
        exact .inr (.inr (by simp))
      · refine .inr (.inr ?_)
        dsimp only
        rw [Function.update_apply]
        split_ifs
        · simp
        · exact answer
    · cases ok with
      | true => simp [Phase.loops] at left
      | false =>
        exact orderly (by rw [replying]; rfl)
  | leave leaving =>
    refine ⟨answered.own, fun g req waiting => ?_, fun _ => answered.drained (by rw [leaving]; rfl)⟩
    have held := answered.accounted g req waiting
    rw [leaving] at held
    exact held

end Answered

theorem answered_of_reachable (reached : (pump frame).Reachable Orderly l) : Answered l :=
  reached.invariant .init fun _ answered orderly stepped => answered.step orderly (moves_of_step stepped)

/-- When the pump has returned, nobody waits in `send` for an answer that is not there. -/
theorem answered_of_orderly (reached : (pump frame).Reachable Orderly l) (returned : l.phase = .returned)
    {g : ℕ} {req : Request α} (waiting : l.sender g = .waiting req) : l.err (g, req.call) ≠ none := by
  have answered := answered_of_reachable reached
  have empty := answered.drained (by rw [returned]; rfl)
  rcases answered.accounted g req waiting with buffered | held | answer
  · rw [empty] at buffered
    exact absurd buffered List.not_mem_nil
  · rw [returned] at held
    contradiction
  · exact answer

/-- The pump has answered one goroutine and has returned before the goroutine looked at the answer. -/
theorem answered_after_shutdown :
    let l := (pump (α := List UInt8) id).replay Orderly
      [.call 0 [7, 10], .accept 0, .take, .write 1 true, .flush 0 true, .reply, .shutdown, .stop, .leave]
    l.phase = .returned ∧ l.sender 0 = .waiting ⟨0, 0, [7, 10]⟩ ∧ l.err (0, 0) ≠ none :=
  have returned := by decide
  have waiting := by decide
  ⟨returned, waiting, answered_of_orderly (.of_replay _) returned waiting⟩

/-- The reader side shuts down, and the pump leaves with a request in the channel. -/
theorem stranded_of_buffered :
    ¬ ∀ l : Link (List UInt8), (pump id).Reachable anyStep l → l.phase = .returned →
      ∀ g req, l.sender g = .waiting req → l.err (g, req.call) ≠ none := by
  intro answered
  let l := (pump (α := List UInt8) id).replay anyStep [.call 0 [7, 10], .accept 0, .shutdown, .stop, .leave]
  have answer := answered l (.of_replay _) (by decide) 0 ⟨0, 0, [7, 10]⟩ (by decide)
  exact answer (by decide)

end GolangMQ.Transport
