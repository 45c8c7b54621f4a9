import GolangMQ.Transport.Lines
import GolangMQ.Transport.Pump
import Mathlib.Tactic.Common

/-! # What the pump leaves on the wire

At every moment the wire holds the frames that were flushed, one after the other, and then a part of at
most one more: the one the pump is working on, or the one it failed on. Each goroutine's calls are taken
in call order because it waits for the answer to one before it makes the next.
-/

namespace GolangMQ.Transport

open Machine

variable {α : Type*} {frames : α → List UInt8} {l l' : Link α} {move : Move α}

/-- The bytes of some requests, one after the other. -/
def transcript (frames : α → List UInt8) (reqs : List (Request α)) : List UInt8 :=
  reqs.flatMap fun req => frames req.body

/-- How far the current request has come: the bytes of it on the wire, and those still in the buffer. -/
inductive Progress (frames : α → List UInt8) (l : Link α) : Phase α → List UInt8 → Prop
  | selecting (buffer : l.buffer = []) (taken : l.taken = l.flushed) : Progress frames l .selecting []
  | writing {req : Request α} (buffer : l.buffer = []) (taken : l.taken = l.flushed ++ [req]) :
      Progress frames l (.writing req) []
  | flushing {req : Request α} {part : List UInt8} (rest : part ++ l.buffer = frames req.body)
      (taken : l.taken = l.flushed ++ [req]) : Progress frames l (.flushing req) part
  | replied {req : Request α} (buffer : l.buffer = []) (taken : l.taken = l.flushed) (last : req ∈ l.flushed) :
      Progress frames l (.replying req true) []
  | failing {req : Request α} {part : List UInt8} (begins : part <+: frames req.body)
      (taken : l.taken = l.flushed ++ [req]) : Progress frames l (.replying req false) part
  | clean {phase : Phase α} (left : phase.loops = false) (taken : l.taken = l.flushed) : Progress frames l phase []
  | broken {phase : Phase α} {req : Request α} {part : List UInt8} (left : phase.loops = false)
      (begins : part <+: frames req.body) (taken : l.taken = l.flushed ++ [req]) : Progress frames l phase part

/-- The wire holds the flushed frames and the part of the current one. -/
def Framed (frames : α → List UInt8) (l : Link α) : Prop :=
  ∃ part, l.wire = transcript frames l.flushed ++ part ∧ Progress frames l l.phase part

private theorem Framed.init : Framed frames ({} : Link α) := ⟨[], rfl, .selecting rfl rfl⟩

/-- A step that leaves the pump's own data alone leaves the wire as it is described. -/
theorem Framed.congr (framed : Framed frames l) (wire : l'.wire = l.wire) (phase : l'.phase = l.phase)
    (buffer : l'.buffer = l.buffer) (taken : l'.taken = l.taken) (flushed : l'.flushed = l.flushed) :
    Framed frames l' := by
  obtain ⟨part, on_wire, progress⟩ := framed
  refine ⟨part, by rw [wire, flushed, on_wire], ?_⟩
  rw [phase]
  generalize l.phase = current at progress ⊢
  cases progress with
  | selecting empty same => exact .selecting (buffer.trans empty) (by rw [taken, flushed, same])
  | writing empty last => exact .writing (buffer.trans empty) (by rw [taken, flushed, last])
  | flushing rest last => exact .flushing (by rw [buffer, rest]) (by rw [taken, flushed, last])
  | replied empty same last => exact .replied (buffer.trans empty) (by rw [taken, flushed, same]) (by rwa [flushed])
  | failing begins last => exact .failing begins (by rw [taken, flushed, last])
  | clean left same => exact .clean left (by rw [taken, flushed, same])
  | broken left begins last => exact .broken left begins (by rw [taken, flushed, last])

private theorem Framed.step (framed : Framed frames l) (moves : Moves frames l move l') : Framed frames l' := by
  cases moves with
  | call | accept | refuse | receive | shutdown => exact framed.congr rfl rfl rfl rfl rfl
  | take loop =>
    obtain ⟨part, on_wire, progress⟩ := framed
    rw [loop] at progress
    cases progress with
    | selecting empty same => exact ⟨[], on_wire, .writing empty (by rw [same])⟩
    | clean left | broken left => simp [Phase.loops] at left
  | stop loop =>
    obtain ⟨part, on_wire, progress⟩ := framed
    rw [loop] at progress
    cases progress with
    | selecting empty same => exact ⟨[], on_wire, .clean rfl same⟩
    | clean left | broken left => simp [Phase.loops] at left
  | @write handed ok req writing =>
    obtain ⟨part, on_wire, progress⟩ := framed
    rw [writing] at progress
    cases progress with
    | writing empty last =>
      rw [empty, List.nil_append]
      refine ⟨(frames req.body).take handed, by simp [on_wire], ?_⟩
      cases ok with
      | true => exact .flushing (List.take_append_drop handed _) last
      | false => exact .failing (List.take_prefix handed _) last
    | clean left | broken left => simp [Phase.loops] at left
  | @flushed handed req flushing =>
    obtain ⟨part, on_wire, progress⟩ := framed
    rw [flushing] at progress
    cases progress with
    | flushing rest last =>
      refine ⟨[], ?_, .replied rfl last (by simp)⟩
      simp [on_wire, transcript, rest]
    | clean left | broken left => simp [Phase.loops] at left
  | @flushFailed handed req flushing =>
    obtain ⟨part, on_wire, progress⟩ := framed
    rw [flushing] at progress
    cases progress with
    | flushing rest last =>
      refine ⟨part ++ l.buffer.take handed, by simp [on_wire], .failing ?_ last⟩
      rw [← rest]
      exact (List.prefix_append_right_inj part).2 (List.take_prefix handed _)
    | clean left | broken left => simp [Phase.loops] at left
  | @reply req ok replying =>
    obtain ⟨part, on_wire, progress⟩ := framed
    rw [replying] at progress
    cases progress with
    | replied empty same => exact ⟨[], on_wire, .selecting empty same⟩
    | failing begins last => exact ⟨part, on_wire, .broken rfl begins last⟩
    | clean left | broken left => simp [Phase.loops] at left
  | leave leaving =>
    obtain ⟨part, on_wire, progress⟩ := framed
    rw [leaving] at progress
    cases progress with
    | clean _ same => exact ⟨[], on_wire, .clean rfl same⟩
    | broken _ begins last => exact ⟨part, on_wire, .broken rfl begins last⟩

theorem framed_of_reachable (reached : (pump frames).Reachable anyStep l) : Framed frames l :=
  reached.invariant .init fun _ framed _ stepped => framed.step (moves_of_step stepped)

/-- What the pump has taken is what it has flushed, and at most one more. -/
theorem Progress.taken_eq {phase : Phase α} {part : List UInt8} (progress : Progress frames l phase part) :
    (part = [] ∧ l.taken = l.flushed) ∨ ∃ req, l.taken = l.flushed ++ [req] ∧ part <+: frames req.body := by
  cases progress with
  | selecting _ same | replied _ same | clean _ same => exact .inl ⟨rfl, same⟩
  | writing _ last => exact .inr ⟨_, last, List.nil_prefix⟩
  | flushing rest last => exact .inr ⟨_, last, ⟨_, rest⟩⟩
  | failing begins last | broken _ begins last => exact .inr ⟨_, last, begins⟩

private theorem Progress.flushed_prefix {phase : Phase α} {part : List UInt8}
    (progress : Progress frames l phase part) :
    l.flushed <+: l.taken := by
  rcases progress.taken_eq with ⟨-, same⟩ | ⟨req, last, -⟩
  · exact same ▸ List.prefix_rfl
  · exact last ▸ List.prefix_append _ _

/-- The request in the pump's hands is among those it has taken. -/
theorem Progress.current_taken {phase : Phase α} {part : List UInt8} {req : Request α}
    (progress : Progress frames l phase part) (current : phase.current = some req) : req ∈ l.taken := by
  cases progress with
  | selecting => cases current
  | writing _ last | flushing _ last | failing _ last =>
    cases current
    rw [last]
    exact List.mem_append_right _ (List.mem_singleton_self _)
  | replied _ same last =>
    cases current
    rwa [same]
  | clean left | broken left => cases phase <;> simp [Phase.loops, Phase.current] at left current

/-- The requests that have entered the channel, in order. -/
def Link.accepted (l : Link α) : List (Request α) := l.taken ++ l.writeCh

/-- The calls of one goroutine follow each other: each is accepted after the earlier ones. -/
structure Sequenced (l : Link α) : Prop where
  ordered : l.accepted.Pairwise fun a b => a.sender = b.sender → a.call < b.call
  begun : ∀ a ∈ l.accepted, a.call < l.calls a.sender
  ended : ∀ r ∈ l.finished, r.1.call < l.calls r.1.sender
  selecting : ∀ g req, l.sender g = .selecting req → req.sender = g ∧ req.call < l.calls g ∧
    (∀ a ∈ l.accepted, a.sender = g → a.call < req.call) ∧ ∀ r ∈ l.finished, r.1.sender = g → r.1.call < req.call
  waiting : ∀ g req, l.sender g = .waiting req → req.sender = g ∧ req ∈ l.accepted
  refused : ∀ req, (req, Outcome.closed) ∈ l.finished → req ∉ l.accepted

namespace Sequenced

private theorem init : Sequenced ({} : Link α) where
  ordered := List.Pairwise.nil
  begun _ mem := absurd mem List.not_mem_nil
  ended _ mem := absurd mem List.not_mem_nil
  selecting _ _ stands := by simp at stands
  waiting _ _ stands := by simp at stands
  refused _ mem := absurd mem List.not_mem_nil

private theorem congr (sequenced : Sequenced l) (sender : l'.sender = l.sender) (calls : l'.calls = l.calls)
    (accepted : l'.accepted = l.accepted) (finished : l'.finished = l.finished) : Sequenced l' := by
  obtain ⟨ordered, begun, ended, selecting, waiting, refused⟩ := sequenced
  constructor <;> simp only [sender, calls, accepted, finished] <;> assumption

/-- A call of `send` returns, refused before it was accepted or answered after. -/
theorem returns (sequenced : Sequenced l) {g : ℕ} {req : Request α} {outcome : Outcome} (own : req.sender = g)
    (begun : req.call < l.calls g) (refusal : outcome = .closed → req ∉ l.accepted) :
    Sequenced { l.setSender g .idle with finished := l.finished ++ [(req, outcome)] } := by
  refine ⟨sequenced.ordered, sequenced.begun, ?_, ?_, ?_, ?_⟩
  · intro r mem
    rcases List.mem_append.1 mem with before | last
    · exact sequenced.ended r before
    · cases List.mem_singleton.1 last
      rwa [← own] at begun
  · intro g' req' stands
    simp only [Link.setSender, Function.update_apply] at stands
    split_ifs at stands with same
    obtain ⟨own', begun', later', after'⟩ := sequenced.selecting g' req' stands
    refine ⟨own', begun', later', fun r mem mine => ?_⟩
    rcases List.mem_append.1 mem with before | last
    · exact after' r before mine
    · cases List.mem_singleton.1 last
      exact absurd (mine.symm.trans own) same
  · intro g' req' stands
    simp only [Link.setSender, Function.update_apply] at stands
    split_ifs at stands
    exact sequenced.waiting g' req' stands
  · intro req' returned
    rcases List.mem_append.1 returned with before | last
    · exact sequenced.refused req' before
    · cases List.mem_singleton.1 last
      exact refusal rfl

private theorem step (sequenced : Sequenced l) (moves : Moves frames l move l') : Sequenced l' := by
  cases moves with
  | @call g body idle =>
    have mono : ∀ g', l.calls g' ≤ Function.update l.calls g (l.calls g + 1) g' := by
      intro g'
      rw [Function.update_apply]
      split_ifs with same
      · rw [same]
        omega
      · exact Nat.le_refl _
    refine ⟨sequenced.ordered, fun a mem => Nat.lt_of_lt_of_le (sequenced.begun a mem) (mono _),
      fun r mem => Nat.lt_of_lt_of_le (sequenced.ended r mem) (mono _), ?_, ?_, sequenced.refused⟩
    · intro g' req stands
      simp only [Link.setSender, Function.update_apply] at stands
      split_ifs at stands with same
      · cases stands
        subst same
        refine ⟨rfl, by simp, fun a mem own => ?_, fun r mem own => ?_⟩
        · have := sequenced.begun a mem
          rwa [own] at this
        · have := sequenced.ended r mem
          rwa [own] at this
      · obtain ⟨own, begun, rest⟩ := sequenced.selecting g' req stands
        exact ⟨own, Nat.lt_of_lt_of_le begun (mono _), rest⟩
    · intro g' req stands
      simp only [Link.setSender, Function.update_apply] at stands
      split_ifs at stands
      exact sequenced.waiting g' req stands
  | @accept g req selecting room =>
    obtain ⟨own, begun, later, after⟩ := sequenced.selecting g req selecting
    have accepted : ∀ r, r ∈ l.taken ++ (l.writeCh ++ [req]) ↔ r ∈ l.accepted ∨ r = req := by
      simp [Link.accepted, or_assoc]
    refine ⟨?_, ?_, sequenced.ended, ?_, ?_, ?_⟩
    · simp only [Link.accepted, Link.setSender, ← List.append_assoc]
      refine List.pairwise_append.2 ⟨sequenced.ordered, List.pairwise_singleton _ _, ?_⟩
      intro a mem b last same
      obtain rfl := List.mem_singleton.1 last
      exact later a mem (same.trans own)
    · intro a mem
      rcases (accepted a).1 mem with before | rfl
      · exact sequenced.begun a before
      · rwa [own]
    · intro g' req' stands
      simp only [Link.setSender, Function.update_apply] at stands
      split_ifs at stands with same
      obtain ⟨own', begun', later', after'⟩ := sequenced.selecting g' req' stands
      refine ⟨own', begun', fun a mem mine => ?_, after'⟩
      rcases (accepted a).1 mem with before | rfl
      · exact later' a before mine
      · exact absurd (mine.symm.trans own) same
    · intro g' req' stands
      simp only [Link.setSender, Function.update_apply] at stands
      split_ifs at stands with same
      · cases stands
        exact ⟨own.trans same.symm, (accepted req).2 (.inr rfl)⟩
      · obtain ⟨own', mem⟩ := sequenced.waiting g' req' stands
        exact ⟨own', (accepted req').2 (.inl mem)⟩
    · intro req' returned mem
      rcases (accepted req').1 mem with before | rfl
      · exact sequenced.refused req' returned before
      · exact absurd (after _ returned own) (Nat.lt_irrefl _)
  | @refuse g req selecting closed =>
    obtain ⟨own, begun, later, -⟩ := sequenced.selecting g req selecting
    exact sequenced.returns own begun fun _ mem => absurd (later _ mem own) (Nat.lt_irrefl _)
  | @receive g req ok waiting answer =>
    obtain ⟨own, mem⟩ := sequenced.waiting g req waiting
    have unrefused : (if ok then Outcome.written else .failed) ≠ .closed := by cases ok <;> simp
    refine (sequenced.returns own ?_ fun refused => absurd refused unrefused).congr rfl rfl rfl rfl
    exact own ▸ sequenced.begun req mem
  | @take req rest loop head =>
    refine sequenced.congr rfl rfl ?_ rfl
    simp [Link.accepted, head]
  | shutdown | stop | write | flushed | flushFailed | reply | leave => exact sequenced.congr rfl rfl rfl rfl

end Sequenced

theorem sequenced_of_reachable (reached : (pump frames).Reachable anyStep l) : Sequenced l :=
  reached.invariant .init fun _ sequenced _ stepped => sequenced.step (moves_of_step stepped)

/-- A flushed request has returned nil from `send`, or its answer is on the way to a waiting goroutine. -/
def Link.Confirmed (l : Link α) (req : Request α) : Prop :=
  (req, Outcome.written) ∈ l.finished ∨
    l.sender req.sender = .waiting req ∧ (l.err (req.sender, req.call) = some true ∨ l.phase = .replying req true)

/-- The answers of the pump tell whether the frame was flushed. -/
structure Truthful (l : Link α) : Prop where
  posted : ∀ g n, l.err (g, n) ≠ none → ∃ req, l.sender g = .waiting req ∧ req.call = n
  unanswered : ∀ req, req ∈ l.writeCh ∨ l.phase.current = some req →
    l.sender req.sender = .waiting req ∧ l.err (req.sender, req.call) = none
  answers : ∀ g req, l.sender g = .waiting req → l.err (g, req.call) = some true → req ∈ l.flushed
  written : ∀ req, (req, Outcome.written) ∈ l.finished → req ∈ l.flushed
  confirmed : ∀ req ∈ l.flushed, l.Confirmed req

namespace Truthful

private theorem init : Truthful ({} : Link α) where
  posted _ _ answer := by simp at answer
  unanswered req stands := by simp [Phase.current] at stands
  answers _ _ stands := by simp at stands
  written _ mem := absurd mem List.not_mem_nil
  confirmed _ mem := absurd mem List.not_mem_nil

/-- The pump's own steps between taking a request and flushing or answering it. -/
theorem advance (truthful : Truthful l) (sender : l'.sender = l.sender) (writeCh : l'.writeCh = l.writeCh)
    (err : l'.err = l.err) (finished : l'.finished = l.finished) (flushed : l'.flushed = l.flushed)
    (current : ∀ req, l'.phase.current = some req → l.phase.current = some req)
    (replying : ∀ req, l.phase = .replying req true → l'.phase = .replying req true) : Truthful l' := by
  refine ⟨?_, fun req stands => ?_, ?_, ?_, fun req mem => ?_⟩
  · rw [sender, err]
    exact truthful.posted
  · rw [sender, err]
    rw [writeCh] at stands
    exact truthful.unanswered req (stands.imp_right (current req))
  · rw [sender, err, flushed]
    exact truthful.answers
  · rw [finished, flushed]
    exact truthful.written
  · rw [flushed] at mem
    unfold Link.Confirmed
    rw [sender, err, finished]
    exact (truthful.confirmed req mem).imp_right (And.imp_right (Or.imp_right (replying req)))

/-- A goroutine that is not waiting moves in `send`; those that wait still do. -/
theorem enter (truthful : Truthful l) {g : ℕ} (other : ∀ req, l.sender g ≠ .waiting req) (sender : Sender α)
    (sent : l'.sender = Function.update l.sender g sender) (err : l'.err = l.err) (phase : l'.phase = l.phase)
    (flushed : l'.flushed = l.flushed)
    (finished : ∀ req, (req, Outcome.written) ∈ l'.finished ↔ (req, Outcome.written) ∈ l.finished)
    (writeCh : ∀ req, req ∈ l'.writeCh → req ∈ l.writeCh ∨ req.sender = g ∧ sender = .waiting req) :
    Truthful l' := by
  have quiet : ∀ n, l.err (g, n) = none := by
    intro n
    by_contra answer
    obtain ⟨req, waiting, -⟩ := truthful.posted g n answer
    exact other req waiting
  have stays : ∀ {g' req}, l.sender g' = .waiting req → l'.sender g' = .waiting req := by
    intro g' req waiting
    have ne : g' ≠ g := by
      rintro rfl
      exact other req waiting
    rwa [sent, Function.update_of_ne ne]
  refine ⟨fun g' n answer => ?_, fun req stands => ?_, fun g' req waiting answer => ?_, fun req mem => ?_,
    fun req mem => ?_⟩
  · rw [err] at answer
    obtain ⟨req, waiting, call⟩ := truthful.posted g' n answer
    exact ⟨req, stays waiting, call⟩
  · rw [err]
    rw [phase] at stands
    rcases stands with buffered | current
    · rcases writeCh req buffered with before | ⟨own, rfl⟩
      · exact (truthful.unanswered req (.inl before)).imp_left stays
      · exact ⟨by rw [sent, own, Function.update_self], by rw [own, quiet]⟩
    · exact (truthful.unanswered req (.inr current)).imp_left stays
  · rw [err] at answer
    rw [sent, Function.update_apply] at waiting
    split_ifs at waiting with same
    · rw [same, quiet] at answer
      cases answer
    · rw [flushed]
      exact truthful.answers g' req waiting answer
  · rw [flushed]
    exact truthful.written req ((finished req).1 mem)
  · rw [flushed] at mem
    unfold Link.Confirmed
    rw [finished, err, phase]
    exact (truthful.confirmed req mem).imp_right (And.imp_left stays)

private theorem receive (truthful : Truthful l) (sequenced : Sequenced l) {g : ℕ} {req : Request α} {ok : Bool}
    (waiting : l.sender g = .waiting req) (answer : l.err (g, req.call) = some ok) :
    Truthful { l.setSender g .idle with
      err := Function.update l.err (g, req.call) none
      finished := l.finished ++ [(req, if ok then .written else .failed)] } := by
  obtain ⟨rfl, -⟩ := sequenced.waiting g req waiting
  -- Whoever else waits is another goroutine, and its answer channel is another one.
  have stays : ∀ {g' req'}, l.sender g' = .waiting req' → req' ≠ req → g' ≠ req.sender := by
    rintro g' req' waiting' ne rfl
    rw [waiting] at waiting'
    cases waiting'
    exact ne rfl
  refine ⟨fun g' n answer' => ?_, fun req' stands => ?_, fun g' req' waiting' answer' => ?_, fun req' mem => ?_,
    fun req' mem => ?_⟩
  · dsimp only at answer'
    rw [Function.update_apply] at answer'
    split_ifs at answer' with same
    · exact absurd rfl answer'
    · obtain ⟨req', waiting', call⟩ := truthful.posted g' n answer'
      have ne : g' ≠ req.sender := by
        rintro rfl
        rw [waiting] at waiting'
        cases waiting'
        exact same (by rw [call])
      exact ⟨req', by simpa [Link.setSender, Function.update_of_ne ne] using waiting', call⟩
  · obtain ⟨waiting', silent⟩ := truthful.unanswered req' stands
    have ne := stays waiting' (by rintro rfl; simp [silent] at answer)
    exact ⟨by simpa [Link.setSender, Function.update_of_ne ne] using waiting',
      by simpa [Function.update_apply] using fun _ => silent⟩
  · simp only [Link.setSender, Function.update_apply] at waiting'
    split_ifs at waiting' with same
    refine truthful.answers g' req' waiting' ?_
    dsimp only at answer'
    rwa [Function.update_of_ne (by simp [same])] at answer'
  · rcases List.mem_append.1 mem with before | last
    · exact truthful.written req' before
    · cases ok with
      | true =>
        obtain rfl : req' = req := by simpa using last
        exact truthful.answers _ _ waiting answer
      | false => simp at last
  · rcases truthful.confirmed req' mem with done | ⟨waiting', answer'⟩
    · exact .inl (List.mem_append_left _ done)
    · by_cases same : req' = req
      · subst same
        refine .inl (List.mem_append_right _ ?_)
        rcases answer' with posted | replying
        · rw [posted] at answer
          cases answer
          simp
        · have silent := (truthful.unanswered req' (.inr (by rw [replying]; rfl))).2
          simp [silent] at answer
      · have ne := stays waiting' same
        refine .inr ⟨by simpa [Link.setSender, Function.update_of_ne ne] using waiting', ?_⟩
        simpa [Link.setSender, Function.update_apply, ne] using answer'

private theorem reply (truthful : Truthful l) (framed : Framed frames l) (sequenced : Sequenced l) {req : Request α}
    {ok : Bool} (replying : l.phase = .replying req ok) :
    Truthful { l with
      err := Function.update l.err (req.sender, req.call) (some ok)
      phase := if ok then .selecting else .leaving } := by
  obtain ⟨part, -, progress⟩ := framed
  have current : l.phase.current = some req := by rw [replying]; rfl
  have taken := progress.current_taken current
  have waiting := (truthful.unanswered req (.inr current)).1
  have idle : (if ok then Phase.selecting else .leaving : Phase α).current = none := by cases ok <;> rfl
  refine ⟨fun g n answer => ?_, fun req' stands => ?_, fun g req' waiting' answer => ?_, truthful.written,
    fun req' mem => ?_⟩
  · dsimp only at answer
    rw [Function.update_apply] at answer
    split_ifs at answer with same
    · cases same
      exact ⟨req, waiting, rfl⟩
    · exact truthful.posted g n answer
  · rw [idle] at stands
    have buffered : req' ∈ l.writeCh := by simpa using stands
    obtain ⟨waiting', silent⟩ := truthful.unanswered req' (.inl buffered)
    refine ⟨waiting', ?_⟩
    have ne : (req'.sender, req'.call) ≠ (req.sender, req.call) := by
      intro same
      obtain ⟨sender, call⟩ := Prod.mk.inj same
      have earlier := (List.pairwise_append.1 sequenced.ordered).2.2 req taken req' buffered sender.symm
      omega
    dsimp only
    rwa [Function.update_of_ne ne]
  · dsimp only at answer
    rw [Function.update_apply] at answer
    split_ifs at answer with same
    · cases answer
      obtain ⟨rfl, -⟩ := Prod.mk.inj same
      rw [waiting] at waiting'
      cases waiting'
      rw [replying] at progress
      cases progress with
      | replied _ _ last => exact last
      | clean left | broken left => simp [Phase.loops] at left
    · exact truthful.answers g req' waiting' answer
  · rcases truthful.confirmed req' mem with done | ⟨waiting', answer⟩
    · exact .inl done
    · refine .inr ⟨waiting', .inl ?_⟩
      dsimp only
      rw [Function.update_apply]
      rcases answer with posted | replying'
      · split_ifs with same
        · rw [same, (truthful.unanswered req (.inr current)).2] at posted
          cases posted
        · exact posted
      · rw [replying] at replying'
        cases replying'
        rw [if_pos rfl]

private theorem step (truthful : Truthful l) (framed : Framed frames l) (sequenced : Sequenced l)
    (moves : Moves frames l move l') : Truthful l' := by
  cases moves with
  | @call g body idle =>
    exact truthful.enter (fun req => by simp [idle]) _ rfl rfl rfl rfl (fun _ => Iff.rfl) fun _ mem => .inl mem
  | @accept g req selecting room =>
    refine truthful.enter (fun req => by simp [selecting]) _ rfl rfl rfl rfl (fun _ => Iff.rfl) fun req' mem => ?_
    rcases List.mem_append.1 mem with before | last
    · exact .inl before
    · obtain rfl := List.mem_singleton.1 last
      exact .inr ⟨(sequenced.selecting g req' selecting).1, rfl⟩
  | @refuse g req selecting closed =>
    exact truthful.enter (fun req => by simp [selecting]) _ rfl rfl rfl rfl (fun _ => by simp) fun _ mem => .inl mem
  | receive waiting answer => exact truthful.receive sequenced waiting answer
  | shutdown => exact truthful.advance rfl rfl rfl rfl rfl (fun _ => id) (fun _ => id)
  | @take req rest loop head =>
    refine ⟨truthful.posted, fun req' stands => truthful.unanswered req' (.inl ?_), truthful.answers, truthful.written,
      fun req' mem => ?_⟩
    · rw [head]
      rcases stands with later | current
      · exact List.mem_cons_of_mem _ later
      · cases current
        exact List.mem_cons_self
    · exact (truthful.confirmed req' mem).imp_right (And.imp_right (Or.imp_right fun replying => by
        simp [loop] at replying))
  | stop loop =>
    exact truthful.advance rfl rfl rfl rfl rfl (fun _ current => by cases current) fun _ replying => by
      simp [loop] at replying
  | @write handed ok req writing =>
    refine truthful.advance rfl rfl rfl rfl rfl (fun req' current => ?_) fun _ replying => by simp [writing] at replying
    rw [writing]
    cases ok <;> exact current
  | @flushed handed req flushing =>
    have current : l.phase.current = some req := by rw [flushing]; rfl
    refine ⟨truthful.posted, fun req' stands => truthful.unanswered req' ?_, fun g req' waiting answer => ?_,
      fun req' mem => List.mem_append_left _ (truthful.written req' mem), fun req' mem => ?_⟩
    · rw [current]
      exact stands
    · exact List.mem_append_left _ (truthful.answers g req' waiting answer)
    · rcases List.mem_append.1 mem with before | last
      · exact (truthful.confirmed req' before).imp_right (And.imp_right (Or.imp_right fun replying => by
          simp [flushing] at replying))
      · obtain rfl := List.mem_singleton.1 last
        exact .inr ⟨(truthful.unanswered req' (.inr current)).1, .inr rfl⟩
  | flushFailed flushing =>
    refine truthful.advance rfl rfl rfl rfl rfl (fun req' current => ?_) fun _ replying => by
      simp [flushing] at replying
    rw [flushing]
    exact current
  | reply replying => exact truthful.reply framed sequenced replying
  | leave leaving =>
    exact truthful.advance rfl rfl rfl rfl rfl (fun _ current => by cases current) fun _ replying => by
      simp [leaving] at replying

end Truthful

theorem truthful_of_reachable (reached : (pump frames).Reachable anyStep l) : Truthful l :=
  reached.invariant .init fun before truthful _ stepped =>
    truthful.step (framed_of_reachable before) (sequenced_of_reachable before) (moves_of_step stepped)

section Envelopes

variable {marshal : α → List UInt8} {unmarshal : List UInt8 → Option α}

/-- `json.Marshal` on booleans: the texts `true` and `false`. -/
def marshalBool : Bool → List UInt8
  | true => [116, 114, 117, 101]
  | false => [102, 97, 108, 115, 101]

/-- `json.Unmarshal` into a boolean, for the two lines that `marshalBool` makes. -/
def unmarshalBool (line : List UInt8) : Option Bool :=
  [true, false].find? fun env => line = frame marshalBool env

/-- The flushed frames stand on the wire in the order in which the pump took them, each once and whole, and
are read back as they were written; what follows them is a part of one frame that was not flushed. -/
theorem frames_survive (clean : ∀ env, newline ∉ marshal env)
    (inverse : ∀ env, unmarshal (frame marshal env) = some env)
    (reached : (pump (frame marshal)).Reachable anyStep l) :
    (∀ req, (req, Outcome.written) ∈ l.finished → req ∈ l.flushed) ∧
    (∀ req ∈ l.flushed, l.Confirmed req) ∧
    (∀ req, (req, Outcome.closed) ∈ l.finished → req ∉ l.taken) ∧
    l.flushed <+: l.taken ∧
    (l.taken.Pairwise fun a b => a ≠ b ∧ (a.sender = b.sender → a.call < b.call)) ∧
    readEnvelopes unmarshal (transcript (frame marshal) l.flushed) = l.flushed.map Request.body ∧
    ∃ part, l.wire = transcript (frame marshal) l.flushed ++ part ∧
      (part = [] ∨ ∃ req, l.taken = l.flushed ++ [req] ∧ part <+: frame marshal req.body ∧
        (part ≠ frame marshal req.body → readEnvelopes unmarshal l.wire = l.flushed.map Request.body)) := by
  have sequenced := sequenced_of_reachable reached
  have truthful := truthful_of_reachable reached
  obtain ⟨part, wire, progress⟩ := framed_of_reachable reached
  have reads (rest : List UInt8) : readEnvelopes unmarshal (transcript (frame marshal) l.flushed ++ rest) =
      l.flushed.map Request.body ++ readEnvelopes unmarshal rest := by
    rw [← readEnvelopes_frames clean inverse, transcript, List.flatMap_map]
  refine ⟨truthful.written, truthful.confirmed, fun req closed mem => ?_, progress.flushed_prefix, ?_, ?_,
    part, wire, ?_⟩
  · exact sequenced.refused req closed (List.mem_append_left _ mem)
  · refine ((List.pairwise_append.1 sequenced.ordered).1).imp fun {a b} earlier => ⟨?_, earlier⟩
    rintro rfl
    exact absurd (earlier rfl) (Nat.lt_irrefl _)
  · have read := reads []
    rwa [readEnvelopes_unterminated List.not_mem_nil, List.append_nil, List.append_nil] at read
  · rcases progress.taken_eq with ⟨empty, -⟩ | ⟨req, last, begins⟩
    · exact .inl empty
    · refine .inr ⟨req, last, begins, fun partly => ?_⟩
      rw [wire, reads]
      rcases readEnvelopes_of_isPrefix clean inverse begins with nothing | ⟨whole, -⟩
      · rw [nothing, List.append_nil]
      · exact absurd whole partly

/-- Two goroutines write at the same time, and a third finds the connection closed. -/
theorem frames_survive_two_senders :
    let l := (pump (frame marshalBool)).replay anyStep
      [.call 0 true, .call 1 false, .accept 1, .take, .call 2 true, .accept 0, .write 2 true, .flush 0 true, .reply,
        .receive 1, .take, .shutdown, .refuse 2, .write 0 true, .flush 3 true, .reply, .receive 0]
    l.finished = [(⟨1, 0, false⟩, .written), (⟨2, 0, true⟩, .closed), (⟨0, 0, true⟩, .written)] ∧
      readEnvelopes unmarshalBool (transcript (frame marshalBool) l.flushed) = l.flushed.map Request.body ∧
      l.flushed.map Request.body = [false, true] :=
  have clean : ∀ env, newline ∉ marshalBool env := by decide
  have inverse : ∀ env, unmarshalBool (frame marshalBool env) = some env := by decide
  ⟨by decide, (frames_survive clean inverse (.of_replay _)).2.2.2.2.2.1, by decide⟩

end Envelopes

end GolangMQ.Transport
