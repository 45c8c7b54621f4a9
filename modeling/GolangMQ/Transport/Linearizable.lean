import GolangMQ.Machine.Linearizability
import GolangMQ.Transport.Framing

/-! # Sending is atomic

To those who write to it, a connection is a log: a call of `send` appends its frame, or breaks the log, or is refused
because the connection is closed, and it does so at one moment between its call and its return. The pump flushes or
fails at that moment, and a refused call reads the closed channel there. Nothing is appended to a broken log, while a
call that was refused does not keep later calls from being written: shutdown leaves the pump to the `select` of both
sides.
-/

namespace GolangMQ.Transport

open Machine

/-- What a connection is to its writers. -/
structure FrameLog (α : Type*) where
  log : List α := []
  broken : Bool := false

/-- One call of `send`, with what it returns. -/
def FrameLog.send {α : Type*} (w : FrameLog α) : Request α × Outcome → Option (FrameLog α)
  | (req, .written) => if w.broken then none else some { w with log := w.log ++ [req.body] }
  | (_, .failed) => if w.broken then none else some { w with broken := true }
  | (_, .closed) => some w

/-- The log as a sequential object. -/
def frameLog (α : Type*) : Machine (FrameLog α) (Request α × Outcome) where
  init := {}
  step? := FrameLog.send

/-- What `send` returns for an answer of the pump. -/
def Outcome.ofAnswer (ok : Bool) : Outcome := if ok then .written else .failed

variable {α : Type*} {frames : α → List UInt8} {l l' : Link α} {move : Move α}

/-- The calls of `send` and their returns, as the goroutines see them. -/
def Link.seen (l : Link α) : Move α → List (Event (Request α) Outcome)
  | .call g body => [.call ⟨g, l.calls g, body⟩]
  | .refuse g =>
    match l.sender g with
    | .selecting req => [.ret req .closed]
    | _ => []
  | .receive g =>
    match l.sender g with
    | .waiting req => (l.err (g, req.call)).toList.map fun ok => .ret req (.ofAnswer ok)
    | _ => []
  | _ => []

/-- A call that has not taken effect: it stands in the `select`, or waits and the pump has not decided on it. -/
def Link.Undecided (l : Link α) (req : Request α) : Prop :=
  l.sender req.sender = .selecting req ∨
    l.sender req.sender = .waiting req ∧ l.err (req.sender, req.call) = none ∧ ∀ ok, l.phase ≠ .replying req ok

/-- The pump has not failed. -/
def Phase.healthy : Phase α → Bool
  | .selecting | .writing _ | .flushing _ | .replying _ true => true
  | _ => false

/-- The order in which calls have taken effect, compared with the state of the pump. -/
structure Explained (l : Link α) (history : List (Event (Request α) Outcome)) (order : List (Request α × Outcome))
    (final : FrameLog α) : Prop where
  lin : Linearization (frameLog α) history order final
  log : final.log = l.flushed.map Request.body
  flushed : ∀ req, (req, .written) ∈ order → req ∈ l.flushed
  healthy : l.phase.healthy = true → final.broken = false
  begun : ∀ entry ∈ order, entry.1.call < l.calls entry.1.sender
  called : ∀ g req, l.sender g = .selecting req ∨ l.sender g = .waiting req → .call req ∈ history
  accepted : ∀ req ∈ l.accepted, .call req ∈ history
  undecided : ∀ req, l.Undecided req → ∀ r, (req, r) ∉ order
  replying : ∀ req ok, l.phase = .replying req ok → (req, .ofAnswer ok) ∈ order
  answered : ∀ g req ok, l.sender g = .waiting req → l.err (g, req.call) = some ok → (req, .ofAnswer ok) ∈ order

namespace Explained

variable {history : List (Event (Request α) Outcome)} {order : List (Request α × Outcome)} {final next : FrameLog α}

private theorem init : Explained ({} : Link α) [] [] {} where
  lin := .nil
  log := rfl
  flushed _ member := absurd member List.not_mem_nil
  healthy _ := rfl
  begun _ member := absurd member List.not_mem_nil
  called _ _ stands := by simp at stands
  accepted _ member := absurd member List.not_mem_nil
  undecided _ _ _ := List.not_mem_nil
  replying _ _ stands := by simp at stands
  answered _ _ _ stands := by simp at stands

/-- A step in which no call takes effect. -/
theorem carry (explained : Explained l history order final) {history' : List (Event (Request α) Outcome)}
    (lin : Linearization (frameLog α) history' order final) (flushed : l'.flushed = l.flushed)
    (healthy : l'.phase.healthy = true → l.phase.healthy = true) (calls : ∀ g, l.calls g ≤ l'.calls g)
    (called : ∀ g req, l'.sender g = .selecting req ∨ l'.sender g = .waiting req → .call req ∈ history')
    (accepted : ∀ req ∈ l'.accepted, .call req ∈ history')
    (undecided : ∀ req, l'.Undecided req → l.Undecided req ∨ ∀ r, (req, r) ∉ order)
    (replying : ∀ req ok, l'.phase = .replying req ok → l.phase = .replying req ok)
    (answered : ∀ g req ok, l'.sender g = .waiting req → l'.err (g, req.call) = some ok →
      l.sender g = .waiting req ∧ l.err (g, req.call) = some ok ∨ l.phase = .replying req ok) :
    Explained l' history' order final where
  lin
  log := by rw [flushed, explained.log]
  flushed := by rw [flushed]; exact explained.flushed
  healthy well := explained.healthy (healthy well)
  begun entry member := Nat.lt_of_lt_of_le (explained.begun entry member) (calls _)
  called
  accepted
  undecided req stands := (undecided req stands).elim (explained.undecided req) id
  replying req ok stands := explained.replying req ok (replying req ok stands)
  answered g req ok stands answer := by
    rcases answered g req ok stands answer with ⟨before, same⟩ | now
    · exact explained.answered g req ok before same
    · exact explained.replying req ok now

/-- The pump decides on the request in its hands. -/
theorem settle (explained : Explained l history order final) (truthful : Truthful l) (sequenced : Sequenced l)
    {req : Request α} {ok : Bool} (current : l.phase.current = some req)
    (silent : ∀ req' ok', l.phase ≠ .replying req' ok') (sent : final.send (req, .ofAnswer ok) = some next)
    (phase : l'.phase = .replying req ok) (sender : l'.sender = l.sender) (calls : l'.calls = l.calls)
    (accepted : l'.accepted = l.accepted) (err : l'.err = l.err) (log : next.log = l'.flushed.map Request.body)
    (flushed : l'.flushed = if ok then l.flushed ++ [req] else l.flushed) (unbroken : ok = true → next.broken = false) :
    Explained l' history (order ++ [(req, .ofAnswer ok)]) next := by
  obtain ⟨waiting, unanswered⟩ := truthful.unanswered req (.inr current)
  have fresh := explained.undecided req (.inr ⟨waiting, unanswered, silent req⟩)
  refine
    { lin := explained.lin.commit (explained.called _ req (.inr waiting)) fresh sent
      log
      flushed := fun req' member => ?_
      healthy := fun well => ?_
      begun := fun entry member => ?_
      called := by rw [sender]; exact explained.called
      accepted := by rw [accepted]; exact explained.accepted
      undecided := fun req' stands r member => ?_
      replying := fun req' ok' stands => ?_
      answered := fun g req' ok' stands answer => ?_ }
  · rcases List.mem_append.1 member with before | last
    · rw [flushed]
      split
      · exact List.mem_append_left _ (explained.flushed req' before)
      · exact explained.flushed req' before
    · cases ok with
      | true =>
        cases List.mem_singleton.1 last
        simp [flushed]
      | false => simp [Outcome.ofAnswer] at last
  · rw [phase] at well
    cases ok with
    | true => exact unbroken rfl
    | false => simp [Phase.healthy] at well
  · rw [calls]
    rcases List.mem_append.1 member with before | last
    · exact explained.begun entry before
    · rw [List.mem_singleton.1 last]
      exact sequenced.begun req (sequenced.waiting _ req waiting).2
  · -- Whoever is still undecided is not the request that the pump has just decided on.
    have other : req' ≠ req ∧ l.Undecided req' := by
      unfold Link.Undecided at stands ⊢
      rw [sender, err, phase] at stands
      rcases stands with selecting | ⟨waiting', silent', apart⟩
      · refine ⟨?_, .inl selecting⟩
        rintro rfl
        rw [waiting] at selecting
        cases selecting
      · refine ⟨?_, .inr ⟨waiting', silent', silent req'⟩⟩
        rintro rfl
        exact apart ok rfl
    rcases List.mem_append.1 member with before | last
    · exact explained.undecided req' other.2 r before
    · exact other.1 (congrArg Prod.fst (List.mem_singleton.1 last))
  · rw [phase] at stands
    cases stands
    exact List.mem_append_right _ (List.mem_singleton_self _)
  · rw [sender] at stands
    rw [err] at answer
    exact List.mem_append_left _ (explained.answered g req' ok' stands answer)

/-- A goroutine calls `send`. -/
theorem call (explained : Explained l history order final) (g : ℕ) (body : α) :
    Explained { l.setSender g (.selecting ⟨g, l.calls g, body⟩) with
      calls := Function.update l.calls g (l.calls g + 1) } (history ++ [.call ⟨g, l.calls g, body⟩]) order final := by
  have fresh (r : Outcome) : (⟨g, l.calls g, body⟩, r) ∉ order := fun member =>
    absurd (explained.begun _ member) (Nat.lt_irrefl _)
  refine explained.carry (explained.lin.call fresh) rfl id (fun g' => ?_) (fun g' req stands => ?_)
    (fun req member => List.mem_append_left _ (explained.accepted req member)) (fun req stands => ?_)
    (fun _ _ => id) (fun g' req ok stands answer => .inl ⟨?_, answer⟩)
  · dsimp only
    rw [Function.update_apply]
    split_ifs with same
    · rw [same]
      omega
    · exact Nat.le_refl _
  · simp only [Link.setSender, Function.update_apply] at stands
    split_ifs at stands with same
    · rcases stands with now | never
      · cases now
        exact List.mem_append_right _ (List.mem_singleton_self _)
      · cases never
    · exact List.mem_append_left _ (explained.called g' req stands)
  · by_cases same : req.sender = g
    · simp only [Link.Undecided, Link.setSender, same, Function.update_self] at stands
      rcases stands with now | ⟨never, -⟩
      · cases now
        exact .inr fresh
      · cases never
    · refine .inl ?_
      simpa only [Link.Undecided, Link.setSender, Function.update_of_ne same] using stands
  · simp only [Link.setSender, Function.update_apply] at stands
    split_ifs at stands
    exact stands

/-- A request enters the channel. -/
theorem accept (explained : Explained l history order final) (truthful : Truthful l) (sequenced : Sequenced l) {g : ℕ}
    {req : Request α} (selecting : l.sender g = .selecting req) :
    Explained { l.setSender g (.waiting req) with writeCh := l.writeCh ++ [req] } history order final := by
  have own := (sequenced.selecting g req selecting).1
  have called := explained.called g req (.inl selecting)
  refine explained.carry explained.lin rfl id (fun _ => Nat.le_refl _) (fun g' req' stands => ?_)
    (fun req' member => ?_) (fun req' stands => .inl ?_) (fun _ _ => id) (fun g' req' ok stands answer => .inl ?_)
  · simp only [Link.setSender, Function.update_apply] at stands
    split_ifs at stands with same
    · rcases stands with never | now
      · cases never
      · cases now
        exact called
    · exact explained.called g' req' stands
  · simp only [Link.accepted, Link.setSender, ← List.append_assoc] at member
    rcases List.mem_append.1 member with before | last
    · exact explained.accepted req' before
    · rwa [List.mem_singleton.1 last]
  · by_cases same : req'.sender = g
    · simp only [Link.Undecided, Link.setSender, same, Function.update_self] at stands
      rcases stands with never | ⟨now, -⟩
      · cases never
      · cases now
        exact .inl (own.symm ▸ selecting)
    · simpa only [Link.Undecided, Link.setSender, Function.update_of_ne same] using stands
  · simp only [Link.setSender, Function.update_apply] at stands
    split_ifs at stands with same
    · -- No answer is there for a goroutine that has only now been accepted.
      have answer : l.err (g', req'.call) = some ok := answer
      obtain ⟨_, waiting, -⟩ := truthful.posted g' req'.call (by simp [answer])
      rw [same, selecting] at waiting
      cases waiting
    · exact ⟨stands, answer⟩

/-- A goroutine returns from `send`, and the others stand where they stood. -/
theorem returns (explained : Explained l history order final) {g : ℕ} {req : Request α} {outcome : Outcome}
    (member : (req, outcome) ∈ order) (err : ℕ × ℕ → Option Bool)
    (kept : ∀ g' n, g' ≠ g → err (g', n) = l.err (g', n)) (finished : List (Request α × Outcome)) :
    Explained { l.setSender g .idle with err, finished } (history ++ [.ret req outcome]) order final := by
  refine explained.carry (explained.lin.ret member) rfl id (fun _ => Nat.le_refl _) (fun g' req' stands => ?_)
    (fun req' listed => List.mem_append_left _ (explained.accepted req' listed)) (fun req' stands => .inl ?_)
    (fun _ _ => id) (fun g' req' ok stands answer => .inl ?_)
  · simp only [Link.setSender, Function.update_apply] at stands
    split_ifs at stands
    · simp at stands
    · exact List.mem_append_left _ (explained.called g' req' stands)
  · have other : req'.sender ≠ g := by
      intro same
      simp [Link.Undecided, Link.setSender, same] at stands
    simpa only [Link.Undecided, Link.setSender, Function.update_of_ne other, kept _ _ other] using stands
  · simp only [Link.setSender, Function.update_apply] at stands
    split_ifs at stands with same
    exact ⟨stands, (kept g' _ same).symm.trans answer⟩

/-- A goroutine finds the connection closed; this is where its call takes effect. -/
theorem refuse (explained : Explained l history order final) (sequenced : Sequenced l) {g : ℕ} {req : Request α}
    (selecting : l.sender g = .selecting req) (finished : List (Request α × Outcome)) :
    Explained { l.setSender g .idle with finished } (history ++ [.ret req .closed]) (order ++ [(req, .closed)])
      final := by
  obtain ⟨own, begun, -⟩ := sequenced.selecting g req selecting
  have fresh := explained.undecided req (.inl (own.symm ▸ selecting))
  have called := explained.called g req (.inl selecting)
  have committed : Explained { l.setSender g .idle with finished } history (order ++ [(req, .closed)]) final := by
    refine
      { lin := explained.lin.commit called fresh rfl
        log := explained.log
        flushed := fun req' member => explained.flushed req' (by simpa using member)
        healthy := explained.healthy
        begun := fun entry member => ?_
        called := fun g' req' stands => ?_
        accepted := explained.accepted
        undecided := fun req' stands r member => ?_
        replying := fun req' ok stands => List.mem_append_left _ (explained.replying req' ok stands)
        answered := fun g' req' ok stands answer => List.mem_append_left _ ?_ }
    · rcases List.mem_append.1 member with before | last
      · exact explained.begun entry before
      · rw [List.mem_singleton.1 last]
        exact own.symm ▸ begun
    · simp only [Link.setSender, Function.update_apply] at stands
      split_ifs at stands
      · simp at stands
      · exact explained.called g' req' stands
    · have other : req'.sender ≠ g := by
        intro same
        simp [Link.Undecided, Link.setSender, same] at stands
      have before : l.Undecided req' := by
        simpa only [Link.Undecided, Link.setSender, Function.update_of_ne other] using stands
      rcases List.mem_append.1 member with old | last
      · exact explained.undecided req' before r old
      · cases List.mem_singleton.1 last
        exact other own
    · simp only [Link.setSender, Function.update_apply] at stands
      split_ifs at stands
      exact explained.answered g' req' ok stands answer
  have member : (req, Outcome.closed) ∈ order ++ [(req, .closed)] := List.mem_append_right _ (List.mem_singleton_self _)
  have returned := committed.returns (g := g) member l.err (fun _ _ _ => rfl) finished
  simpa only [Link.setSender, Function.update_idem] using returned

/-- The pump moves on without deciding on a request. -/
theorem proceed (explained : Explained l history order final) (flushed : l'.flushed = l.flushed)
    (sender : l'.sender = l.sender) (calls : l'.calls = l.calls) (accepted : l'.accepted = l.accepted)
    (err : l'.err = l.err) (healthy : l'.phase.healthy = true → l.phase.healthy = true)
    (replying : ∀ req ok, l'.phase = .replying req ok ↔ l.phase = .replying req ok) :
    Explained l' history order final := by
  refine explained.carry explained.lin flushed healthy (fun g => ?_) ?_ ?_ (fun req stands => .inl ?_)
    (fun req ok => (replying req ok).1) (fun g req ok stands answer => .inl ?_)
  · exact Nat.le_of_eq (congrFun calls g).symm
  · rw [sender]
    exact explained.called
  · rw [accepted]
    exact explained.accepted
  · unfold Link.Undecided at stands ⊢
    simpa only [sender, err, ne_eq, replying] using stands
  · rw [← sender, ← err]
    exact ⟨stands, answer⟩

/-- The pump answers the request it has decided on. -/
theorem reply (explained : Explained l history order final) (truthful : Truthful l) {req : Request α} {ok : Bool}
    (replying : l.phase = .replying req ok) :
    Explained { l with
      err := Function.update l.err (req.sender, req.call) (some ok)
      phase := if ok then .selecting else .leaving } history order final := by
  have waiting := (truthful.unanswered req (.inr (by rw [replying]; rfl))).1
  refine explained.carry explained.lin rfl (fun well => ?_) (fun _ => Nat.le_refl _) explained.called
    explained.accepted (fun req' stands => .inl ?_) (fun req' ok' stands => ?_) (fun g req' ok' stands answer => ?_)
  · rw [replying]
    cases ok with
    | true => rfl
    | false => simp [Phase.healthy] at well
  · rcases stands with selecting | ⟨waiting', silent, -⟩
    · exact .inl selecting
    · have other : req' ≠ req := by
        rintro rfl
        simp at silent
      refine .inr ⟨waiting', ?_, fun ok' same => ?_⟩
      · dsimp only at silent
        rw [Function.update_apply] at silent
        split_ifs at silent
        exact silent
      · rw [replying] at same
        cases same
        exact other rfl
  · cases ok <;> simp at stands
  · dsimp only at stands answer
    by_cases same : (g, req'.call) = (req.sender, req.call)
    · obtain ⟨rfl, -⟩ := Prod.mk.inj same
      rw [waiting] at stands
      cases stands
      rw [Function.update_self] at answer
      cases answer
      exact .inr replying
    · rw [Function.update_of_ne same] at answer
      exact .inl ⟨stands, answer⟩

private theorem step (explained : Explained l history order final) (truthful : Truthful l)
    (sequenced : Sequenced l) (moves : Moves frames l move l') :
    ∃ order' final', Explained l' (history ++ l.seen move) order' final' := by
  cases moves with
  | @call g body idle => exact ⟨order, final, explained.call g body⟩
  | @accept g req selecting room =>
    simp only [Link.seen, List.append_nil]
    exact ⟨order, final, explained.accept truthful sequenced selecting⟩
  | @refuse g req selecting closed =>
    simp only [Link.seen, selecting]
    exact ⟨_, _, explained.refuse sequenced selecting _⟩
  | @receive g req ok waiting answer =>
    simp only [Link.seen, waiting, answer, Option.toList_some, List.map_singleton]
    refine ⟨order, final, explained.returns (explained.answered g req ok waiting answer) _ (fun g' n other => ?_) _⟩
    rw [Function.update_of_ne (by simp [other])]
  | shutdown =>
    simp only [Link.seen, List.append_nil]
    exact ⟨order, final, explained.proceed rfl rfl rfl rfl rfl id fun _ _ => Iff.rfl⟩
  | @take req rest loop head =>
    simp only [Link.seen, List.append_nil]
    refine ⟨order, final, explained.proceed rfl rfl rfl ?_ rfl (fun _ => by rw [loop]; rfl) fun _ _ => by simp [loop]⟩
    simp [Link.accepted, head]
  | stop loop closed =>
    simp only [Link.seen, List.append_nil]
    exact ⟨order, final, explained.proceed rfl rfl rfl rfl rfl (by simp [Phase.healthy]) fun _ _ => by simp [loop]⟩
  | @write handed ok req writing =>
    simp only [Link.seen, List.append_nil]
    have unbroken : final.broken = false := explained.healthy (by rw [writing]; rfl)
    cases ok with
    | true =>
      exact ⟨order, final, explained.proceed rfl rfl rfl rfl rfl (fun _ => by rw [writing]; rfl)
        fun _ _ => by simp [writing]⟩
    | false =>
      refine ⟨_, { final with broken := true },
        explained.settle truthful sequenced (by rw [writing]; rfl) (by simp [writing]) ?_ rfl rfl rfl rfl rfl
          explained.log rfl (by simp)⟩
      simp [FrameLog.send, Outcome.ofAnswer, unbroken]
  | @flushed handed req flushing =>
    simp only [Link.seen, List.append_nil]
    have unbroken : final.broken = false := explained.healthy (by rw [flushing]; rfl)
    refine ⟨_, { final with log := final.log ++ [req.body] },
      explained.settle truthful sequenced (by rw [flushing]; rfl) (by simp [flushing])
        ?_ rfl rfl rfl rfl rfl ?_ rfl fun _ => unbroken⟩
    · simp [FrameLog.send, Outcome.ofAnswer, unbroken]
    · simp [explained.log]
  | @flushFailed handed req flushing =>
    simp only [Link.seen, List.append_nil]
    have unbroken : final.broken = false := explained.healthy (by rw [flushing]; rfl)
    refine ⟨_, { final with broken := true },
      explained.settle truthful sequenced (by rw [flushing]; rfl) (by simp [flushing])
        ?_ rfl rfl rfl rfl rfl explained.log rfl (by simp)⟩
    simp [FrameLog.send, Outcome.ofAnswer, unbroken]
  | @reply req ok replying =>
    simp only [Link.seen, List.append_nil]
    exact ⟨order, final, explained.reply truthful replying⟩
  | leave leaving =>
    simp only [Link.seen, List.append_nil]
    exact ⟨order, final, explained.proceed rfl rfl rfl rfl rfl (by simp [Phase.healthy]) fun _ _ => by simp [leaving]⟩

end Explained

/-- Every history of `send` is explained by the order in which its calls took effect. -/
theorem explained_of_reachable {history : List (Event (Request α) Outcome)}
    (reached : ((pump frames).recording Link.seen).Reachable anyStep (l, history)) :
    ∃ order final, Explained l history order final := by
  refine reached.invariant (P := fun state => ∃ order final, Explained state.1 state.2 order final)
    ⟨[], {}, .init⟩ fun {source target move} before explained _ stepped => ?_
  have running := Reachable.of_recording before
  obtain ⟨next, moved, rfl⟩ := Option.map_eq_some_iff.1 stepped
  obtain ⟨order, final, explained⟩ := explained
  exact explained.step (truthful_of_reachable running) (sequenced_of_reachable running) (moves_of_step moved)

/-- For any number of goroutines, any interleaving and any failure of the socket, `send` is linearizable: there is one
order of calls that the log accepts, that agrees with every result and with real time. The wire holds the frames of
that log and then at most a part of one more, whose call was not written. -/
theorem send_linearizable {history : List (Event (Request α) Outcome)}
    (reached : ((pump frames).recording Link.seen).Reachable anyStep (l, history)) :
    ∃ order final, Linearization (frameLog α) history order final ∧
      ∃ part, l.wire = final.log.flatMap frames ++ part ∧
        (part = [] ∨ ∃ req, .call req ∈ history ∧ (req, .written) ∉ order ∧ part <+: frames req.body) := by
  have running := Reachable.of_recording reached
  obtain ⟨order, final, explained⟩ := explained_of_reachable reached
  obtain ⟨part, wire, progress⟩ := framed_of_reachable running
  have written : final.log.flatMap frames = transcript frames l.flushed := by
    rw [explained.log, List.flatMap_map, transcript]
  refine ⟨order, final, explained.lin, part, by rw [wire, written], ?_⟩
  rcases progress.taken_eq with ⟨empty, -⟩ | ⟨req, last, begins⟩
  · exact .inl empty
  · have taken : req ∈ l.taken := last ▸ List.mem_append_right _ (List.mem_singleton_self _)
    refine .inr ⟨req, explained.accepted req (List.mem_append_left _ taken), fun member => ?_, begins⟩
    -- The pump takes each request once, so the one it works on is not among the flushed ones.
    have ordered := (List.pairwise_append.1 (sequenced_of_reachable running).ordered).1
    rw [last] at ordered
    have earlier := (List.pairwise_append.1 ordered).2.2 req (explained.flushed req member) req (by simp) rfl
    exact absurd earlier (Nat.lt_irrefl _)

/-- One goroutine is refused, and a call that another one makes afterwards is still written. -/
def writtenAfterRefusal : Link Bool × List (Event (Request Bool) Outcome) :=
  ((pump (frame marshalBool)).recording Link.seen).replay anyStep
    [.shutdown, .call 0 true, .refuse 0, .call 1 false, .accept 1, .take, .write 0 true, .flush 0 true, .reply,
      .receive 1]

theorem send_linearizable_after_refusal :
    writtenAfterRefusal.2 =
        [.call ⟨0, 0, true⟩, .ret ⟨0, 0, true⟩ .closed, .call ⟨1, 0, false⟩, .ret ⟨1, 0, false⟩ .written] ∧
      ∃ order final, Linearization (frameLog Bool) writtenAfterRefusal.2 order final ∧
        ∃ part, writtenAfterRefusal.1.wire = final.log.flatMap (frame marshalBool) ++ part ∧
          (part = [] ∨ ∃ req, .call req ∈ writtenAfterRefusal.2 ∧ (req, .written) ∉ order ∧
            part <+: frame marshalBool req.body) :=
  have reached : ((pump (frame marshalBool)).recording Link.seen).Reachable anyStep writtenAfterRefusal := .of_replay _
  ⟨by decide, send_linearizable reached⟩

end GolangMQ.Transport
