import GolangMQ.Model.Ownership

/-! # Handling one request without interruption

`Serves w k w'` says that the goroutine of connection `k` runs what it has pending, step by step, until
nothing is left; `Handles` starts with an envelope. What the handling of an envelope comes to is read off
by taking one section after the other (`Serves.cons_inv`), with the sections' inversion `Runs`.
-/

namespace GolangMQ.Model

open Machine

namespace World

/-- What has been written to each connection. -/
def wire (w : World) (k : ConnectionRef) : List Frame := (w.connection k).wire

/-- Connection `k` runs its pending sections to the end. -/
def Serves (w : World) (k : ConnectionRef) (w' : World) : Prop :=
  ∃ choices : List Choice, broker.run? w (choices.map (Label.run k)) = some w' ∧ w'.todo k = []

/-- Connection `k` handles an envelope to the end. -/
def Handles (w : World) (k : ConnectionRef) (env : Envelope) (w' : World) : Prop :=
  ∃ choices : List Choice, broker.run? w (served k env choices) = some w' ∧ w'.todo k = []

end World

variable {w w' middle : World} {k : ConnectionRef} {choice : Choice} {first : Section} {rest next : List Section}

namespace World

theorem wire_kept (w : World) (k : ConnectionRef) (f : Connection → Connection)
    (kept : (f (w.connection k)).wire = (w.connection k).wire) : (w.modifyConnection k f).wire = w.wire :=
  funext fun j => w.connection.observe_modify Connection.wire k f kept j

@[simp] theorem wire_setTodo (w : World) (k : ConnectionRef) (sections : List Section) :
    (w.setTodo k sections).wire = w.wire :=
  w.wire_kept k _ rfl

theorem setTodo_setTodo (w : World) (k : ConnectionRef) (first second : List Section) :
    (w.setTodo k first).setTodo k second = w.setTodo k second := by
  have same : (w.connection.modify k fun conn => { conn with todo := first }).modify k
      (fun conn => { conn with todo := second }) = w.connection.modify k fun conn => { conn with todo := second } :=
    w.connection.modify_modify k _ _
  simp only [setTodo, modifyConnection, same]

theorem setTodo_nil {w : World} {k : ConnectionRef} (idle : w.todo k = []) : w.setTodo k [] = w := by
  have same : (w.connection.modify k fun conn => { conn with todo := [] }) = w.connection := by
    refine w.connection.modify_eq_self k _ ?_
    rw [← idle]
    rfl
  simp only [setTodo, modifyConnection, same]

/-- A section writes a frame only when it is a reply. -/
theorem wire_of_runs (inside : k < w.connection.size) (runs : Runs w k choice first w' next) :
    w'.wire = w.wire ∨ ∃ frame, first = .reply frame ∧ w'.wire = Function.update w.wire k (w.wire k ++ [frame]) := by
  cases runs with
  | @reply frame written =>
    refine .inr ⟨frame, rfl, funext fun j => ?_⟩
    by_cases same : j = k
    · subst same
      rw [Function.update_self, wire, modifyConnection, Heap.cell_modify_self _ _ inside]
      rfl
    · rw [Function.update_of_ne same, wire, modifyConnection, Heap.cell_modify_of_ne _ _ same]
      rfl
  | @publishUnknown event | @publish event =>
    exact .inl (w.wire_kept k (fun conn => { conn with published := conn.published ++ [event] }) rfl)
  | depart => exact .inl (w.wire_kept k _ rfl)
  | _ => exact .inl rfl

end World

namespace World.Serves

theorem nil_inv (serves : w.Serves k w') (idle : w.todo k = []) : w' = w := by
  obtain ⟨choices, ran, -⟩ := serves
  cases choices with
  | nil => exact (Option.some.inj ran).symm
  | cons choice rest =>
    obtain ⟨target, stepped, -⟩ := Option.bind_eq_some_iff.1 ran
    obtain ⟨first, others, -, -, pending, -⟩ := run_inv stepped
    rw [idle] at pending
    contradiction

/-- The first pending section runs, and then the rest. -/
theorem cons_inv (serves : w.Serves k w') (pending : w.todo k = first :: rest) :
    ∃ choice middle next, Runs w k choice first middle next ∧
      (middle.setTodo k (next ++ rest)).todo k = next ++ rest ∧ (middle.setTodo k (next ++ rest)).Serves k w' := by
  obtain ⟨choices, ran, final⟩ := serves
  cases choices with
  | nil =>
    cases ran
    rw [pending] at final
    contradiction
  | cons choice later =>
    obtain ⟨target, stepped, suffix⟩ := Option.bind_eq_some_iff.1 ran
    obtain ⟨first', rest', middle, next, pending', ran', rfl, inside⟩ := run_inv stepped
    obtain ⟨rfl, rfl⟩ := List.cons.inj (pending.symm.trans pending')
    refine ⟨choice, middle, next, runs_of_runSection ran', ?_, later, suffix, final⟩
    rw [(rests_of_runSection ran').todo_setTodo inside, Function.update_self]

theorem nil (idle : w.todo k = []) : w.Serves k w := ⟨[], rfl, idle⟩

theorem cons (choice : Choice) (pending : w.todo k = first :: rest)
    (ran : w.runSection k choice first = some (middle, next)) (serves : (middle.setTodo k (next ++ rest)).Serves k w') :
    w.Serves k w' := by
  obtain ⟨choices, later, final⟩ := serves
  refine ⟨choice :: choices, Option.bind_eq_some_iff.2 ⟨_, ?_, later⟩, final⟩
  unfold World.todo at pending
  simp only [broker, step?, pending, ran, Option.map_some]

/-- The induction rule: what every section of a class keeps, and leads to sections of the class, is kept
by running them all. -/
theorem invariant {P : World → Prop} {C : Section → Prop} (serves : w.Serves k w')
    (pending : ∀ s ∈ w.todo k, C s)
    (preserved : ∀ {w middle : World} {choice : Choice} {first : Section} {next : List Section},
      k < w.connection.size → C first → Runs w k choice first middle next → P w →
      (∀ s ∈ next, C s) ∧ ∀ sections, P (middle.setTodo k sections))
    (initial : P w) : P w' := by
  obtain ⟨choices, ran, final⟩ := serves
  induction choices generalizing w with
  | nil =>
    cases ran
    exact initial
  | cons choice later ih =>
    obtain ⟨target, stepped, suffix⟩ := Option.bind_eq_some_iff.1 ran
    obtain ⟨first, rest, middle, next, waiting, ran', rfl, inside⟩ := run_inv stepped
    rw [waiting] at pending
    obtain ⟨leads, kept⟩ :=
      preserved inside (pending first (List.mem_cons_self ..)) (runs_of_runSection ran') initial
    refine ih ?_ (kept _) suffix
    rw [(rests_of_runSection ran').todo_setTodo inside, Function.update_self]
    intro s member
    rcases List.mem_append.1 member with new | old
    · exact leads s new
    · exact pending s (List.mem_cons_of_mem _ old)

end World.Serves

/-- The sections that write a reply or may lead to one. -/
def Section.owes : Section → Bool
  | .reply _ | .consume .. | .attach .. | .publish _ (some _) => true
  | _ => false

/-- Only a section that owes a reply leads to one that does. -/
theorem owes_of_leads {s : Section} (leads : Leads first s) (quiet : first.owes = false) : s.owes = false := by
  cases leads <;> first | rfl | contradiction

/-- Sections that leave every consumer as it is, and lead to such sections only. -/
def Section.spares : Section → Bool
  | .publish .. | .route .. | .takeTag .. | .enqueue .. | .signal _ | .requeue .. | .reply _ => true
  | _ => false

theorem spares_of_runs (spares : first.spares = true) (runs : Runs w k choice first w' next) :
    w'.consumer = w.consumer ∧ ∀ s ∈ next, s.spares = true := by
  cases runs with
  | @publishUnknown event report => exact ⟨rfl, by cases report <;> simp [Section.spares]⟩
  | publish | unroutable | route | takeTag | enqueue | signal | requeue | reply | unsent =>
    exact ⟨rfl, by simp [Section.spares]⟩
  | _ => contradiction

theorem World.Serves.consumer_eq (serves : w.Serves k w') (spares : ∀ s ∈ w.todo k, s.spares = true) :
    w'.consumer = w.consumer := by
  refine serves.invariant (P := fun v => v.consumer = w.consumer) (C := fun s => s.spares = true) spares ?_ rfl
  intro v middle choice first next _ spares runs same
  obtain ⟨kept, leads⟩ := spares_of_runs spares runs
  exact ⟨leads, fun _ => kept.trans same⟩

theorem spares_afterNack (w : World) (c : ConsumerRef) (msg : Message) (requeue : Bool) :
    ∀ s ∈ w.afterNack c msg requeue, s.spares = true := by
  intro s member
  rcases mem_afterNack member with rfl | rfl | rfl <;> rfl

namespace World.Handles

variable {env : Envelope}

theorem inv (handles : w.Handles k env w') :
    w.connected k = true ∧ w.todo k = [] ∧ ((w.handle k env).1.setTodo k (w.handle k env).2).Serves k w' ∧
      ((w.handle k env).1.setTodo k (w.handle k env).2).todo k = (w.handle k env).2 := by
  obtain ⟨choices, ran, final⟩ := handles
  obtain ⟨target, stepped, suffix⟩ := Option.bind_eq_some_iff.1 ran
  have requested : w.step? (.request k env) = some target := stepped
  cases steps_of_step requested with
  | request alive idle =>
    refine ⟨alive, idle, ⟨choices, suffix, final⟩, ?_⟩
    rw [(w.handle_spec k env).1.todo_setTodo (inside_of_live alive), Function.update_self]
  | dispatch ofDispatcher => contradiction

theorem intro (alive : w.connected k = true) (idle : w.todo k = [])
    (serves : ((w.handle k env).1.setTodo k (w.handle k env).2).Serves k w') : w.Handles k env w' := by
  obtain ⟨choices, ran, final⟩ := serves
  refine ⟨choices, Option.bind_eq_some_iff.2 ⟨_, ?_, ran⟩, final⟩
  unfold World.connected at alive
  unfold World.todo at idle
  simp only [broker, step?, alive, idle, and_self, if_true]

end World.Handles

end GolangMQ.Model
