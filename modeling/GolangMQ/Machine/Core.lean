import Mathlib.Tactic.SplitIfs

/-! # Executable machines and guarded reachability

A label resolves every choice of a step, so a step is a partial function and a schedule can be
replayed. `Reachable ok` collects the states of the runs all of whose steps meet the guard `ok` in
the state they are taken from; the unguarded runs are those of the guard `anyStep`. Each safety
theorem is then two obligations: the initial state and one step (`Reachable.invariant`). What every run comes to
is `Inevitable`; it follows from moves that end, an invariant, and a move wherever it has not yet come
(`Inevitable.of_wellFounded`).
-/

namespace GolangMQ

/-- A start state and a partial step function; the label carries the scheduler's choices. -/
structure Machine (σ ℓ : Type*) where
  init : σ
  step? : σ → ℓ → Option σ

namespace Machine

variable {σ ℓ : Type*} (machine : Machine σ ℓ)

/-- The guard that admits every step. -/
def anyStep : σ → ℓ → Prop := fun _ _ => True

/-- Replay a schedule, failing at the first label that is not enabled. -/
def run? : σ → List ℓ → Option σ
  | state, [] => some state
  | state, label :: rest => (machine.step? state label).bind fun next => run? next rest

/-- States reached by runs all of whose steps meet the guard. -/
inductive Reachable (ok : σ → ℓ → Prop) : σ → Prop
  | init : Reachable ok machine.init
  | step {source target : σ} {label : ℓ} (before : Reachable ok source) (met : ok source label)
      (stepped : machine.step? source label = some target) : Reachable ok target

/-- Disable the steps that do not meet a decidable guard. -/
def restrict (ok : σ → ℓ → Prop) [∀ state label, Decidable (ok state label)] : Machine σ ℓ where
  init := machine.init
  step? state label := if ok state label then machine.step? state label else none

/-- The machine that goes on from a state. -/
def startingAt (state : σ) : Machine σ ℓ := { machine with init := state }

/-- The machine with a history of the events its steps stand for. -/
def recording {ε : Type*} (events : σ → ℓ → List ε) : Machine (σ × List ε) ℓ where
  init := (machine.init, [])
  step? := fun (state, history) label =>
    (machine.step? state label).map fun next => (next, history ++ events state label)

/-- The state a schedule of admitted steps leads to. -/
def replay (ok : σ → ℓ → Prop) [∀ state label, Decidable (ok state label)] (labels : List ℓ) : σ :=
  ((machine.restrict ok).run? machine.init labels).getD machine.init

instance (state : σ) (label : ℓ) : Decidable (anyStep state label) := .isTrue trivial

variable {machine}

theorem run?_append (state : σ) (first second : List ℓ) :
    machine.run? state (first ++ second) =
      (machine.run? state first).bind fun middle => machine.run? middle second := by
  induction first generalizing state with
  | nil => rfl
  | cons label rest ih => simp only [List.cons_append, run?, ih, Option.bind_assoc]

namespace Reachable

variable {ok weaker : σ → ℓ → Prop} {source target : σ}

/-- The invariant rule: holding initially and kept by every admitted step. -/
theorem invariant {P : σ → Prop} (initial : P machine.init)
    (preserved : ∀ {source target : σ} {label : ℓ}, machine.Reachable ok source → P source →
      ok source label → machine.step? source label = some target → P target)
    (reached : machine.Reachable ok target) : P target := by
  induction reached with
  | init => exact initial
  | step before met stepped ih => exact preserved before ih met stepped

/-- A weaker guard admits the same runs. -/
theorem mono (implies : ∀ state label, ok state label → weaker state label)
    (reached : machine.Reachable ok target) : machine.Reachable weaker target := by
  induction reached with
  | init => exact .init
  | step _ met stepped ih => exact ih.step (implies _ _ met) stepped

/-- Every guarded run is a run. -/
theorem any (reached : machine.Reachable ok target) : machine.Reachable anyStep target :=
  reached.mono fun _ _ _ => trivial

/-- An unguarded run goes on with any enabled step. -/
theorem next (reached : machine.Reachable anyStep source) (label : ℓ)
    (stepped : machine.step? source label = some target) : machine.Reachable anyStep target :=
  have met : anyStep source label := trivial
  reached.step met stepped

/-- A run that goes on from the end of another one. -/
theorem continued (before : machine.Reachable ok source) (reached : (machine.startingAt source).Reachable ok target) :
    machine.Reachable ok target := by
  induction reached with
  | init => exact before
  | step _ met stepped ih => exact ih.step met stepped

/-- A schedule whose labels are all admitted. -/
theorem of_run {labels : List ℓ} (admitted : ∀ label ∈ labels, ∀ state, ok state label)
    (ran : machine.run? source labels = some target) : (machine.startingAt source).Reachable ok target := by
  induction labels generalizing source with
  | nil =>
    cases ran
    exact .init
  | cons label rest ih =>
    obtain ⟨middle, stepped, suffix⟩ := Option.bind_eq_some_iff.mp ran
    have first : (machine.startingAt source).Reachable ok middle :=
      .step .init (admitted label (List.mem_cons_self ..) _) stepped
    exact first.continued (ih (fun other member => admitted other (List.mem_cons_of_mem _ member)) suffix)

/-- The history does not influence the run. -/
theorem of_recording {ε : Type*} {events : σ → ℓ → List ε} {recorded : σ × List ε}
    (reached : (machine.recording events).Reachable anyStep recorded) : machine.Reachable anyStep recorded.1 := by
  induction reached with
  | init => exact .init
  | step _ _ stepped ih =>
    obtain ⟨next, moved, rfl⟩ := Option.map_eq_some_iff.1 stepped
    exact ih.next _ moved

/-- Every run can be recorded. -/
theorem recorded {ε : Type*} (events : σ → ℓ → List ε) (history : List ε)
    (reached : (machine.startingAt source).Reachable anyStep target) :
    ∃ more, ((machine.recording events).startingAt (source, history)).Reachable anyStep (target, history ++ more) := by
  induction reached with
  | init => exact ⟨[], by rw [List.append_nil]; exact .init⟩
  | @step middle target label _ _ stepped ih =>
    obtain ⟨more, reached⟩ := ih
    refine ⟨more ++ events middle label, reached.next label ?_⟩
    rw [← List.append_assoc]
    exact Option.map_eq_some_iff.2 ⟨target, stepped, rfl⟩

/-- A schedule of the restricted machine meets the guard at every step. -/
private theorem of_restrict [∀ state label, Decidable (ok state label)] {labels : List ℓ}
    (before : machine.Reachable ok source)
    (ran : (machine.restrict ok).run? source labels = some target) :
    machine.Reachable ok target := by
  induction labels generalizing source with
  | nil => cases ran; exact before
  | cons label rest ih =>
    obtain ⟨middle, stepped, suffix⟩ := Option.bind_eq_some_iff.mp ran
    simp only [restrict] at stepped
    split_ifs at stepped with met
    exact ih (before.step met stepped) suffix

/-- Replaying a schedule stays among the states of the guarded runs. -/
theorem of_replay [∀ state label, Decidable (ok state label)] (labels : List ℓ) :
    machine.Reachable ok (machine.replay ok labels) := by
  unfold replay
  cases ran : (machine.restrict ok).run? machine.init labels with
  | none => exact .init
  | some target => exact of_restrict .init ran

end Reachable

end Machine

/-- Whichever moves are made, `P` comes to hold: until then some move is possible, and none leads astray. -/
inductive Inevitable {σ : Type*} (moves : σ → σ → Prop) (P : σ → Prop) : σ → Prop
  | now {state : σ} (holds : P state) : Inevitable moves P state
  | later {state : σ} (possible : ∃ next, moves state next)
      (all : ∀ next, moves state next → Inevitable moves P next) : Inevitable moves P state

/-- The rule of inevitability: moves end, they keep an invariant, and under the invariant `P` holds or there is a
move. -/
theorem Inevitable.of_wellFounded {σ : Type*} {moves : σ → σ → Prop} {P I : σ → Prop} {state : σ}
    (ends : WellFounded fun after before => moves before after)
    (kept : ∀ before after, I before → moves before after → I after)
    (progress : ∀ state, I state → P state ∨ ∃ next, moves state next) (holds : I state) :
    Inevitable moves P state := by
  induction state using ends.induction with
  | h state ih =>
    rcases progress state holds with arrived | possible
    · exact .now arrived
    · exact .later possible fun next moved => ih next moved (kept state next holds moved)

end GolangMQ
