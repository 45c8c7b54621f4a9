import GolangMQ.Machine.Core
import Mathlib.Logic.Function.Basic
import Mathlib.Data.Nat.Notation

/-! # The write pump of a connection

Goroutines hand what they want written to one pump, through a channel of capacity 64, and wait for its
answer on a channel of their own. The `select` of `send` takes either branch when both are ready, and so
does the one of the pump. `Write` and `Flush` of the buffered writer hand some of their bytes to the
socket; that they hand over a part of them before they fail, or before they return, is a choice of the
label. The payload is a parameter, with the bytes that `WriteEnvelope` makes of it.

Three fields are observations: the requests the pump has taken, those whose flush has returned nil, and
the calls of `send` that have returned.
-/

namespace GolangMQ.Transport

open Machine

/-- A call of `send`: the goroutine, the number of the call, and what it is about. -/
structure Request (α : Type*) where
  sender : ℕ
  call : ℕ
  body : α
deriving DecidableEq

/-- What `send` returns: nil, the error of the write, or "connection closed". -/
inductive Outcome where
  | written
  | failed
  | closed
deriving DecidableEq

/-- Where a goroutine stands in `send`. -/
inductive Sender (α : Type*) where
  | idle
  | selecting (req : Request α)
  | waiting (req : Request α)
deriving DecidableEq

/-- Where `writePump` stands. In `leaving` it has left its loop and has not yet run the deferred `shutdown`. -/
inductive Phase (α : Type*) where
  | selecting
  | writing (req : Request α)
  | flushing (req : Request α)
  | replying (req : Request α) (ok : Bool)
  | leaving
  | returned
deriving DecidableEq

/-- The request the pump is working on. -/
def Phase.current {α : Type*} : Phase α → Option (Request α)
  | .writing req | .flushing req | .replying req _ => some req
  | _ => none

/-- The pump is still in its loop. -/
def Phase.loops {α : Type*} : Phase α → Bool
  | .leaving | .returned => false
  | _ => true

/-- The write side of a connection. `err` holds what is in the answer channel of a call. -/
structure Link (α : Type*) where
  sender : ℕ → Sender α := fun _ => .idle
  calls : ℕ → ℕ := fun _ => 0
  writeCh : List (Request α) := []
  closed : Bool := false
  phase : Phase α := .selecting
  err : ℕ × ℕ → Option Bool := fun _ => none
  buffer : List UInt8 := []
  wire : List UInt8 := []
  taken : List (Request α) := []
  flushed : List (Request α) := []
  finished : List (Request α × Outcome) := []

/-- The capacity of `writeCh`. -/
def capacity : ℕ := 64

inductive Move (α : Type*) where
  | call (g : ℕ) (body : α)
  | accept (g : ℕ)
  | refuse (g : ℕ)
  | receive (g : ℕ)
  | shutdown
  | take
  | stop
  | write (handed : ℕ) (ok : Bool)
  | flush (handed : ℕ) (ok : Bool)
  | reply
  | leave

namespace Link

variable {α : Type*} (frame : α → List UInt8)

def setSender (l : Link α) (g : ℕ) (sender : Sender α) : Link α :=
  { l with sender := Function.update l.sender g sender }

/-- One step of a goroutine in `send`, of the pump, or of the reader side. -/
def step? (l : Link α) : Move α → Option (Link α)
  | .call g body =>
    match l.sender g with
    | .idle =>
      some { l.setSender g (.selecting ⟨g, l.calls g, body⟩) with calls := Function.update l.calls g (l.calls g + 1) }
    | _ => none
  | .accept g =>
    match l.sender g with
    | .selecting req =>
      if l.writeCh.length < capacity then some { l.setSender g (.waiting req) with writeCh := l.writeCh ++ [req] }
      else none
    | _ => none
  | .refuse g =>
    match l.sender g, l.closed with
    | .selecting req, true => some { l.setSender g .idle with finished := l.finished ++ [(req, .closed)] }
    | _, _ => none
  | .receive g =>
    match l.sender g with
    | .waiting req =>
      match l.err (g, req.call) with
      | some ok =>
        some { l.setSender g .idle with
          err := Function.update l.err (g, req.call) none
          finished := l.finished ++ [(req, if ok then .written else .failed)] }
      | none => none
    | _ => none
  | .shutdown => some { l with closed := true }
  | .take =>
    match l.phase, l.writeCh with
    | .selecting, req :: rest => some { l with phase := .writing req, writeCh := rest, taken := l.taken ++ [req] }
    | _, _ => none
  | .stop =>
    match l.phase, l.closed with
    | .selecting, true => some { l with phase := .leaving }
    | _, _ => none
  | .write handed ok =>
    match l.phase with
    | .writing req =>
      let pending := l.buffer ++ frame req.body
      some { l with
        wire := l.wire ++ pending.take handed
        buffer := pending.drop handed
        phase := if ok then .flushing req else .replying req false }
    | _ => none
  | .flush handed ok =>
    match l.phase, ok with
    | .flushing req, true =>
      some { l with
        wire := l.wire ++ l.buffer, buffer := [], phase := .replying req true, flushed := l.flushed ++ [req] }
    | .flushing req, false =>
      some { l with
        wire := l.wire ++ l.buffer.take handed, buffer := l.buffer.drop handed, phase := .replying req false }
    | _, _ => none
  | .reply =>
    match l.phase with
    | .replying req ok =>
      some { l with
        err := Function.update l.err (req.sender, req.call) (some ok)
        phase := if ok then .selecting else .leaving }
    | _ => none
  | .leave =>
    match l.phase with
    | .leaving => some { l with closed := true, phase := .returned }
    | _ => none

end Link

/-- `send`, `writePump` and `shutdown` in every interleaving, for any number of goroutines. -/
def pump {α : Type*} (frame : α → List UInt8) : Machine (Link α) (Move α) where
  init := {}
  step? := Link.step? frame

/-- Every way in which a step can go, with the guards it has passed. -/
inductive Moves {α : Type*} (frame : α → List UInt8) (l : Link α) : Move α → Link α → Prop
  | call {g : ℕ} {body : α} (idle : l.sender g = .idle) :
      Moves frame l (.call g body) { l.setSender g (.selecting ⟨g, l.calls g, body⟩) with
        calls := Function.update l.calls g (l.calls g + 1) }
  | accept {g : ℕ} {req : Request α} (selecting : l.sender g = .selecting req) (room : l.writeCh.length < capacity) :
      Moves frame l (.accept g) { l.setSender g (.waiting req) with writeCh := l.writeCh ++ [req] }
  | refuse {g : ℕ} {req : Request α} (selecting : l.sender g = .selecting req) (closed : l.closed = true) :
      Moves frame l (.refuse g) { l.setSender g .idle with finished := l.finished ++ [(req, .closed)] }
  | receive {g : ℕ} {req : Request α} {ok : Bool} (waiting : l.sender g = .waiting req)
      (answer : l.err (g, req.call) = some ok) :
      Moves frame l (.receive g) { l.setSender g .idle with
        err := Function.update l.err (g, req.call) none
        finished := l.finished ++ [(req, if ok then .written else .failed)] }
  | shutdown : Moves frame l .shutdown { l with closed := true }
  | take {req : Request α} {rest : List (Request α)} (loop : l.phase = .selecting) (head : l.writeCh = req :: rest) :
      Moves frame l .take { l with phase := .writing req, writeCh := rest, taken := l.taken ++ [req] }
  | stop (loop : l.phase = .selecting) (closed : l.closed = true) : Moves frame l .stop { l with phase := .leaving }
  | write {handed : ℕ} {ok : Bool} {req : Request α} (writing : l.phase = .writing req) :
      Moves frame l (.write handed ok) { l with
        wire := l.wire ++ (l.buffer ++ frame req.body).take handed
        buffer := (l.buffer ++ frame req.body).drop handed
        phase := if ok then .flushing req else .replying req false }
  | flushed {handed : ℕ} {req : Request α} (flushing : l.phase = .flushing req) :
      Moves frame l (.flush handed true) { l with
        wire := l.wire ++ l.buffer, buffer := [], phase := .replying req true, flushed := l.flushed ++ [req] }
  | flushFailed {handed : ℕ} {req : Request α} (flushing : l.phase = .flushing req) :
      Moves frame l (.flush handed false) { l with
        wire := l.wire ++ l.buffer.take handed, buffer := l.buffer.drop handed, phase := .replying req false }
  | reply {req : Request α} {ok : Bool} (replying : l.phase = .replying req ok) :
      Moves frame l .reply { l with
        err := Function.update l.err (req.sender, req.call) (some ok)
        phase := if ok then .selecting else .leaving }
  | leave (leaving : l.phase = .leaving) : Moves frame l .leave { l with closed := true, phase := .returned }

section Inversion

variable {α : Type*} {frame : α → List UInt8} {l l' : Link α} {move : Move α}

theorem moves_of_step (stepped : l.step? frame move = some l') : Moves frame l move l' := by
  cases move with
  | call g body =>
    simp only [Link.step?] at stepped
    split at stepped <;> cases stepped
    next idle => exact .call idle
  | accept g =>
    simp only [Link.step?] at stepped
    split at stepped
    · next req selecting =>
      split_ifs at stepped with room
      cases stepped
      exact .accept selecting room
    · contradiction
  | refuse g =>
    simp only [Link.step?] at stepped
    split at stepped <;> cases stepped
    next req selecting closed => exact .refuse selecting closed
  | receive g =>
    simp only [Link.step?] at stepped
    split at stepped
    · next req waiting =>
      split at stepped <;> cases stepped
      next ok answer => exact .receive waiting answer
    · contradiction
  | shutdown =>
    cases stepped
    exact .shutdown
  | take =>
    simp only [Link.step?] at stepped
    split at stepped <;> cases stepped
    next req rest loop head => exact .take loop head
  | stop =>
    simp only [Link.step?] at stepped
    split at stepped <;> cases stepped
    next loop closed => exact .stop loop closed
  | write handed ok =>
    simp only [Link.step?] at stepped
    split at stepped <;> cases stepped
    next req writing => exact .write writing
  | flush handed ok =>
    simp only [Link.step?] at stepped
    split at stepped <;> cases stepped
    · next req flushing => exact .flushed flushing
    · next req flushing => exact .flushFailed flushing
  | reply =>
    simp only [Link.step?] at stepped
    split at stepped <;> cases stepped
    next req ok replying => exact .reply replying
  | leave =>
    simp only [Link.step?] at stepped
    split at stepped <;> cases stepped
    next leaving => exact .leave leaving

end Inversion

end GolangMQ.Transport
