import GolangMQ.Transport.Lines
import Mathlib.Tactic.Common

/-! # The handshake of a connection

`RunHandshake` reads the protocol header and three messages, each a line, and answers in between. The
client's bytes end with the end of the stream, so a read that finds no newline fails and so do the reads
after it. What `json.Unmarshal` makes of a line and whether the socket takes a message are parameters.

No read looks at the `type` field of what it has decoded. The theorem at the end says which streams are
admitted.
-/

namespace GolangMQ.Transport

/-- The bytes of an ASCII text. -/
def ascii (text : String) : List UInt8 := text.toList.map fun char => UInt8.ofNat char.toNat

def protocolName : String := "GOMQ"

def protocolVersion : String := "1"

def protocolHeader : String := protocolName ++ "/" ++ protocolVersion

def typeConnectionStartOK : String := "connection.start_ok"

def typeConnectionTuneOK : String := "connection.tune_ok"

def typeConnectionOpen : String := "connection.open"

inductive ConnectionState where
  | awaitProtocolHeader
  | awaitStartOK
  | awaitTuneOK
  | awaitOpen
  | open
deriving DecidableEq

/-- What the client answers to `connection.start`. The field of an absent key is a zero value; the other fields of
the three messages are not read after decoding. -/
structure ConnectionStartOK where
  type : String := ""
deriving DecidableEq

structure ConnectionTuneOK where
  type : String := ""
deriving DecidableEq

structure ConnectionOpen where
  type : String := ""
deriving DecidableEq

/-- What the server sends during the handshake; `tune` carries the limits of the server's configuration. -/
inductive ServerMessage where
  | connectionStart
  | connectionTune (channelMax frameMax heartbeatSec : Int)
  | connectionOpenOK
deriving DecidableEq

structure ServerConfig where
  channelMax : Int
  framesMax : Int
  heartbeatSec : Int

inductive HandshakeError where
  | notProtocolHeader (line : List UInt8)
  | endOfStream
  | malformed
  | notWritten
deriving DecidableEq

/-- `json.Unmarshal` of a line into each of the three structs, with none for its error. -/
structure Unmarshal where
  startOK : List UInt8 → Option ConnectionStartOK
  tuneOK : List UInt8 → Option ConnectionTuneOK
  opened : List UInt8 → Option ConnectionOpen

/-- The connection during the handshake: the unread bytes, and the states `c.state` has been set to. -/
structure Negotiation where
  stream : List UInt8
  states : List ConnectionState := [.awaitProtocolHeader]

abbrev Handshake := EStateM HandshakeError Negotiation

namespace Handshake

def setState (state : ConnectionState) : Handshake Unit :=
  modify fun conn => { conn with states := conn.states ++ [state] }

/-- An error of `ReadString` is answered with nil; the bytes it has read are gone. -/
def readProtocolHeader : Handshake Unit := do
  match readLine (← get).stream with
  | none => modify fun conn => { conn with stream := [] }
  | some (line, rest) =>
    modify fun conn => { conn with stream := rest }
    if line ≠ ascii (protocolHeader ++ "\n") then throw (.notProtocolHeader line)

def readMessage {β : Type} (unmarshal : List UInt8 → Option β) : Handshake β := do
  match readLine (← get).stream with
  | none =>
    modify fun conn => { conn with stream := [] }
    throw .endOfStream
  | some (line, rest) =>
    modify fun conn => { conn with stream := rest }
    match unmarshal line with
    | none => throw .malformed
    | some message => pure message

def writeMessage (writes : ServerMessage → Bool) (message : ServerMessage) : Handshake Unit :=
  if writes message then pure () else throw .notWritten

/-- The error of the second write is dropped. -/
def runHandshake (json : Unmarshal) (writes : ServerMessage → Bool) (config : ServerConfig) : Handshake Unit := do
  readProtocolHeader
  setState .awaitStartOK
  writeMessage writes .connectionStart
  let _ ← readMessage json.startOK
  setState .awaitTuneOK
  try
    writeMessage writes (.connectionTune config.channelMax config.framesMax config.heartbeatSec)
  catch _ => pure ()
  let _ ← readMessage json.tuneOK
  setState .awaitOpen
  let _ ← readMessage json.opened
  writeMessage writes .connectionOpenOK
  setState .open

end Handshake

/-- The exact header line, then three lines that `json.Unmarshal` decodes into the three messages. -/
def Admits (json : Unmarshal) (stream : List UInt8) (startOK : ConnectionStartOK) (tuneOK : ConnectionTuneOK)
    (opened : ConnectionOpen) : Prop :=
  ∃ first second third rest,
    stream = ascii (protocolHeader ++ "\n") ++ (first ++ (second ++ (third ++ rest))) ∧
    json.startOK first = some startOK ∧ json.tuneOK second = some tuneOK ∧ json.opened third = some opened ∧
    ∀ line ∈ [first, second, third], ∃ text, newline ∉ text ∧ line = text ++ [newline]

namespace Handshake

variable {β γ : Type} {json : Unmarshal} {writes : ServerMessage → Bool} {config : ServerConfig}
  {conn conn' : Negotiation}

private theorem bind_eq_ok {first : Handshake β} {next : β → Handshake γ} {value : γ} :
    (first >>= next) conn = .ok value conn' ↔
      ∃ middle between, first conn = .ok middle between ∧ next middle between = .ok value conn' := by
  simp only [bind, EStateM.bind]
  split
  · next ran => simp [ran]
  · next ran => simp [ran]

private theorem bind_eq_error {first : Handshake β} {next : β → Handshake γ} {error : HandshakeError} :
    (first >>= next) conn = .error error conn' ↔ first conn = .error error conn' ∨
      ∃ middle between, first conn = .ok middle between ∧ next middle between = .error error conn' := by
  simp only [bind, EStateM.bind]
  split
  · next ran => simp [ran]
  · next ran => simp [ran]

private theorem get_bind_apply (next : Negotiation → Handshake β) (conn : Negotiation) :
    (get >>= next) conn = next conn conn := rfl

private theorem setState_apply (state : ConnectionState) (conn : Negotiation) :
    setState state conn = .ok () { conn with states := conn.states ++ [state] } := rfl

private theorem writeMessage_apply (message : ServerMessage) (conn : Negotiation) :
    writeMessage writes message conn = if writes message then .ok () conn else .error .notWritten conn := by
  unfold writeMessage
  split <;> rfl

private theorem readMessage_apply (unmarshal : List UInt8 → Option β) (conn : Negotiation) :
    readMessage unmarshal conn =
      match readLine conn.stream with
      | none => .error .endOfStream { conn with stream := [] }
      | some (line, rest) =>
        match unmarshal line with
        | none => .error .malformed { conn with stream := rest }
        | some message => .ok message { conn with stream := rest } := by
  unfold readMessage
  rw [get_bind_apply]
  cases readLine conn.stream with
  | none => rfl
  | some read =>
    simp only [modify, modifyGet, MonadStateOf.modifyGet]
    cases unmarshal read.1 <;> rfl

private theorem readProtocolHeader_apply (conn : Negotiation) :
    readProtocolHeader conn =
      match readLine conn.stream with
      | none => .ok () { conn with stream := [] }
      | some (line, rest) =>
        if line ≠ ascii (protocolHeader ++ "\n") then .error (.notProtocolHeader line) { conn with stream := rest }
        else .ok () { conn with stream := rest } := by
  unfold readProtocolHeader
  rw [get_bind_apply]
  cases readLine conn.stream with
  | none => rfl
  | some read =>
    simp only [modify, modifyGet, MonadStateOf.modifyGet]
    split <;> rfl

private theorem setState_eq_ok {state : ConnectionState} {value : Unit} :
    setState state conn = .ok value conn' ↔ conn' = { conn with states := conn.states ++ [state] } := by
  simp [setState_apply, eq_comm]

private theorem writeMessage_eq_ok {message : ServerMessage} {value : Unit} :
    writeMessage writes message conn = .ok value conn' ↔ writes message = true ∧ conn' = conn := by
  rw [writeMessage_apply]
  split_ifs with written
  · simp [written, eq_comm]
  · simp [written]

private theorem readMessage_eq_ok {unmarshal : List UInt8 → Option β} {message : β} :
    readMessage unmarshal conn = .ok message conn' ↔
      ∃ line rest, readLine conn.stream = some (line, rest) ∧ unmarshal line = some message ∧
        conn' = { conn with stream := rest } := by
  rw [readMessage_apply]
  split
  · next ended => simp [ended]
  · next line rest read =>
    cases decoded : unmarshal line with
    | none => simp [read, decoded]
    | some found => simp [read, decoded, eq_comm]

private theorem readProtocolHeader_eq_ok {value : Unit} :
    readProtocolHeader conn = .ok value conn' ↔
      (readLine conn.stream = none ∧ conn' = { conn with stream := [] }) ∨
        ∃ rest, readLine conn.stream = some (ascii (protocolHeader ++ "\n"), rest) ∧
          conn' = { conn with stream := rest } := by
  rw [readProtocolHeader_apply]
  split
  · next ended => simp [ended, eq_comm]
  · next line rest read =>
    split_ifs with other
    · simp [read, other]
    · simp [read, not_not.1 other, eq_comm]

/-- Whatever comes of the action, it does not set `StateOpen`. -/
def Quiet (action : Handshake β) : Prop :=
  ∀ conn, .open ∉ conn.states → (∀ value conn', action conn = .ok value conn' → .open ∉ conn'.states) ∧
    ∀ error conn', action conn = .error error conn' → .open ∉ conn'.states

/-- When the action fails, it has not set `StateOpen`. -/
def OpensLast (action : Handshake β) : Prop :=
  ∀ conn, .open ∉ conn.states → ∀ error conn', action conn = .error error conn' → .open ∉ conn'.states

private theorem Quiet.followed {first : Handshake β} {next : β → Handshake γ} (quiet : Quiet first)
    (last : ∀ value, OpensLast (next value)) : OpensLast (first >>= next) := by
  intro conn unopened error conn' failed
  rcases bind_eq_error.1 failed with early | ⟨middle, between, ran, late⟩
  · exact (quiet conn unopened).2 error conn' early
  · exact last middle between ((quiet conn unopened).1 middle between ran) error conn' late

private theorem quiet_setState {state : ConnectionState} (other : state ≠ .open) : Quiet (setState state) := by
  intro conn unopened
  rw [setState_apply]
  constructor
  · rintro value conn' ⟨⟩
    simpa [unopened] using other.symm
  · rintro error conn' ⟨⟩

private theorem quiet_writeMessage (message : ServerMessage) : Quiet (writeMessage writes message) := by
  intro conn unopened
  rw [writeMessage_apply]
  split_ifs
  · exact ⟨by rintro value conn' ⟨⟩; exact unopened, by rintro error conn' ⟨⟩⟩
  · exact ⟨by rintro value conn' ⟨⟩, by rintro error conn' ⟨⟩; exact unopened⟩

private theorem quiet_readMessage (unmarshal : List UInt8 → Option β) : Quiet (readMessage unmarshal) := by
  intro conn unopened
  rw [readMessage_apply]
  split
  · exact ⟨by rintro value conn' ⟨⟩, by rintro error conn' ⟨⟩; exact unopened⟩
  · split
    · exact ⟨by rintro value conn' ⟨⟩, by rintro error conn' ⟨⟩; exact unopened⟩
    · exact ⟨by rintro value conn' ⟨⟩; exact unopened, by rintro error conn' ⟨⟩⟩

private theorem quiet_readProtocolHeader : Quiet readProtocolHeader := by
  intro conn unopened
  rw [readProtocolHeader_apply]
  split
  · exact ⟨by rintro value conn' ⟨⟩; exact unopened, by rintro error conn' ⟨⟩⟩
  · split_ifs
    · exact ⟨by rintro value conn' ⟨⟩, by rintro error conn' ⟨⟩; exact unopened⟩
    · exact ⟨by rintro value conn' ⟨⟩; exact unopened, by rintro error conn' ⟨⟩⟩

/-- A write whose error is dropped does nothing that the rest of the handshake sees. -/
private theorem try_writeMessage (message : ServerMessage) :
    (try writeMessage writes message catch _ => pure ()) = (pure () : Handshake Unit) := by
  funext conn
  simp only [tryCatch, tryCatchThe, MonadExceptOf.tryCatch, EStateM.tryCatch, writeMessage_apply]
  split_ifs <;> rfl

private theorem opensLast_runHandshake : OpensLast (runHandshake json writes config) := by
  unfold runHandshake
  rw [try_writeMessage]
  refine quiet_readProtocolHeader.followed fun _ => (quiet_setState (by simp)).followed fun _ => ?_
  refine (quiet_writeMessage _).followed fun _ => (quiet_readMessage _).followed fun _ => ?_
  refine (quiet_setState (by simp)).followed fun _ => ?_
  rw [pure_bind]
  refine (quiet_readMessage _).followed fun _ => (quiet_setState (by simp)).followed fun _ => ?_
  refine (quiet_readMessage _).followed fun _ => (quiet_writeMessage _).followed fun _ => ?_
  rintro conn unopened error conn' ⟨⟩

/-- A read of the header leaves the state alone. -/
private theorem states_readProtocolHeader {value : Unit} (read : readProtocolHeader conn = .ok value conn') :
    conn'.states = conn.states := by
  rcases readProtocolHeader_eq_ok.1 read with ⟨-, rfl⟩ | ⟨rest, -, rfl⟩ <;> rfl

/-- The states of a handshake that succeeds, in their order. -/
private theorem states_of_runHandshake {stream : List UInt8}
    (ran : runHandshake json writes config { stream := stream } = .ok () conn) :
    conn.states = [.awaitProtocolHeader, .awaitStartOK, .awaitTuneOK, .awaitOpen, .open] := by
  unfold runHandshake at ran
  rw [try_writeMessage] at ran
  simp only [pure_bind, bind_eq_ok, setState_eq_ok, writeMessage_eq_ok, readMessage_eq_ok] at ran
  obtain ⟨⟨⟩, header, begun, -, -, rfl, -, -, ⟨-, rfl⟩, -, -, ⟨-, -, -, -, rfl⟩, -, -, rfl, -, -, ⟨-, -, -, -, rfl⟩,
    -, -, rfl, -, -, ⟨-, -, -, -, rfl⟩, -, -, ⟨-, rfl⟩, rfl⟩ := ran
  simp only [states_readProtocolHeader begun, List.cons_append, List.nil_append]

/-- The reads and writes of a handshake that succeeds. -/
private theorem runHandshake_eq_ok {stream : List UInt8} :
    (∃ conn, runHandshake json writes config { stream := stream } = .ok () conn) ↔
      writes .connectionStart = true ∧ writes .connectionOpenOK = true ∧
        ∃ header, readProtocolHeader { stream := stream } = .ok () header ∧
        ∃ first afterFirst startOK, readLine header.stream = some (first, afterFirst) ∧
          json.startOK first = some startOK ∧
        ∃ second afterSecond tuneOK, readLine afterFirst = some (second, afterSecond) ∧
          json.tuneOK second = some tuneOK ∧
        ∃ third rest opened, readLine afterSecond = some (third, rest) ∧ json.opened third = some opened := by
  unfold runHandshake
  rw [try_writeMessage]
  simp only [pure_bind, bind_eq_ok, setState_eq_ok, writeMessage_eq_ok, readMessage_eq_ok]
  constructor
  · rintro ⟨conn, ⟨⟩, header, begun, -, -, rfl, -, -, ⟨start, rfl⟩, startOK, -,
      ⟨first, afterFirst, read₁, decoded₁, rfl⟩,
      -, -, rfl, tuneOK, -, ⟨second, afterSecond, read₂, decoded₂, rfl⟩, -, -, rfl, opened, -,
      ⟨third, rest, read₃, decoded₃, rfl⟩, -, -, ⟨answered, rfl⟩, rfl⟩
    exact ⟨start, answered, header, begun, first, afterFirst, startOK, read₁, decoded₁, second, afterSecond, tuneOK,
      read₂, decoded₂, third, rest, opened, read₃, decoded₃⟩
  · rintro ⟨start, answered, header, begun, first, afterFirst, startOK, read₁, decoded₁, second, afterSecond, tuneOK,
      read₂, decoded₂, third, rest, opened, read₃, decoded₃⟩
    exact ⟨_, (), header, begun, (), _, rfl, (), _, ⟨start, rfl⟩, startOK, _, ⟨first, afterFirst, read₁, decoded₁, rfl⟩,
      (), _, rfl, tuneOK, _, ⟨second, afterSecond, read₂, decoded₂, rfl⟩, (), _, rfl, opened, _,
      ⟨third, rest, read₃, decoded₃, rfl⟩, (), _, ⟨answered, rfl⟩, rfl⟩

end Handshake

/-- The reads of the handshake succeed on the admitted streams and on no others: a stream without a first line
passes the header read and fails at the next. -/
private theorem reads_iff_admits {json : Unmarshal} {stream : List UInt8} :
    (∃ header, Handshake.readProtocolHeader { stream := stream } = .ok () header ∧
        ∃ first afterFirst startOK, readLine header.stream = some (first, afterFirst) ∧
          json.startOK first = some startOK ∧
        ∃ second afterSecond tuneOK, readLine afterFirst = some (second, afterSecond) ∧
          json.tuneOK second = some tuneOK ∧
        ∃ third rest opened, readLine afterSecond = some (third, rest) ∧ json.opened third = some opened) ↔
      ∃ startOK tuneOK opened, Admits json stream startOK tuneOK opened := by
  constructor
  · rintro ⟨header, begun, first, afterFirst, startOK, read₁, decoded₁, second, afterSecond, tuneOK, read₂, decoded₂,
      third, rest, opened, read₃, decoded₃⟩
    rcases Handshake.readProtocolHeader_eq_ok.1 begun with ⟨-, rfl⟩ | ⟨after, line, rfl⟩
    · simp [readLine] at read₁
    · obtain ⟨text₀, -, header, rfl⟩ := readLine_eq_some.1 line
      obtain ⟨text₁, clean₁, line₁, rfl⟩ := readLine_eq_some.1 read₁
      obtain ⟨text₂, clean₂, line₂, rfl⟩ := readLine_eq_some.1 read₂
      obtain ⟨text₃, clean₃, line₃, rfl⟩ := readLine_eq_some.1 read₃
      refine ⟨startOK, tuneOK, opened, first, second, third, rest, rfl, decoded₁, decoded₂, decoded₃, ?_⟩
      simp only [List.forall_mem_cons]
      exact ⟨⟨text₁, clean₁, line₁⟩, ⟨text₂, clean₂, line₂⟩, ⟨text₃, clean₃, line₃⟩, by simp⟩
  · rintro ⟨startOK, tuneOK, opened, first, second, third, rest, rfl, decoded₁, decoded₂, decoded₃, terminated⟩
    simp only [List.forall_mem_cons] at terminated
    obtain ⟨⟨text₁, clean₁, line₁⟩, ⟨text₂, clean₂, line₂⟩, ⟨text₃, clean₃, line₃⟩, -⟩ := terminated
    refine ⟨⟨first ++ (second ++ (third ++ rest)), _⟩, Handshake.readProtocolHeader_eq_ok.2 (.inr ⟨_, ?_, rfl⟩), first,
      second ++ (third ++ rest), startOK, readLine_eq_some.2 ⟨text₁, clean₁, line₁, rfl⟩, decoded₁, second,
      third ++ rest,
      tuneOK, readLine_eq_some.2 ⟨text₂, clean₂, line₂, rfl⟩, decoded₂, third, rest, opened,
      readLine_eq_some.2 ⟨text₃, clean₃, line₃, rfl⟩, decoded₃⟩
    exact readLine_eq_some.2 ⟨ascii protocolHeader, by decide, by decide, rfl⟩

/-- The handshake returns nil exactly on a stream that begins with the header line and three lines that decode into
the three messages, when the messages whose write is checked are written; it has then gone through the five states,
with `StateOpen` as the last one. Otherwise it returns an error, and whenever it does, it has not set `StateOpen`. -/
theorem handshake_admits (json : Unmarshal) (writes : ServerMessage → Bool) (config : ServerConfig)
    (stream : List UInt8) :
    ((∃ conn, Handshake.runHandshake json writes config { stream := stream } = .ok () conn) ↔
      writes .connectionStart = true ∧ writes .connectionOpenOK = true ∧
        ∃ startOK tuneOK opened, Admits json stream startOK tuneOK opened) ∧
    (∀ conn, Handshake.runHandshake json writes config { stream := stream } = .ok () conn →
      conn.states = [.awaitProtocolHeader, .awaitStartOK, .awaitTuneOK, .awaitOpen, .open]) ∧
    (∀ error conn, Handshake.runHandshake json writes config { stream := stream } = .error error conn →
      .open ∉ conn.states) ∧
    ((¬ ∃ startOK tuneOK opened, Admits json stream startOK tuneOK opened) →
      ∃ error conn, Handshake.runHandshake json writes config { stream := stream } = .error error conn ∧
        .open ∉ conn.states) := by
  have nil_iff : (∃ conn, Handshake.runHandshake json writes config { stream := stream } = .ok () conn) ↔ _ :=
    Handshake.runHandshake_eq_ok
  rw [reads_iff_admits] at nil_iff
  have unopened (error : HandshakeError) (conn : Negotiation)
      (failed : Handshake.runHandshake json writes config { stream := stream } = .error error conn) :
      .open ∉ conn.states :=
    Handshake.opensLast_runHandshake _ (by simp) error conn failed
  refine ⟨nil_iff, fun conn => Handshake.states_of_runHandshake, unopened, fun other => ?_⟩
  cases ran : Handshake.runHandshake json writes config { stream := stream } with
  | ok value conn => exact absurd (nil_iff.1 ⟨conn, ran⟩).2.2 other
  | error error conn => exact ⟨error, conn, rfl, unopened error conn ran⟩

/-- The line of a JSON object with the given members. -/
def objectLine (members : String) : List UInt8 := ascii ("\x7b" ++ members ++ "\x7d\n")

/-- `json.Unmarshal` on the empty object, and on objects that hold nothing but the expected type. -/
def sampleUnmarshal : Unmarshal where
  startOK line :=
    if line = objectLine "" then some {}
    else if line = objectLine "\"type\":\"connection.start_ok\"" then some { type := typeConnectionStartOK }
    else none
  tuneOK line :=
    if line = objectLine "" then some {}
    else if line = objectLine "\"type\":\"connection.tune_ok\"" then some { type := typeConnectionTuneOK }
    else none
  opened line :=
    if line = objectLine "" then some {}
    else if line = objectLine "\"type\":\"connection.open\"" then some { type := typeConnectionOpen }
    else none

/-- Three empty objects are taken for the three messages. -/
theorem untyped_messages_admitted :
    ¬ ∀ (json : Unmarshal) (writes : ServerMessage → Bool) (config : ServerConfig) (stream : List UInt8),
      (∃ conn, Handshake.runHandshake json writes config { stream := stream } = .ok () conn) →
      ∃ startOK tuneOK opened, Admits json stream startOK tuneOK opened ∧ startOK.type = typeConnectionStartOK ∧
        tuneOK.type = typeConnectionTuneOK ∧ opened.type = typeConnectionOpen := by
  intro documented
  let objects := objectLine "" ++ (objectLine "" ++ objectLine "")
  have opens : ∃ conn, Handshake.runHandshake sampleUnmarshal (fun _ => true) ⟨0, 0, 0⟩
      { stream := ascii (protocolHeader ++ "\n") ++ objects } = .ok () conn := ⟨_, rfl⟩
  obtain ⟨startOK, -, -, ⟨first, second, third, rest, stream, decoded, -, -, terminated⟩, typed, -⟩ :=
    documented _ _ _ _ opens
  -- The first line after the header is the empty object, which decodes to a message without a type.
  obtain ⟨text, clean, line⟩ := terminated first (by simp)
  have read : readLine objects = some (first, second ++ (third ++ rest)) :=
    readLine_eq_some.2 ⟨text, clean, line, List.append_cancel_left stream⟩
  have found : readLine objects = some (objectLine "", objectLine "" ++ objectLine "") := by decide
  obtain ⟨rfl, -⟩ := Prod.mk.inj (Option.some.inj (found.symm.trans read))
  have zero : sampleUnmarshal.startOK (objectLine "") = some {} := by decide
  rw [← Option.some.inj (zero.symm.trans decoded)] at typed
  exact absurd typed (by decide)

end GolangMQ.Transport
