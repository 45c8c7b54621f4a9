import GolangMQ.Model.Data
import Mathlib.Algebra.Ring.Int.Defs

/-! # The benchmark's configuration

The flags of the benchmark command. Integers and durations have 64 bits, as in the source. A refusal is the
call of `fmt.Errorf` that makes it.
-/

namespace GolangMQ.Bench

/-- `Distribution` is a string in the source; `other` is a value that is neither of the two declared ones. -/
inductive Distribution where
  | even
  | uneven
  | other (text : String)
deriving DecidableEq, Repr

/-- `Config`, with the values of `DefaultConfig`. -/
structure Config where
  addr : String := "127.0.0.1:5672"
  conns : Int64 := 1
  pubConns : Int64 := 0
  consConns : Int64 := 0
  channels : Int64 := 1
  pubChannels : Int64 := 0
  consChannels : Int64 := 0
  connsDist : Distribution := .even
  channelsDist : Distribution := .even
  pubChannelsDist : Distribution := .even
  maxChannelsPerConn : Int64 := 0
  maxConsumersPerChannel : Int64 := 0
  maxPublishersPerChannel : Int64 := 0
  publishers : Int64 := 1
  consumers : Int64 := 1
  msgs : Int64 := 1000
  size : Int64 := 128
  ack : Bool := true
  prefetch : Int64 := 10
  duration : Int64 := 0
  warmup : Int64 := 0
  report : Int64 := 1000000000
  drainTimeout : Int64 := 30000000000
  output : String := ""
  quiet : Bool := false
deriving DecidableEq, Repr

/-- `if condition { return fmt.Errorf(format, args...) }`. -/
def refuse (condition : Prop) [Decidable condition] (format : String) (args : List Arg) : Except Errorf Unit :=
  if condition then .error ⟨format, args⟩ else .ok ()

@[simp] theorem refuse_eq_ok {condition : Prop} [Decidable condition] {format : String} {args : List Arg}
    {done : Unit} :
    refuse condition format args = .ok done ↔ ¬condition := by
  by_cases refused : condition <;> simp [refuse, refused]

theorem bind_eq_ok {α β : Type} {first : Except Errorf α} {next : α → Except Errorf β} {result : β} :
    (first >>= next) = .ok result ↔ ∃ value, first = .ok value ∧ next value = .ok result := by
  cases first <;> simp [bind, Except.bind]

/-- The length of the fixed part of every body. -/
def headerLen : ℕ := 16

namespace Config

def validateDistribution (c : Config) : Except Errorf Unit :=
  match c.connsDist with
  | .other text => .error ⟨"invalid conns distribution %q (want even|uneven)", [.text text]⟩
  | _ =>
    match c.channelsDist with
    | .other text => .error ⟨"invalid channels distribution %q (want even|uneven)", [.text text]⟩
    | _ =>
      match c.pubChannelsDist with
      | .other text => .error ⟨"invalid pub-channels distribution %q (want even|uneven)", [.text text]⟩
      | _ => .ok ()

/-- The checks of `Validate` that need no topology. -/
def validateFlags (c : Config) : Except Errorf Unit := do
  refuse (c.addr = "") "-addr must not be empty" []
  refuse (c.conns ≤ 0) "-conns must be >= 1 (got %d)" [.int c.conns]
  refuse (c.pubConns < 0) "-pub-conns must be >= 0 (got %d)" [.int c.pubConns]
  refuse (c.consConns < 0) "-cons-conns must be >= 0 (got %d)" [.int c.consConns]
  refuse (c.conns < c.pubConns + c.consConns) "pub-conns + cons-conns = %d exceeds conns = %d"
    [.int (c.pubConns + c.consConns), .int c.conns]
  refuse (c.channels ≤ 0) "-channels must be >= 1 (got %d)" [.int c.channels]
  refuse (c.pubChannels < 0) "-pub-channels must be >= 0 (got %d)" [.int c.pubChannels]
  refuse (c.consChannels < 0) "-cons-channels must be >= 0 (got %d)" [.int c.consChannels]
  refuse (c.publishers < 0) "-publishers must be >= 0 (got %d)" [.int c.publishers]
  refuse (c.consumers < 0) "-consumers must be >= 0 (got %d)" [.int c.consumers]
  refuse (c.msgs < 0) "-msgs must be >= 0 (got %d)" [.int c.msgs]
  refuse (c.size < Int64.ofNat headerLen) "-size must be >= %d for the message identity header (got %d)"
    [.int (Int64.ofNat headerLen), .int c.size]
  refuse (c.report ≤ 0) "-report must be > 0 (got %v)" [.duration c.report]
  refuse (c.drainTimeout ≤ 0) "-drain-timeout must be > 0 (got %v)" [.duration c.drainTimeout]
  refuse (c.warmup < 0) "-warmup must be >= 0 (got %v)" [.duration c.warmup]
  refuse (c.duration < 0) "-duration must be >= 0 (got %v)" [.duration c.duration]
  c.validateDistribution

end Config

end GolangMQ.Bench
