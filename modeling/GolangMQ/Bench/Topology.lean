import GolangMQ.Bench.Config
import GolangMQ.ToMathlib.Scatter
import Mathlib.Data.List.Sort

/-! # The benchmark's plan

`buildTopology` places channels on connections, gives every channel its role, and places the publishers and
consumers on the channels that can take them. The slots of the channels are allocated one after another and
referred to by pointers, as in the source; the plan it returns shows the slots as they are at the end.
-/

namespace GolangMQ.Bench

/-- `Role` of a channel. -/
inductive Role where
  | both
  | publish
  | consume
deriving DecidableEq, Repr

/-- `ConnRole`. -/
inductive ConnRole where
  | mixed
  | publishOnly
  | consumeOnly
deriving DecidableEq, Repr

/-- `channelSlot`, without the client channel that `Run` opens for it. -/
structure ChannelSlot where
  conn : ℕ
  ch : ℕ
  globalIndex : ℕ
  role : Role := .both
  pubGoroutines : List ℕ := []
  consGoroutines : List ℕ := []
  publishCapIdx : ℤ := -1
deriving DecidableEq, Repr

/-- `connPlan`, over slots or over pointers to them. -/
structure ConnPlan (α : Type) where
  conn : ℕ
  role : ConnRole
  channels : List α
deriving DecidableEq, Repr

/-- `Topology`, over slots or over pointers to them. -/
structure Topology (α : Type) where
  conns : List (ConnPlan α) := []
  publishCapable : List α := []
  consumeCapable : List α := []
deriving DecidableEq, Repr

namespace Role

/-- `P` or `B`. -/
def publishes : Role → Bool
  | both | publish => true
  | consume => false

/-- `C` or `B`. -/
def consumes : Role → Bool
  | both | consume => true
  | publish => false

end Role

/-- The slots allocated so far. -/
abbrev Slots := List ChannelSlot

def Slots.at (slots : Slots) (p : ℕ) : ChannelSlot := slots.getD p ⟨0, 0, 0, .both, [], [], -1⟩

/-- The plan with every pointer replaced by its slot. -/
def Topology.resolve (t : Topology ℕ) (slots : Slots) : Topology ChannelSlot where
  conns := t.conns.map fun cp => ⟨cp.conn, cp.role, cp.channels.map slots.at⟩
  publishCapable := t.publishCapable.map slots.at
  consumeCapable := t.consumeCapable.map slots.at

namespace Config

/-- Step 1: the global indices of the channels that each connection gets. -/
def chans (c : Config) : Except Errorf (List (List ℕ)) :=
  let n := c.conns.toNatClampNeg
  let channels := List.range c.channels.toNatClampNeg
  match c.connsDist with
  | .even => .ok (List.scatter (· % n) (fun chans i => chans ++ [i]) (List.replicate n []) channels)
  | .uneven =>
    let capN := c.maxChannelsPerConn
    if capN ≤ 0 then .ok ((List.replicate n []).set 0 channels)
    else if c.conns * capN < c.channels then
      .error ⟨"uneven conns distribution: %d channels do not fit in %d conns x %d max-channels-per-conn",
        [.int c.channels, .int c.conns, .int capN]⟩
    else
      .ok (List.scatter (· / capN.toNatClampNeg) (fun chans i => chans ++ [i]) (List.replicate n []) channels)
  | .other _ => .ok (List.replicate n [])

/-- The first connections are publish-only, the next ones consume-only, and the rest are mixed. -/
def connRole (c : Config) (i : ℕ) : ConnRole :=
  if (i : ℤ) < c.pubConns.toInt then .publishOnly
  else if (i : ℤ) < (c.pubConns + c.consConns).toInt then .consumeOnly
  else .mixed

/-- The slot of a channel when its connection is opened. -/
def newSlot (c : Config) (cn j gi : ℕ) : ChannelSlot where
  conn := cn
  ch := j
  globalIndex := gi
  role :=
    match c.connRole cn with
    | .publishOnly => .publish
    | .consumeOnly => .consume
    | .mixed => .both

/-- The slots of one connection are allocated in the order of its channels. -/
def openConn (c : Config) (opened : Slots × List (ConnPlan ℕ)) (conn : List ℕ × ℕ) : Slots × List (ConnPlan ℕ) :=
  let (slots, conns) := opened
  let (chans, cn) := conn
  let added := chans.zipIdx.map fun (gi, j) => c.newSlot cn j gi
  (slots ++ added, conns ++ [⟨cn, c.connRole cn, List.range' slots.length added.length⟩])

/-- All slots in the order of their global indices. These differ, so that it is immaterial which sort is used. -/
def sortSlots (slots : Slots) : List ℕ :=
  (List.range slots.length).insertionSort fun p q => (slots.at p).globalIndex ≤ (slots.at q).globalIndex

/-- One round of the loop that carves the roles, with the numbers of roles that are left. -/
def stampRole (state : Slots × ℤ × ℤ) (p : ℕ) : Slots × ℤ × ℤ :=
  let (slots, pubLeft, consLeft) := state
  if 0 < pubLeft then (slots.modify p ({ · with role := .publish }), pubLeft - 1, consLeft)
  else if 0 < consLeft then (slots.modify p ({ · with role := .consume }), pubLeft, consLeft - 1)
  else (slots.modify p ({ · with role := .both }), pubLeft, consLeft)

/-- `buildTopology` without the workers. -/
def layout (c : Config) : Except Errorf (Slots × Topology ℕ) := do
  let chans ← c.chans
  let (slots, conns) := chans.zipIdx.foldl c.openConn ([], [])
  let allSlots := sortSlots slots
  let mixed := allSlots.filter fun p => c.connRole (slots.at p).conn = .mixed
  let carve := c.pubChannels + c.consChannels
  refuse ((mixed.length : ℤ) < carve.toInt)
    "role carving overflow: pub-channels + cons-channels = %d exceed mixed-conn channel slots = %d"
    [.int carve, .int (Int64.ofNat mixed.length)]
  let (slots, _, _) := mixed.foldl stampRole (slots, c.pubChannels.toInt, c.consChannels.toInt)
  let publishCapable := allSlots.filter fun p => (slots.at p).role.publishes
  let consumeCapable := allSlots.filter fun p => (slots.at p).role.consumes
  let slots := slots.scatter Prod.fst (fun sl entry => { sl with publishCapIdx := entry.2 }) publishCapable.zipIdx
  .ok (slots, { conns, publishCapable, consumeCapable })

end Config

/-- `placeWorkers` spreads `count` goroutines over slots; `assign` notes a goroutine in its slot. -/
def placeWorkers (count : Int64) (slots : List ℕ) (mode : Distribution) (capN : Int64)
    (noun slotsDesc capFlag : String) (assign : ChannelSlot → ℕ → ChannelSlot) (allocated : Slots) :
    Except Errorf Slots :=
  let workers := List.range count.toNatClampNeg
  let len := slots.length
  if count = 0 then .ok allocated
  else if len = 0 then .error ⟨"no %s to place %d %s", [.text slotsDesc, .int count, .text noun]⟩
  else
    match mode with
    | .even => .ok (allocated.scatter (fun j => slots.getD (j % len) 0) assign workers)
    | .uneven =>
      if capN ≤ 0 then .ok (allocated.scatter (fun _ => slots.getD 0 0) assign workers)
      else if Int64.ofNat len * capN < count then
        .error ⟨"%d %s do not fit in %d %s x %d %s",
          [.int count, .text noun, .int (Int64.ofNat len), .text slotsDesc, .int capN, .text capFlag]⟩
      else .ok (allocated.scatter (fun j => slots.getD (j / capN.toNatClampNeg % len) 0) assign workers)
    | .other text => .error ⟨"invalid distribution %q", [.text text]⟩

namespace Config

def buildTopology (c : Config) (assignWorkers : Bool) : Except Errorf (Topology ChannelSlot) := do
  let (slots, t) ← c.layout
  if !assignWorkers then .ok (t.resolve slots)
  else
    refuse (0 < c.consumers ∧ t.consumeCapable.length = 0) "no consume-capable channels but -consumers = %d"
      [.int c.consumers]
    let slots ← placeWorkers c.consumers t.consumeCapable c.channelsDist c.maxConsumersPerChannel
      "consumers" "consume-capable channels" "max-consumers-per-channel"
      (fun sl j => { sl with consGoroutines := sl.consGoroutines ++ [j] }) slots
    refuse (0 < c.publishers ∧ t.publishCapable.length = 0) "no publish-capable channels but -publishers = %d"
      [.int c.publishers]
    let slots ← placeWorkers c.publishers t.publishCapable c.pubChannelsDist c.maxPublishersPerChannel
      "publishers" "publish-capable channels" "max-publishers-per-channel"
      (fun sl j => { sl with pubGoroutines := sl.pubGoroutines ++ [j] }) slots
    .ok (t.resolve slots)

/-- `Validate`. -/
def validate (c : Config) : Except Errorf Unit := do
  c.validateFlags
  let _ ← c.buildTopology true
  .ok ()

/-- `Build`. -/
def build (c : Config) : Except Errorf (Topology ChannelSlot) := do
  c.validate
  c.buildTopology true

/-- The defaults pass their own checks. -/
example : (build {}).isOk := by decide +kernel

end Config

end GolangMQ.Bench
