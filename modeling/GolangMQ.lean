import GolangMQ.ToMathlib.Collections
import GolangMQ.ToMathlib.Scatter
import GolangMQ.ToMathlib.BigEndian
import GolangMQ.ToMathlib.OrderStatistics
import GolangMQ.ToMathlib.Numerals
import GolangMQ.Machine.Core
import GolangMQ.Machine.Heap
import GolangMQ.Machine.Slices
import GolangMQ.Machine.Bufio
import GolangMQ.Machine.Pool
import GolangMQ.Machine.Mutexes
import GolangMQ.Machine.Linearizability
import GolangMQ.Machine.Worklists
import GolangMQ.Custody.Ledger
import GolangMQ.Custody.Conservation
import GolangMQ.Model.Data
import GolangMQ.Model.Operations
import GolangMQ.Model.Effects
import GolangMQ.Model.Concurrent
import GolangMQ.Model.Steps
import GolangMQ.Model.References
import GolangMQ.Model.Wellformed
import GolangMQ.Model.Sections
import GolangMQ.Model.Ownership
import GolangMQ.Delivery.Refinement
import GolangMQ.Delivery.Safety
import GolangMQ.Delivery.Order
import GolangMQ.Dispatch.Wakeup
import GolangMQ.Dispatch.Bookkeeping
import GolangMQ.Dispatch.Tags
import GolangMQ.Transport.Lines
import GolangMQ.Transport.Pump
import GolangMQ.Transport.Shutdown
import GolangMQ.Transport.Framing
import GolangMQ.Transport.Linearizable
import GolangMQ.Transport.Handshake
import GolangMQ.Requests.Handling
import GolangMQ.Requests.Failure
import GolangMQ.Requests.Settlement
import GolangMQ.Requests.Isolation
import GolangMQ.Requests.Registries
import GolangMQ.Requests.Closing
import GolangMQ.Requests.Completion
import GolangMQ.Requests.Routing
import GolangMQ.Requests.Enrolment
import GolangMQ.Requests.Replies
import GolangMQ.Requests.Counters
import GolangMQ.Requests.Disposition
import GolangMQ.Requests.Departure
import GolangMQ.Requests.ConsumerTags
import GolangMQ.Requests.Provenance
import GolangMQ.Requests.Correlation
import GolangMQ.Requests.Budgets
import GolangMQ.Delivery.Quiescence
import GolangMQ.Delivery.Draining
import GolangMQ.Delivery.Credit
import GolangMQ.Locks.Programs
import GolangMQ.Locks.Order
import GolangMQ.Bench.Config
import GolangMQ.Bench.Topology
import GolangMQ.Bench.Placement
import GolangMQ.Bench.Workers
import GolangMQ.Bench.Overflow
import GolangMQ.Bench.Flags
import GolangMQ.Bench.Stats
import GolangMQ.Bench.Rows
import GolangMQ.Bench.Phases
import GolangMQ.Bench.Accounts
import GolangMQ.Bench.Accumulators
import GolangMQ.Bench.Boundary
import GolangMQ.Bench.Decompositions
import GolangMQ.Bench.Windows
import GolangMQ.Bench.Header
import GolangMQ.Bench.Engine
import GolangMQ.Bench.Actions
import GolangMQ.Bench.Budget
import GolangMQ.Bench.Arrivals
import GolangMQ.Bench.Callers
import GolangMQ.Bench.Deliveries
import GolangMQ.Bench.Duplicates
import GolangMQ.Bench.Places
import GolangMQ.Bench.Drain
import GolangMQ.Bench.Numbers
import GolangMQ.Bench.Losses
import GolangMQ.Bench.Bodies
import GolangMQ.Bench.Latency
import GolangMQ.Bench.Csv
import GolangMQ.Bench.RunID
import GolangMQ.Bench.SharedBroker
import GolangMQ.Bench.Warnings
