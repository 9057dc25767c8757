import Orbiter.Foundation.Program
import Orbiter.Foundation.Records
import Orbiter.Foundation.Residuals
import Orbiter.Foundation.SerialRun
import Orbiter.Foundation.SerialTable
import Orbiter.Foundation.TransitionSystem
import Orbiter.Foundation.History
import Orbiter.Foundation.Interleaving
import Orbiter.Foundation.Possibility
import Orbiter.Foundation.TaggedTable
import Orbiter.Foundation.Driven
import Orbiter.Data.Values
import Orbiter.Data.JsonDecoder
import Orbiter.Data.Uuid
import Orbiter.Data.JsonEncoder
import Orbiter.Inputs
import Orbiter.Domain.StateMachine
import Orbiter.Domain.Grammar
import Orbiter.Db.ApplySchema
import Orbiter.Db.Schema
import Orbiter.Db.Listing
import Orbiter.Db.Repo
import Orbiter.Db.Fenced
import Orbiter.Db.Projection
import Orbiter.Db.Contents
import Orbiter.Db.Postings
import Orbiter.Db.Statements
import Orbiter.Db.Server
import Orbiter.Db.Isolation
import Orbiter.Db.Serializable
import Orbiter.Db.Status
import Orbiter.Db.Submissions
import Orbiter.Db.Polling
import Orbiter.Kv.Store
import Orbiter.Kv.Trace
import Orbiter.Kv.Valkey
import Orbiter.Kv.Noninterference
import Orbiter.Leases.Fencing
import Orbiter.Leases.System
import Orbiter.Leases.Exclusion
import Orbiter.Leases.Ordering
import Orbiter.Worker.Idempotency
import Orbiter.Worker.Claiming
import Orbiter.Worker.Handle
import Orbiter.Worker.Exclusion
import Orbiter.Broker.Stream
import Orbiter.Relay.OutboxRelay
import Orbiter.Relay.Mirror
import Orbiter.Relay.Transactions
import Orbiter.Relay.Safety
import Orbiter.Dlq.Advisory
import Orbiter.Dlq.Quarantine
import Orbiter.Dlq.Parsing
import Orbiter.Api.Admission
import Orbiter.Api.Jobs
import Orbiter.Fleet.World
import Orbiter.Fleet.System
import Orbiter.Fleet.Moves
import Orbiter.Fleet.Jobs
import Orbiter.Fleet.Refusals
import Orbiter.Fleet.Fencing
import Orbiter.Fleet.Executions
import Orbiter.Fleet.Leases
import Orbiter.Fleet.Owners
import Orbiter.Fleet.Progress
import Orbiter.Fleet.Alone
import Orbiter.Fleet.Cleanup
import Orbiter.Fleet.Metrics
import Orbiter.Fleet.Settled
import Orbiter.Fleet.Expiry
import Orbiter.Fleet.Outbox
import Orbiter.Fleet.Course
import Orbiter.Pipeline.System
import Orbiter.Pipeline.Moves
import Orbiter.Pipeline.Invariants
import Orbiter.Pipeline.Backlog
import Orbiter.Pipeline.Bounded
import Orbiter.Pipeline.Order
import Orbiter.Pipeline.Poison
import Orbiter.Pipeline.Quarantines
import Orbiter.Pipeline.Relays
import Orbiter.Pipeline.Stranded
import Orbiter.Pipeline.Copies
import Orbiter.Pipeline.GivenUp
import Orbiter.Pipeline.Operator
import Orbiter.Pipeline.Tending
import Orbiter.Pipeline.Undisturbed
import Orbiter.Pipeline.Recovery
import Orbiter.Services.System
import Orbiter.Services.Machines
import Orbiter.Services.Manned
import Orbiter.Services.Shutdown
import Orbiter.Services.Recovery

/-!
# Orbiter

A job service on PostgreSQL, JetStream and Valkey: the API writes a job and an outbox row in one
transaction, relays publish outbox rows, workers execute jobs under a claim and a fenced lease, and
a listener moves what the broker has given up on to a dead-letter stream, from where an operator can
replay it.

* `Foundation`: transition systems and their runs, simulations, programs of calls, tables, logs.
  Nothing in it is about this service.
* `Data`, `Inputs`, `Domain`: values, settings and requests, the state machine of a job.
* `Db`: the schema, the repository's transactions as functions, and the same transactions as
  statements that interleave on a server with row locks.
* `Kv`, `Leases`, `Worker`: the store, the lease manager and the execution guard on it, and `handle`
  as a program and as a machine of control points.
* `Broker`, `Relay`, `Dlq`, `Api`: the work stream, the outbox relay, the dead-letter listener, the
  handlers of the API.
* `Fleet`: any number of `handle` calls on one database and one store.
* `Pipeline`: the fleet with submitters, relays, broker, listeners and operators around it.
* `Services`: the processes that drive the pipeline.
-/
