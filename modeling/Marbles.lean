import Marbles.Adapter.Alone
import Marbles.Adapter.Answering
import Marbles.Adapter.AuditTrail
import Marbles.Adapter.InStep
import Marbles.Adapter.Inner
import Marbles.Adapter.Keys
import Marbles.Adapter.Leases
import Marbles.Adapter.Looking
import Marbles.Adapter.Methods
import Marbles.Adapter.Mirror
import Marbles.Adapter.Parity
import Marbles.Adapter.Reopenings
import Marbles.Adapter.SharedBook
import Marbles.Adapter.Simulates
import Marbles.Adapter.Soil
import Marbles.Adapter.Store
import Marbles.Adapter.Trail
import Marbles.Adapter.Twin
import Marbles.Adapter.Windows
import Marbles.Addresses
import Marbles.Agreement
import Marbles.Api
import Marbles.Auth
import Marbles.Client.Cache
import Marbles.Client.Call
import Marbles.Client.Exchange
import Marbles.Client.Pruning
import Marbles.Coupling
import Marbles.Creation
import Marbles.Dashboard
import Marbles.Db.Action
import Marbles.Db.Acts
import Marbles.Db.Alone
import Marbles.Db.Claims
import Marbles.Db.Closing
import Marbles.Db.Dag
import Marbles.Db.Effect
import Marbles.Db.Enters
import Marbles.Db.Expiry
import Marbles.Db.Fetching
import Marbles.Db.Heartbeats
import Marbles.Db.History
import Marbles.Db.Labels
import Marbles.Db.Metrics
import Marbles.Db.Ops
import Marbles.Db.References
import Marbles.Db.Requeue
import Marbles.Db.Returns
import Marbles.Db.Rows
import Marbles.Db.Tables
import Marbles.Db.Tx
import Marbles.Deadline
import Marbles.Delivered
import Marbles.Dropping
import Marbles.Durable
import Marbles.Federation.Assertions
import Marbles.Federation.Audit
import Marbles.Federation.Capture
import Marbles.Federation.Crypto
import Marbles.Federation.Events
import Marbles.Federation.Identity
import Marbles.Federation.Payload
import Marbles.Federation.Pins
import Marbles.Federation.Recorded
import Marbles.Federation.Remotes
import Marbles.Federation.Replay
import Marbles.Federation.Rollback
import Marbles.Federation.Rotation
import Marbles.Federation.Snapshot
import Marbles.Federation.SnapshotChain
import Marbles.Folders
import Marbles.Frontier
import Marbles.Gantt
import Marbles.GanttI64
import Marbles.Hierarchy
import Marbles.Hosted
import Marbles.Hours
import Marbles.Import
import Marbles.Importing.Collisions
import Marbles.Importing.Contract
import Marbles.Importing.Examining
import Marbles.Importing.Export
import Marbles.Importing.Guarded
import Marbles.Importing.Landing
import Marbles.Importing.ListImport
import Marbles.Importing.Mirrored
import Marbles.Importing.Phases
import Marbles.Importing.Reordered
import Marbles.Importing.Resuming
import Marbles.Importing.Runs
import Marbles.Importing.Settling
import Marbles.Importing.Statuses
import Marbles.Importing.Vacated
import Marbles.Importing.Verbatim
import Marbles.Lib.Buckets
import Marbles.Lib.Civil
import Marbles.Lib.DepthFirst
import Marbles.Lib.Elapsed
import Marbles.Lib.Extensional
import Marbles.Lib.Extremes
import Marbles.Lib.Forest
import Marbles.Lib.Graph
import Marbles.Lib.HashChain
import Marbles.Lib.Journal
import Marbles.Lib.Json
import Marbles.Lib.Listing
import Marbles.Lib.Machine
import Marbles.Lib.Marker
import Marbles.Lib.Mirror
import Marbles.Lib.Mutation
import Marbles.Lib.Numeral
import Marbles.Lib.Outcome
import Marbles.Lib.Overflow
import Marbles.Lib.Prog
import Marbles.Lib.Ratchet
import Marbles.Lib.Reader
import Marbles.Lib.Rely
import Marbles.Lib.Schedule
import Marbles.Lib.Sort
import Marbles.Lib.Sweep
import Marbles.Lib.Table
import Marbles.Lib.Tally
import Marbles.Lib.Tenancy
import Marbles.Lib.Topo
import Marbles.Offering
import Marbles.Overflow
import Marbles.PlanOrder
import Marbles.PlanSpec
import Marbles.Planning
import Marbles.Planted
import Marbles.Portfolio
import Marbles.Postgres.Connection
import Marbles.Postgres.Migration
import Marbles.Postgres.Promotion
import Marbles.Postgres.Schema
import Marbles.Postgres.Store
import Marbles.Postgres.Sweep
import Marbles.Postgres.Tenants
import Marbles.Postgres.Transaction
import Marbles.QueueAge
import Marbles.Readback
import Marbles.Readiness
import Marbles.ReadyWork
import Marbles.Refresh
import Marbles.Refs
import Marbles.Registry
import Marbles.Releasing
import Marbles.Report
import Marbles.Revisions
import Marbles.Setup
import Marbles.Store
import Marbles.Time
import Marbles.Tokens
import Marbles.Types
import Marbles.Validation
import Marbles.View.Document
import Marbles.View.GanttTable
import Marbles.View.ReadyTable
import Marbles.View.Timestamp
import Marbles.Walk
import Marbles.Webhook
import Marbles.Workspace
import Marbles.Db.Doctor
import Marbles.Db.Openings
import Marbles.Db.Retold
import Marbles.Draining
import Marbles.Client.Rotation
import Marbles.Postgres.Root
import Marbles.Federation.Following
import Marbles.Preview
import Marbles.Lib.Exposition
import Marbles.Lib.Counts
import Marbles.Db.Scrape
import Marbles.Narrowing
import Marbles.Lib.Hosting
