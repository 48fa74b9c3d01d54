import Instructed.Lib.Consecutive
import Instructed.Lib.Tail
import Instructed.Lib.Table
import Instructed.Lib.Sequential
import Instructed.Lib.System
import Instructed.Lib.Restrict
import Instructed.Lib.HighWater
import Instructed.Lib.Lanes
import Instructed.Lib.Gapless
import Instructed.Lib.Double
import Instructed.Lib.Trace
import Instructed.Lib.Provenance
import Instructed.Sql.Values
import Instructed.Sql.Text
import Instructed.Store.Schema
import Instructed.Store.Append
import Instructed.Store.Read
import Instructed.Store.Invariant
import Instructed.Store.AppendCorrect
import Instructed.Store.Log
import Instructed.Store.Refine
import Instructed.Store.Outcome
import Instructed.Store.Snapshots
import Instructed.Aggregate.RunCommand
import Instructed.Aggregate.Serializable
import Instructed.Aggregate.ExpectedVersion
import Instructed.Aggregate.Reload
import Instructed.Aggregate.Paging
import Instructed.Aggregate.EveryN
import Instructed.Aggregate.Commanded
import Instructed.BankAccount.Aggregates
import Instructed.Client.RoundTrip
import Instructed.Client.Conflict
import Instructed.Txn.Model
import Instructed.Txn.Call
import Instructed.Txn.Invariant
import Instructed.Txn.Visibility
import Instructed.Txn.Linearization
import Instructed.Queue.Subscription
import Instructed.Queue.Errors
import Instructed.Queue.WorkItem
import Instructed.Queue.System
import Instructed.Queue.Invariant
import Instructed.Queue.Order
import Instructed.Queue.Done
import Instructed.Queue.Fencing
import Instructed.Queue.Frame
import Instructed.Queue.Restrict
import Instructed.Queue.Accounted
import Instructed.Queue.Replay
import Instructed.Queue.Claim
import Instructed.Queue.Lifecycle
import Instructed.Queue.Scope
import Instructed.Queue.Isolation
import Instructed.Queue.ForeignKeys
import Instructed.Queue.Readers
import Instructed.Routing.Worker
import Instructed.Routing.Steps
import Instructed.Routing.Invariant
import Instructed.Routing.ExactlyOnce
import Instructed.Routing.PerStream
import Instructed.Routing.CaughtUp
import Instructed.Lib.PrefixFree
import Instructed.Facade.Registry
import Instructed.Facade.Keys
import Instructed.Processing.Worker
import Instructed.Processing.Steps
import Instructed.Processing.Invariant
import Instructed.Processing.Order
import Instructed.Processing.InOrder
import Instructed.Processing.Retry
import Instructed.Lib.History
import Instructed.Projection.Worker
import Instructed.Consistency.Wait
import Instructed.Consistency.Polling
import Instructed.Consistency.Complete
import Instructed.Projection.ReadYourWrites
import Instructed.Projection.InOrder
import Instructed.ReadStore.System
import Instructed.ReadStore.Steps
import Instructed.ReadStore.Exact
import Instructed.BankAccount.Balances
import Instructed.Pm.Worker
import Instructed.Pm.Steps
import Instructed.Pm.Acknowledge
import Instructed.Pm.LeaseLoss
import Instructed.Pm.Terminal
import Instructed.Pm.State
import Instructed.Pm.Accounted
import Instructed.Pm.Dispatch
import Instructed.Pm.Causation
import Instructed.Lease.Exclusive
import Instructed.Lease.Fenced
import Instructed.Locks.DeadlockFree
import Instructed.Health.Contiguous
import Instructed.Health.Report
import Instructed.Routing.Loop
import Instructed.Operator.Subscriptions
