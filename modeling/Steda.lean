import Steda.Transaction.Program
import Steda.Transaction.ReadCommitted
import Steda.Postgres.Numeric
import Steda.Postgres.Json
import Steda.Basic
import Steda.RetryStrategy
import Steda.CancellationPolicy
import Steda.Schema
import Steda.Functions.Failure
import Steda.Functions.RunControl
import Steda.Functions.Claiming
import Steda.Functions.Submission
import Steda.Functions.Retention
import Steda.Serial
import Steda.Lifecycle
import Steda.Transaction.Interference
import Steda.Evolution
import Steda.Ledger
import Steda.Statements
import Steda.Contracts.RunControl
import Steda.Contracts.Failure
import Steda.Contracts.Claiming
import Steda.Contracts.ClaimStatement
import Steda.Contracts.Retention
import Steda.Contracts.Submission
import Steda.Operation
import Steda.History
import Steda.Biography
import Steda.Laws.TaskInvariant
import Steda.Laws.Finality
import Steda.Laws.Deadlines
import Steda.Laws.Idempotency
import Steda.Requests
import Steda.Laws.PolicyUse
import Steda.Serial.Life
import Steda.Serial.RunControl
import Steda.Serial.Checkpoints
import Steda.Laws.Checkpoints
import Steda.Serial.Failure
import Steda.Serial.Supervision
import Steda.Serial.Calls
import Steda.Laws.Supervision
import Steda.Postgres.Catalog
import Steda.QueueStorage
import Steda.Laws.QueueNames
import Steda.Serial.Moves
import Steda.Serial.Sweeps
import Steda.Laws.Expiry
import Steda.Serial.Claims
import Steda.Laws.Claims
import Steda.Laws.Progress
import Steda.Client.TaskResult
import Steda.Laws.Defences
import Steda.Transaction.Conduct
import Steda.Transaction.Interleaving
import Steda.Contention
import Steda.Laws.Sweeping
import Steda.Laws.Races
import Steda.Laws.Conflicts
import Steda.Upkeep
import Steda.Transaction.Guard
import Steda.Laws.LockOrder
import Steda.Laws.HeldRuns
import Steda.Laws.GatedCalls
import Steda.Laws.BatchLocks
import Steda.Laws.Deadlocks
import Steda.Client.Errors
import Steda.Client.WorkerLoop
import Steda.Laws.Workers
import Steda.Laws.Backoff
import Steda.Laws.Failing
import Steda.Client.Executor
import Steda.Laws.Leases
import Steda.Laws.Expired
import Steda.Laws.Budget
import Steda.Laws.ExactSweeps
import Steda.Functions.QueuePolicy
import Steda.Serial.Retention
import Steda.Laws.Retention
import Steda.Client.TaskContext
import Steda.Laws.Contexts
import Steda.Laws.Steps
import Steda.Laws.Sleeps
import Steda.Laws.Fencing
import Steda.Client.Execution
import Steda.Laws.Suspensions
import Steda.Laws.Attempts
import Steda.Functions.Maintenance
import Steda.Laws.Maintenance
import Steda.Laws.WorkflowNames
import Steda.Client.SpawnOptions
import Steda.Laws.SpawnOptions
import Steda.Laws.Normalization
import Steda.Laws.Fairness
import Steda.Serde.Record
import Steda.Client.TaskHandle
import Steda.Laws.Polling
import Steda.Client.TaskWait
import Steda.Laws.TaskWaits
import Steda.Laws.References
import Steda.Client.TaskControl
import Steda.Laws.TaskControl
import Steda.Laws.CommitOrder
import Steda.Laws.ClaimRaces
import Steda.Client.Metrics
import Steda.Laws.Metrics
import Steda.Laws.Confirmations
import Steda.Laws.Outcomes
import Steda.Postgres.Definition
import Steda.Installation
import Steda.Laws.Installations
import Steda.Client.QueueAdmin
import Steda.Laws.PolicyReads
