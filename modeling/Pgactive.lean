import Pgactive.Transition
import Pgactive.BroadcastLog
import Pgactive.Tenancy
import Pgactive.JoinConvergence
import Pgactive.ByteReader
import Pgactive.FallibleState
import Pgactive.Scanf
import Pgactive.CLayout
import Pgactive.Polling
import Pgactive.SinglyLinked
import Pgactive.Identifiers
import Pgactive.CString
import Pgactive.Jsonb
import Pgactive.Conninfo
import Pgactive.Tuple
import Pgactive.Apply
import Pgactive.Replay
import Pgactive.Replication
import Pgactive.RowHistory
import Pgactive.Versions
import Pgactive.RowConvergence
import Pgactive.LastUpdateWins
import Pgactive.TieBreak
import Pgactive.UnchangedColumns
import Pgactive.DeleteOrdering
import Pgactive.PrimaryKey
import Pgactive.UniqueConflicts
import Pgactive.ApplyFrame.Handlers
import Pgactive.ApplyFrame.Queues
import Pgactive.ApplyFrame.Restores
import Pgactive.ApplyFrame.QueuedDrop
import Pgactive.Feedback
import Pgactive.Snowflake
import Pgactive.SequenceNodeId
import Pgactive.NodeIdentifier
import Pgactive.NodeIdentifierSlots
import Pgactive.Stream.Wire
import Pgactive.Stream.Output
import Pgactive.Stream.RoundTrip
import Pgactive.Stream.Surplus
import Pgactive.Stream.TupleBounds
import Pgactive.Stream.Loops
import Pgactive.Names
import Pgactive.Locks.State
import Pgactive.Locks.Acquire
import Pgactive.Locks.Peer
import Pgactive.Locks.Messages
import Pgactive.Locks.System
import Pgactive.Locks.Consistency
import Pgactive.Locks.Granting
import Pgactive.Locks.Grants
import Pgactive.Locks.Tally
import Pgactive.Locks.MutualExclusion
import Pgactive.Locks.Detach
import Pgactive.Locks.Strength
import Pgactive.Locks.Sections
import Pgactive.Locks.Decline
import Pgactive.Locks.ReplayQuorum
import Pgactive.Locks.Quiescence
import Pgactive.Locks.Phases
import Pgactive.Locks.Startup
import Pgactive.Locks.Crashes
import Pgactive.Locks.Record
import Pgactive.Locks.Recovery
import Pgactive.Locks.SharedMemory
import Pgactive.Locks.Timeouts
import Pgactive.Locks.Waiters
import Pgactive.Locks.PendingState
import Pgactive.Membership.Nodes
import Pgactive.Membership.Limit
import Pgactive.Membership.SeqIds
import Pgactive.Catalog.Nodes
import Pgactive.Catalog.SeqIds
import Pgactive.Catalog.Connections
import Pgactive.Replica.Init
import Pgactive.Replica.Phases
import Pgactive.Replica.ExactlyOnce
import Pgactive.Replica.Status
import Pgactive.Replica.Progress
import Pgactive.Replica.ReadOnly
import Pgactive.Replica.CatchupWorker
import Pgactive.Replica.SlotWait
import Pgactive.Workers.Slots
import Pgactive.Workers.Steps
import Pgactive.Workers.Lifecycle
import Pgactive.Workers.Ownership
import Pgactive.Workers.Provenance
import Pgactive.Workers.PerDb
import Pgactive.Workers.Lookup
import Pgactive.Workers.DetachSignals
import Pgactive.Workers.DetachCleanup
import Pgactive.Catalog.Remove
import Pgactive.Ddl.Statements
import Pgactive.Ddl.CommandFilter
import Pgactive.Ddl.Nesting
import Pgactive.Ddl.QueuedOnce
import Pgactive.Ddl.SearchPath
import Pgactive.Ddl.Classification
import Pgactive.Ddl.Trace
import Pgactive.Ddl.Truncate
import Pgactive.WriteFilter
import Pgactive.Labels.Database
import Pgactive.Labels.Relation
import Pgactive.ReplicationSets.Settings
import Pgactive.ReplicationSets.IncludeExclude
import Pgactive.Connections.UserMapping
import Pgactive.Connections.Compare
import Pgactive.Connections.Update
import Pgactive.InitCopy.Connstr
import Pgactive.StrictNames
import Pgactive.Statistics.File
import Pgactive.Statistics.Locks
import Pgactive.Statistics.Slots
import Pgactive.ArrayLiteral
import Pgactive.ReplicationSets.Lists
import Pgactive.InitCopy.Databases
import Pgactive.Replica.RemoteResults
import Pgactive.Replica.Dump
import Pgactive.ConflictLog
import Pgactive.ApplyDelay
import Pgactive.Locks.Agreement
