import Raftiq.AcknowledgedWrites
import Raftiq.AppliedState
import Raftiq.ApplierProgress
import Raftiq.ConfigurationOrder
import Raftiq.Convergence
import Raftiq.DurableLog
import Raftiq.ElectionSafety
import Raftiq.FailedInstall
import Raftiq.FollowerCommit
import Raftiq.IndexOrder
import Raftiq.InterchangeableStorage
import Raftiq.Kv.Executions
import Raftiq.Kv.Legacy
import Raftiq.Kv.Lifecycle
import Raftiq.Kv.Starts
import Raftiq.LeaderVoters
import Raftiq.LockLease
import Raftiq.PublishedState
import Raftiq.QuorumIntersection
import Raftiq.Raft.ConfigExact
import Raftiq.Raft.MachineLog
import Raftiq.ReadFreshness
import Raftiq.Redelivery
import Raftiq.Reopening
import Raftiq.ReplicationProgress
import Raftiq.Scheduling
import Raftiq.ServerLocks
import Raftiq.SnapshotMembership
import Raftiq.Storage.Exact
import Raftiq.StorageLives
import Raftiq.WriteAheadLog
