import NanoFabric.Raft.Safety
import NanoFabric.Raft.StoredLog
import NanoFabric.Node.LsnOrder
import NanoFabric.Node.Convergence
import NanoFabric.Node.RowOrder
import NanoFabric.Metadata.Determinism
import NanoFabric.Metadata.Allocation
import NanoFabric.Metadata.PeerConfig
import NanoFabric.Metadata.SnapshotRoundTrip
import NanoFabric.Metadata.PlacementCalls
import NanoFabric.Storage.SnapshotFidelity
import NanoFabric.Replication.ReadOutcome
import NanoFabric.Replication.HintReplay
import NanoFabric.Replication.JobRecovery
import NanoFabric.Replication.ReadYourWrites
import NanoFabric.Storage.BackupChain
import NanoFabric.Storage.ClusterRestore
import NanoFabric.Storage.FailedRestore
import NanoFabric.Storage.PlacementRestore
import NanoFabric.Repair.Progress
import NanoFabric.Repair.ReadRepair
import NanoFabric.Node.Merkle
import NanoFabric.Repair.AntiEntropy
import NanoFabric.Repair.ClusterVerification
import NanoFabric.Repair.Reconciliation
import NanoFabric.Storage.RetentionManager
import NanoFabric.Storage.Reclamation
import NanoFabric.Storage.SnapshotScheduler
import NanoFabric.Storage.ProtectionTables
import NanoFabric.Storage.ArchiveIntegrity
import NanoFabric.Repair.JobLifeCycle
import NanoFabric.Replication.ReplicaStates
import NanoFabric.Metadata.FailureDetection
import NanoFabric.Found.Window
import NanoFabric.Metadata.PlacementBalance
import NanoFabric.Raft.Representation
import NanoFabric.Raft.Compaction
import NanoFabric.Raft.BackOff
import NanoFabric.Node.GroupedFsync
import NanoFabric.Node.OplogRefinement
import NanoFabric.Raft.Availability
import NanoFabric.Raft.CommitProgress
import NanoFabric.Raft.LeaderCompleteness
