import HoloSphere.Cluster.Atomicity
import HoloSphere.Cluster.Ring
import HoloSphere.Consensus.DurableMirror
import HoloSphere.Consensus.LinearizableRead
import HoloSphere.Consensus.LogMatching
import HoloSphere.Consensus.Refusal
import HoloSphere.Consensus.TornTail
import HoloSphere.Graph.Analytics.Components
import HoloSphere.Graph.Analytics.KCore
import HoloSphere.Graph.Analytics.Triangles
import HoloSphere.Graph.Batches
import HoloSphere.Graph.Query.Documented
import HoloSphere.Graph.Query.HopExpansion
import HoloSphere.Graph.Query.Optimizer
import HoloSphere.Graph.Query.Planner
import HoloSphere.Graph.Snapshots
import HoloSphere.Index.CertifiedRuns
import HoloSphere.Proof.Pac
import HoloSphere.Relation.Bindings
import HoloSphere.Relation.Liveness
import HoloSphere.Relational.ReferentialIntegrity
import HoloSphere.Relational.SecondaryIndex
import HoloSphere.Relational.SnapshotVisibility
import HoloSphere.Storage.Compaction
import HoloSphere.Storage.ContractRuns
import HoloSphere.Storage.ExactSearch
import HoloSphere.Storage.GroupCommit
import HoloSphere.Storage.Snapshot
import HoloSphere.Storage.WalDamage
import HoloSphere.Storage.WalNumbers
import HoloSphere.Transport.RespServer
import HoloSphere.Cluster.Federation
import HoloSphere.Consensus.Application
import HoloSphere.Consensus.Replies
import HoloSphere.Discovery.Sandbox
import HoloSphere.Discovery.Definitions
