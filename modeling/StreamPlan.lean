import StreamPlan.Binary.Bytes
import StreamPlan.Config.Basic
import StreamPlan.Config.Environment
import StreamPlan.Config.Json
import StreamPlan.Digest.Basic
import StreamPlan.Digest.Blake3
import StreamPlan.Error
import StreamPlan.Ieee.Basic
import StreamPlan.Ieee.Shortest
import StreamPlan.Json.Basic
import StreamPlan.Json.Decode
import StreamPlan.Json.Literal
import StreamPlan.Json.Reader
import StreamPlan.Json.Token
import StreamPlan.Json.Writer
import StreamPlan.Pipeline.Basic
import StreamPlan.Pipeline.Family
import StreamPlan.Plan.Compile
import StreamPlan.Plan.Session
import StreamPlan.Plan.Sink
import StreamPlan.Plan.StageNames
import StreamPlan.Proofs.Json.CompactText
import StreamPlan.Proofs.Json.FreeForm
import StreamPlan.Proofs.Json.Literals
import StreamPlan.Proofs.Json.ReadBack
import StreamPlan.Proofs.Json.TypedValues
import StreamPlan.Proofs.Pipeline.WellFormed
import StreamPlan.Proofs.Plan.Acceptance
import StreamPlan.Proofs.Plan.Builds
import StreamPlan.Proofs.Plan.Coherent
import StreamPlan.Proofs.Plan.Dialogue
import StreamPlan.Proofs.Plan.Embedding
import StreamPlan.Proofs.Plan.ExplainedBuilds
import StreamPlan.Proofs.Plan.Failures
import StreamPlan.Proofs.Plan.Faithful
import StreamPlan.Proofs.Plan.FreeNames
import StreamPlan.Proofs.Plan.History
import StreamPlan.Proofs.Plan.LeastFree
import StreamPlan.Proofs.Plan.Logged
import StreamPlan.Proofs.Plan.Lowering
import StreamPlan.Proofs.Plan.Numbering
import StreamPlan.Proofs.Plan.OccupiedSink
import StreamPlan.Proofs.Plan.Operations
import StreamPlan.Proofs.Plan.Pinning
import StreamPlan.Proofs.Plan.PlannedCalls
import StreamPlan.Proofs.Plan.Reachable
import StreamPlan.Proofs.Plan.RecursiveWalk
import StreamPlan.Proofs.Plan.RedundantRoots
import StreamPlan.Proofs.Plan.ReportedNames
import StreamPlan.Proofs.Plan.Roots
import StreamPlan.Proofs.Plan.Sessions
import StreamPlan.Proofs.Plan.Spine
import StreamPlan.Proofs.Plan.Success
import StreamPlan.Proofs.Plan.TopologySessions
import StreamPlan.Proofs.Plan.TopologySink
import StreamPlan.Proofs.Plan.WalkSteps
import StreamPlan.Proofs.Routing.Balance
import StreamPlan.Proofs.Routing.CoPartition
import StreamPlan.Proofs.Scalar.KeyForm
import StreamPlan.Proofs.Topology.Checks
import StreamPlan.Proofs.Topology.DependencyOrder
import StreamPlan.Proofs.Topology.DescriptorText
import StreamPlan.Proofs.Topology.Fingerprint
import StreamPlan.Proofs.Topology.Growth
import StreamPlan.Routing.Grouping
import StreamPlan.Scalar.Basic
import StreamPlan.Scalar.Json
import StreamPlan.Scalar.Key
import StreamPlan.Text.Blank
import StreamPlan.Text.Inspect
import StreamPlan.Topology.Basic
import StreamPlan.Topology.Check
import StreamPlan.Topology.Descriptor
import StreamPlan.Topology.Explain
import StreamPlan.Topology.Stage
import StreamPlan.Window.Basic
import StreamPlan.Window.Duration
