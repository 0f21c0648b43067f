/-!
# Failures

What can go wrong while a pipeline is described or compiled.  A failure names its
cause; `PlanError.message` is the only place where it is put into words.

## Main definitions

* `NodeId`, `StageId` — positions in a pipeline and in a topology.
* `PlanError`, `PlanError.message`.
-/

namespace StreamPlan

/-- The position of a node in its pipeline. -/
abbrev NodeId := Nat

/-- The position of a stage in its topology. -/
abbrev StageId := Nat

/-- The text that stands for a node. -/
def NodeId.text (id : NodeId) : String := s!"StreamletId({id})"

/-- The text that stands for a stage. -/
def StageId.text (id : StageId) : String := s!"StageId({id})"

/-- Why an operation failed. -/
inductive PlanError where
  /-- Two stages have the same name. -/
  | duplicateName (name : String)
  /-- A node depends on one that the pipeline does not have. -/
  | missingDependency (node parent : NodeId)
  /-- The pipeline has no such node. -/
  | unknownNode (id : NodeId)
  /-- The topology has no such stage. -/
  | unknownStage (name : String)
  /-- The number of partitions is zero or too large. -/
  | invalidPartitions (stage : String) (partitions : UInt64)
  /-- A setting is not acceptable. -/
  | config (reason : String)
  /-- A value could not be hashed. -/
  | hash (reason : String)
  /-- A compiled topology does not have a property it must have. -/
  | invariant (reason : String)
  deriving DecidableEq, Repr

/-- The failure in words. -/
def PlanError.message : PlanError → String
  | .duplicateName name => s!"Duplicate stage name: {name}"
  | .missingDependency node parent =>
    "Streamlet " ++ NodeId.text node ++ " depends on " ++ NodeId.text parent ++
      ", which is not part of the graph"
  | .unknownNode id => "Unknown streamlet: " ++ NodeId.text id
  | .unknownStage name => s!"Unknown stage: {name}"
  | .invalidPartitions stage partitions => s!"Invalid partition count {partitions} for {stage}"
  | .config reason => s!"Invalid configuration: {reason}"
  | .hash reason => s!"Hashing error: {reason}"
  | .invariant reason => s!"Internal invariant failed: {reason}"

end StreamPlan
