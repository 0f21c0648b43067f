import StreamPlan.Pipeline.Family
import StreamPlan.Routing.Grouping

/-!
# Stages

A stage is the compiled form of a node: what it runs, over how many partitions,
and the edges on which its records arrive.

## Main definitions

* `JoinUnit`, `StageUnit` — what a stage runs.
* `StageUnit.config` — its parameters as a free-form JSON value.
* `StageUnit.label` — its words in an explanation.
* `InputEdge`, `Stage`.
-/

namespace StreamPlan

/-- What a join stage runs.  It knows which stage is which side. -/
structure JoinUnit where
  /-- The stage on the left side. -/
  left : String
  /-- The stage on the right side. -/
  right : String
  /-- Records meet in a window. -/
  window : Window
  /-- Which records without a partner are kept. -/
  joinType : JoinType
  /-- The record made of two that share a key. -/
  combine : Scalar → Scalar → Scalar

/-- What a stage runs. -/
inductive StageUnit where
  /-- Produces records. -/
  | source (next : SourceFn)
  /-- Has one input. -/
  | transform (op : Transform)
  /-- Has two inputs. -/
  | join (unit : JoinUnit)

namespace StageUnit

/-- The family of what is run. -/
def family : StageUnit → Family
  | .source _ => .source
  | .transform op => op.family
  | .join _ => .join

/-- The parameters of what is run, as far as they can be written. -/
def config : StageUnit → Json
  | .join unit =>
    Json.sorted (.obj [("left", .str unit.left), ("right", .str unit.right),
      ("window", unit.window.toJson), ("join_type", unit.joinType.toJson)])
  | _ => .null

/-- The words for what is run. -/
def label : StageUnit → String
  | .join unit => "join " ++ unit.joinType.label ++ ", " ++ unit.window.label
  | unit => unit.family.label

/-- The text of what is run. -/
def inspect (u : StageUnit) : String := "ProcessingUnit(" ++ u.family.label ++ ")"

end StageUnit

/-- An edge on which records arrive. -/
structure InputEdge where
  /-- The stage the records come from. -/
  producer : String
  /-- How they are distributed. -/
  grouping : Grouping

/-- The text of an edge. -/
def InputEdge.inspect (e : InputEdge) : String :=
  Inspect.record "InputEdge" [("producer", Inspect.quoted e.producer),
    ("grouping", e.grouping.inspect)]

/-- A stage. -/
structure Stage where
  /-- Where the stage stands in its topology. -/
  id : StageId
  /-- What edges and lookups refer to the stage by. -/
  name : String
  /-- The number of instances. -/
  partitions : UInt64
  /-- What is run. -/
  unit : StageUnit
  /-- The edges on which records arrive. -/
  inputs : List InputEdge

/-- The text of a stage. -/
def Stage.inspect (s : Stage) : String :=
  Inspect.record "Stage" [("id", StageId.text s.id), ("name", Inspect.quoted s.name),
    ("partitions", toString s.partitions), ("unit", s.unit.inspect),
    ("inputs", Inspect.list (s.inputs.map InputEdge.inspect))]

end StreamPlan
