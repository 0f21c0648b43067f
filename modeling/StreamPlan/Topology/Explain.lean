import StreamPlan.Topology.Basic

/-!
# Explanations

The text of a topology for a person to read: one line a stage.

    source1 [source] x4
    source2 [source] x2
    join1 [join inner, tumbling 10 rows] x4 <- source1 (key), source2 (key)

## Main definitions

* `Topology.explain`.
-/

namespace StreamPlan

/-- A producer and how its records are distributed. -/
def InputEdge.explain (e : InputEdge) : String := e.producer ++ " (" ++ e.grouping.kind.label ++ ")"

/-- The line of a stage. -/
def Stage.explain (s : Stage) : String :=
  let inputs :=
    if s.inputs.isEmpty then "" else " <- " ++ Inspect.commas (s.inputs.map InputEdge.explain)
  s.name ++ " [" ++ s.unit.label ++ "] x" ++ toString s.partitions ++ inputs ++ "\n"

/-- One line a stage, in the order they were registered. -/
def Topology.explain (t : Topology) : String := String.join (t.stages.toList.map Stage.explain)

end StreamPlan
