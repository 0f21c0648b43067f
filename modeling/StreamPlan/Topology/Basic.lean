import Std.Data.TreeMap
import StreamPlan.Topology.Stage

/-!
# Topologies

A topology is the list of compiled stages in the order they were registered, with
an index from names to positions.  It grows by registering stages and by wiring
edges between stages that are registered.

## Main definitions

* `Topology`, `Topology.register`, `Topology.wire` — a topology and how it grows.
* `Topology.stage?`, `Topology.position?`, `Topology.inputs`,
  `Topology.consumers` — what can be asked of it.
-/

namespace StreamPlan

/-- A compiled plan. -/
structure Topology where
  /-- The stages in the order they were registered. -/
  stages : Array Stage
  /-- The position of each name. -/
  index : Std.TreeMap String Nat

namespace Topology

/-- No stages. -/
def empty : Topology := ⟨#[], ∅⟩

instance : Inhabited Topology := ⟨empty⟩

/-- The number of stages. -/
def size (t : Topology) : Nat := t.stages.size

/-! ### Growing -/

/-- Adds a stage without inputs at the end. -/
def push (t : Topology) (name : String) (partitions : UInt64) (unit : StageUnit) : Topology :=
  ⟨t.stages.push ⟨t.stages.size, name, partitions, unit, []⟩, t.index.insert name t.stages.size⟩

@[simp] theorem size_push (t : Topology) (name : String) (partitions : UInt64) (unit : StageUnit) :
    (t.push name partitions unit).size = t.size + 1 := by
  simp [push, size]

/-- Registers a stage under a new name. -/
@[inline] def register (t : Topology) (name : String) (partitions : UInt64) (unit : StageUnit) :
    Except PlanError (StageId × Topology) :=
  if t.index.contains name then .error (.duplicateName name)
  else if partitions = 0 then .error (.invalidPartitions name partitions)
  else .ok (t.size, t.push name partitions unit)

/-- Adds an edge to the inputs of a stage. -/
def addInput (edge : InputEdge) (s : Stage) : Stage := { s with inputs := s.inputs ++ [edge] }

/-- Wires an edge between two registered stages. -/
@[inline] def wire (t : Topology) (consumer producer : String) (grouping : Grouping) :
    Except PlanError Topology :=
  if t.index.contains producer then
    match t.index[consumer]? with
    | some i => .ok { t with stages := t.stages.modify i (addInput ⟨producer, grouping⟩) }
    | none => .error (.unknownStage consumer)
  else .error (.unknownStage producer)

/-! ### Looking up -/

/-- The position of a name. -/
def position? (t : Topology) (name : String) : Option Nat := t.index[name]?

@[simp] theorem position?_push (t : Topology) (name other : String) (partitions : UInt64)
    (unit : StageUnit) :
    (t.push name partitions unit).position? other
      = if name = other then some t.size else t.position? other := by
  simp [push, position?, size, Std.TreeMap.getElem?_insert]

/-- The stage of a name. -/
def stage? (t : Topology) (name : String) : Option Stage :=
  (t.position? name).bind fun i => t.stages[i]?

/-- The names in the order they were registered. -/
def names (t : Topology) : List String := t.stages.toList.map Stage.name

@[simp] theorem names_push (t : Topology) (name : String) (partitions : UInt64)
    (unit : StageUnit) : (t.push name partitions unit).names = t.names ++ [name] := by
  simp [push, names]

/-- The edges on which a stage's records arrive. -/
def inputs (t : Topology) (name : String) : Except PlanError (List InputEdge) :=
  match t.stage? name with
  | some s => .ok s.inputs
  | none => .error (.unknownStage name)

/-- The stages that read from a stage, in the order they were registered. -/
def consumers (t : Topology) (name : String) : List String :=
  (t.stages.toList.filter fun s => s.inputs.any fun e => e.producer == name).map Stage.name

end Topology

end StreamPlan
