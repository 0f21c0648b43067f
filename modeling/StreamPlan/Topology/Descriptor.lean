import StreamPlan.Topology.Basic

/-!
# Descriptors

The descriptor of a topology is what can be written down of it: everything but
the functions.  Its compact text is hashed for the fingerprint of the topology.

## Main definitions

* `EdgeDescriptor`, `StageDescriptor`, `TopologyDescriptor` — descriptors, with
  `toJson` and `ofJson?`.
* `Topology.descriptor` — the descriptor of a topology.
* `Topology.fingerprint`, `Topology.text` — its digest and its text.
-/

namespace StreamPlan

/-- What is written of an edge. -/
structure EdgeDescriptor where
  /-- The stage the records come from. -/
  producer : String
  /-- How they are distributed. -/
  grouping : GroupingKind
  deriving DecidableEq, Repr

/-- What is written of a stage. -/
structure StageDescriptor where
  /-- What edges refer to the stage by. -/
  name : String
  /-- The word for what is run. -/
  kind : String
  /-- The number of instances. -/
  partitions : UInt64
  /-- The parameters, null if there are none. -/
  config : Json
  /-- The edges on which records arrive. -/
  inputs : List EdgeDescriptor

/-- What is written of a topology. -/
structure TopologyDescriptor where
  /-- Says by which rules the rest is to be read. -/
  version : String
  /-- The stages in the order they were registered. -/
  stages : List StageDescriptor

/-! ### Describing -/

/-- The version of the format. -/
def formatVersion : String := "0.1.0"

/-- The descriptor of an edge. -/
def InputEdge.descriptor (e : InputEdge) : EdgeDescriptor := ⟨e.producer, e.grouping.kind⟩

/-- The descriptor of a stage. -/
def Stage.descriptor (s : Stage) : StageDescriptor :=
  ⟨s.name, s.unit.family.label, s.partitions, s.unit.config, s.inputs.map InputEdge.descriptor⟩

/-- The descriptor of a topology. -/
def Topology.descriptor (t : Topology) : TopologyDescriptor :=
  ⟨formatVersion, t.stages.toList.map Stage.descriptor⟩

/-! ### Writing -/

/-- The record of an edge. -/
def EdgeDescriptor.toJson (e : EdgeDescriptor) : Json :=
  .obj [("producer", .str e.producer), ("grouping", e.grouping.toJson)]

/-- The field of the parameters, which is left out if they are null. -/
def configField : Json → List (String × Json)
  | .null => []
  | config => [("config", config)]

/-- The record of a stage. -/
def StageDescriptor.toJson (s : StageDescriptor) : Json :=
  .obj (("name", .str s.name) :: ("kind", .str s.kind) :: ("partitions", .ofUInt64 s.partitions) ::
    (configField s.config ++ [("inputs", .arr (s.inputs.map EdgeDescriptor.toJson))]))

/-- The record of a topology. -/
def TopologyDescriptor.toJson (t : TopologyDescriptor) : Json :=
  .obj [("version", .str t.version), ("stages", .arr (t.stages.map StageDescriptor.toJson))]

/-- The text of a topology, one item a line. -/
def Topology.text (t : Topology) : String := t.descriptor.toJson.pretty

/-- Reads an edge that stands inside four arrays and objects. -/
def EdgeDescriptor.ofJson? (v : Json) : Option EdgeDescriptor :=
  match v.record? ["producer", "grouping"] with
  | some [some producer, some grouping] => do
    return ⟨← producer.toText?, ← GroupingKind.ofJsonWithin? (Json.maxDepth - 5) grouping⟩
  | _ => none

/-- Reads parameters that stand inside three arrays and objects. -/
def readConfig? : Option Json → Option Json
  | none => some .null
  | some v => if v.fits (Json.maxDepth - 3) then some v.sorted else none

/-- Reads a stage that stands inside two arrays and objects. -/
def StageDescriptor.ofJson? (v : Json) : Option StageDescriptor :=
  match v.record? ["name", "kind", "partitions", "config", "inputs"] with
  | some [some name, some kind, some partitions, config, some inputs] => do
    return ⟨← name.toText?, ← kind.toText?, ← partitions.toUInt64?, ← readConfig? config,
      ← (← inputs.toItems?).mapM EdgeDescriptor.ofJson?⟩
  | _ => none

/-- Reads the descriptor of a topology. -/
def TopologyDescriptor.ofJson? (v : Json) : Option TopologyDescriptor :=
  match v.record? ["version", "stages"] with
  | some [some version, some stages] => do
    return ⟨← version.toText?, ← (← stages.toItems?).mapM StageDescriptor.ofJson?⟩
  | _ => none

end StreamPlan
