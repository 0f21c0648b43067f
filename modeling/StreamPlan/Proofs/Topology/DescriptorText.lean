import StreamPlan.Proofs.Json.TypedValues
import StreamPlan.Topology.Descriptor

/-!
# The text of a topology is read back

The text of a topology is read back as its descriptor, whatever the names of its stages
are made of, and so are the parts: stages, edges and groupings.  The parameters of a stage
are a free-form value.  They are left out of the text if they are null and come back as
null; otherwise they come back as they were, since their keys are in order.

## Main definitions

* `InputEdge.shape` — what can be written of an edge.
* `StageDescriptor.Describes` — what a descriptor says of a stage.

## Main results

* `StageDescriptor.ofJson?_toJson`, `Topology.ofJson?_toJson_descriptor` — **a descriptor
  is read back from its JSON value.**
* `Topology.isExact_toJson_descriptor` — the JSON value is read back from its text.
* `Topology.read_text` — **the text of a topology is read back as its descriptor, which
  describes every stage.**
-/

namespace StreamPlan

/-! ### Groupings and edges -/

namespace GroupingKind

theorem isExact_toJson (g : GroupingKind) : g.toJson.isExact = true := by
  cases g <;> simp [toJson, Json.isExact, Json.isExactFields]

theorem ofJsonWithin?_toJson (depth : Nat) (g : GroupingKind) :
    ofJsonWithin? (depth + 1) g.toJson = some g := by
  cases g <;> simp [toJson, ofJsonWithin?, Json.fits, Json.fitsFields, Json.field?]

end GroupingKind

namespace EdgeDescriptor

theorem isExact_toJson (e : EdgeDescriptor) : e.toJson.isExact = true := by
  simp [toJson, Json.isExact, Json.isExactFields, GroupingKind.isExact_toJson]

theorem ofJson?_toJson (e : EdgeDescriptor) : ofJson? e.toJson = some e := by
  -- Of the depth that is left, a grouping needs one level.
  have hgrouping : GroupingKind.ofJsonWithin? (Json.maxDepth - 5) e.grouping.toJson =
      some e.grouping := GroupingKind.ofJsonWithin?_toJson 121 e.grouping
  simp [ofJson?, toJson, Json.record?, Json.field?, Json.toText?, hgrouping]

end EdgeDescriptor

/-! ### Parameters -/

theorem configField_of_ne_null {config : Json} (h : config ≠ .null) :
    configField config = [("config", config)] := by
  cases config with
  | null => exact absurd rfl h
  | _ => rfl

namespace StageUnit

/-- The parameters of a join in increasing order of key. -/
theorem config_join (u : JoinUnit) :
    (join u).config = .obj [("join_type", .str u.joinType.caseName), ("left", .str u.left),
      ("right", .str u.right), ("window", u.window.toJson.sorted)] := by
  simp only [config, JoinType.toJson, Json.sorted, Json.sortedFields, Json.putField,
    String.reduceLT, reduceIte]

theorem config_eq_null {u : StageUnit} (h : ∀ j, u ≠ .join j) : u.config = .null := by
  cases u with
  | join j => exact absurd rfl (h j)
  | _ => rfl

theorem isExact_config (u : StageUnit) : u.config.isExact = true := by
  cases u with
  | join j =>
    apply Json.isExact_sorted
    simp [Json.isExact, Json.isExactFields, JoinType.toJson, Window.isExact_toJson]
  | _ => rfl

theorem fits_config (depth : Nat) (u : StageUnit) : u.config.fits (depth + 4) = true := by
  cases u with
  | join j =>
    apply Json.fits_sorted
    simp [Json.fits, Json.fitsFields, JoinType.toJson, Window.fits_toJson]
  | _ => rfl

theorem sorted_config (u : StageUnit) : u.config.sorted = u.config := by
  cases u with
  | join j => exact Json.sorted_sorted _
  | _ => rfl

end StageUnit

/-! ### Stages -/

/-- What can be written of an edge: where the records come from, and how they are
distributed, with the seed of a key grouping. -/
def InputEdge.shape (e : InputEdge) : String × GroupingKind := (e.producer, e.grouping.kind)

namespace StageDescriptor

theorem isExact_toJson {d : StageDescriptor} (h : d.config.isExact = true) :
    d.toJson.isExact = true := by
  have hinputs : Json.isExactItems (d.inputs.map EdgeDescriptor.toJson) = true := by
    rw [Json.isExactItems_iff]
    intro item hitem
    obtain ⟨e, -, rfl⟩ := List.mem_map.mp hitem
    exact e.isExact_toJson
  by_cases hnull : d.config = .null
  · simp [toJson, configField, hnull, Json.isExact, Json.isExactFields, hinputs]
  · simp [toJson, configField_of_ne_null hnull, Json.isExact, Json.isExactFields, hinputs, h]

/-- **A stage is read back**, if its parameters are a free-form value that is not nested
too deeply. -/
theorem ofJson?_toJson {d : StageDescriptor}
    (hfits : d.config.fits (Json.maxDepth - 3) = true) (hsorted : d.config.sorted = d.config) :
    ofJson? d.toJson = some d := by
  have hinputs : (d.inputs.map EdgeDescriptor.toJson).mapM EdgeDescriptor.ofJson? =
      some d.inputs := mapM_map_eq_some fun e _ => e.ofJson?_toJson
  by_cases hnull : d.config = .null
  · -- Nothing is written for the parameters, and nothing is read as null.
    have hrecord : d.toJson.record? ["name", "kind", "partitions", "config", "inputs"] =
        some [some (.str d.name), some (.str d.kind), some (.ofUInt64 d.partitions), none,
          some (.arr (d.inputs.map EdgeDescriptor.toJson))] := by
      simp [toJson, configField, hnull, Json.record?, Json.field?]
    simp [ofJson?, hrecord, Json.toText?, Json.toItems?, readConfig?, hinputs, ← hnull]
  · have hrecord : d.toJson.record? ["name", "kind", "partitions", "config", "inputs"] =
        some [some (.str d.name), some (.str d.kind), some (.ofUInt64 d.partitions),
          some d.config, some (.arr (d.inputs.map EdgeDescriptor.toJson))] := by
      simp [toJson, configField_of_ne_null hnull, Json.record?, Json.field?]
    simp [ofJson?, hrecord, Json.toText?, Json.toItems?, readConfig?, hinputs, hfits, hsorted]

/-- What a descriptor says of a stage. -/
structure Describes (d : StageDescriptor) (s : Stage) : Prop where
  name_eq : d.name = s.name
  kind_eq : d.kind = s.unit.family.label
  partitions_eq : d.partitions = s.partitions
  /-- The edges are there in order. -/
  inputs_eq : d.inputs.map (fun e => (e.producer, e.grouping)) = s.inputs.map InputEdge.shape
  /-- The parameters of a join are its two sides, its type and its window. -/
  config_of_join : ∀ u, s.unit = .join u → ∃ window,
    d.config = .obj [("join_type", .str u.joinType.caseName), ("left", .str u.left),
      ("right", .str u.right), ("window", window)] ∧ Window.ofJson? window = some u.window
  config_of_other : (∀ u, s.unit ≠ .join u) → d.config = .null

end StageDescriptor

theorem Stage.describes_descriptor (s : Stage) : s.descriptor.Describes s where
  name_eq := rfl
  kind_eq := rfl
  partitions_eq := rfl
  inputs_eq := by
    simp only [Stage.descriptor, List.map_map]
    rfl
  config_of_join := by
    intro u hu
    refine ⟨u.window.toJson.sorted, ?_, u.window.ofJson?_sorted⟩
    simp only [Stage.descriptor, hu]
    exact StageUnit.config_join u
  config_of_other := StageUnit.config_eq_null

/-! ### Topologies -/

namespace Topology

/-- **The descriptor of a topology is read back from its JSON value.** -/
theorem ofJson?_toJson_descriptor (t : Topology) :
    TopologyDescriptor.ofJson? t.descriptor.toJson = some t.descriptor := by
  have hstages : (t.descriptor.stages.map StageDescriptor.toJson).mapM StageDescriptor.ofJson? =
      some t.descriptor.stages := by
    refine mapM_map_eq_some fun d hd => ?_
    obtain ⟨s, -, rfl⟩ := List.mem_map.mp hd
    exact StageDescriptor.ofJson?_toJson (s.unit.fits_config 120) s.unit.sorted_config
  simp [TopologyDescriptor.ofJson?, TopologyDescriptor.toJson, Json.record?, Json.field?,
    Json.toText?, Json.toItems?, hstages]

theorem isExact_toJson_descriptor (t : Topology) : t.descriptor.toJson.isExact = true := by
  have hstages : Json.isExactItems (t.descriptor.stages.map StageDescriptor.toJson) = true := by
    rw [Json.isExactItems_iff]
    intro item hitem
    obtain ⟨d, hd, rfl⟩ := List.mem_map.mp hitem
    obtain ⟨s, -, rfl⟩ := List.mem_map.mp hd
    exact StageDescriptor.isExact_toJson s.unit.isExact_config
  simp [TopologyDescriptor.toJson, Json.isExact, Json.isExactFields, hstages]

/-- **The text of a topology is read back as its descriptor, and the descriptor describes
the stages one by one.** -/
theorem read_text (t : Topology) :
    (Json.read? t.text).bind TopologyDescriptor.ofJson? = some t.descriptor ∧
      t.descriptor.version = formatVersion ∧ t.descriptor.stages.length = t.size ∧
      ∀ (i : Nat) (s : Stage), t.stages[i]? = some s →
        ∃ d, t.descriptor.stages[i]? = some d ∧ d.Describes s := by
  have hread : Json.read? t.text = some t.descriptor.toJson :=
    Json.read?_write Layout.isBlank_pretty t.isExact_toJson_descriptor
  refine ⟨?_, rfl, ?_, ?_⟩
  · rw [hread, Option.bind_some, ofJson?_toJson_descriptor]
  · simp [descriptor, size]
  · intro i s hs
    refine ⟨s.descriptor, ?_, s.describes_descriptor⟩
    simp [descriptor, hs]

end Topology

end StreamPlan
