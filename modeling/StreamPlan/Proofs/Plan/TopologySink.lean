import StreamPlan.Plan.Session

/-!
# A topology as a sink

A session tells its sink of a stage by registering it and then wiring its edges,
one call after another.  A topology takes all of them if the name is new and the
producers are there, and what comes out is the topology with that stage added.

## Main definitions

* `Topology.pushStage` — adds a stage with its inputs.

## Main results

* `Topology.acceptAll_stageCalls` — **the calls for a stage add that stage.**
-/

namespace StreamPlan

namespace Topology

/-- Adds a stage with its inputs at the end. -/
def pushStage (t : Topology) (name : String) (partitions : UInt64) (unit : StageUnit)
    (inputs : List InputEdge) : Topology :=
  ⟨t.stages.push ⟨t.stages.size, name, partitions, unit, inputs⟩,
    t.index.insert name t.stages.size⟩

theorem contains_index_pushStage (t : Topology) (name other : String) (partitions : UInt64)
    (unit : StageUnit) (inputs : List InputEdge) :
    (t.pushStage name partitions unit inputs).index.contains other = true ↔
      name = other ∨ t.index.contains other = true := by
  simp [pushStage, Std.TreeMap.contains_insert]

/-- An edge to the last stage is one more input of it. -/
theorem wire_pushStage {t : Topology} {name : String} {partitions : UInt64} {unit : StageUnit}
    {inputs : List InputEdge} {e : InputEdge} (h : t.index.contains e.producer = true) :
    (t.pushStage name partitions unit inputs).wire name e.producer e.grouping =
      .ok (t.pushStage name partitions unit (inputs ++ [e])) := by
  have hproducer : (t.pushStage name partitions unit inputs).index.contains e.producer = true :=
    (contains_index_pushStage ..).mpr (Or.inr h)
  have hself : (t.pushStage name partitions unit inputs).index[name]? = some t.stages.size :=
    Std.TreeMap.getElem?_insert_self
  have hmodify : ∀ s : Stage, (t.stages.push s).modify t.stages.size (addInput e) =
      t.stages.push (addInput e s) := by
    intro s
    refine Array.ext_getElem? fun i => ?_
    rw [Array.getElem?_modify, Array.getElem?_push, Array.getElem?_push]
    by_cases hi : i = t.stages.size
    · rw [if_pos hi.symm, if_pos hi, if_pos hi, Option.map_some]
    · rw [if_neg (Ne.symm hi), if_neg hi, if_neg hi]
  unfold wire
  rw [if_pos hproducer, hself]
  dsimp only
  rw [pushStage, hmodify]
  rfl

/-- A topology takes edges from stages that are there. -/
theorem acceptAll_wires {t : Topology} {name : String} {partitions : UInt64} {unit : StageUnit}
    (inputs : List InputEdge) {more : List InputEdge}
    (h : ∀ e ∈ more, t.index.contains e.producer = true) :
    PlanSink.acceptAll (t.pushStage name partitions unit inputs)
        (more.map fun e => .wire name e.producer e.grouping) =
      (.ok (), t.pushStage name partitions unit (inputs ++ more)) := by
  induction more generalizing inputs with
  | nil => rw [List.append_nil]; rfl
  | cons e more ih =>
    have haccept : PlanSink.accept (t.pushStage name partitions unit inputs)
        (.wire name e.producer e.grouping) =
          (.ok (), t.pushStage name partitions unit (inputs ++ [e])) := by
      simp only [PlanSink.accept, PlanSink.wire, wire_pushStage (h e List.mem_cons_self)]
    rw [List.map_cons, PlanSink.acceptAll, haccept]
    dsimp only
    rw [ih (inputs ++ [e]) fun e' he' => h e' (List.mem_cons_of_mem e he'), List.append_assoc,
      List.singleton_append]

/-- **A topology takes the calls for a stage with a new name and with producers that
are there, and grows by that stage.** -/
theorem acceptAll_stageCalls {t : Topology} {name : String} {partitions : UInt64}
    {unit : StageUnit} {inputs : List InputEdge} (hname : t.index.contains name = false)
    (hpartitions : partitions ≠ 0) (hinputs : ∀ e ∈ inputs, t.index.contains e.producer = true) :
    PlanSink.acceptAll t (BuildSession.stageCalls name partitions unit inputs) =
      (.ok (), t.pushStage name partitions unit inputs) := by
  have hregister : PlanSink.accept t (.register name partitions unit) =
      (.ok (), t.pushStage name partitions unit []) := by
    simp only [PlanSink.accept, PlanSink.register, register, hname, Bool.false_eq_true, if_false,
      hpartitions]
    rfl
  rw [BuildSession.stageCalls, PlanSink.acceptAll, hregister]
  exact acceptAll_wires [] hinputs

end Topology

end StreamPlan
