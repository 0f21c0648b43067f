import Mathlib.Data.List.Forall2
import Mathlib.Data.List.Nodup
import StreamPlan.Proofs.Plan.Coherent
import StreamPlan.Proofs.Plan.Reachable
import StreamPlan.Proofs.Plan.TopologySink

/-!
# A compiled topology is an image of the pipeline

A build into a topology registers one stage for each node upstream of its end
nodes, with the partitions and the callables of the node and one edge for each
parent, from the stage of that parent.

The proof follows the sessions of the build.  A coherent session only makes calls
that a topology takes, so the topology grows by exactly the stage of each lowered
node, and the stages stay in step with the nodes that have one (`Mirrors`).  Which
nodes these are follows from both ends: the walk only comes to nodes upstream of
its end node, and a coherent session has a stage for every parent of a stage.

## Main definitions

* `Node.IsStage` — a stage is what a node should become.
* `BuildSession.Mirrors` — the topology of a session has the stages of a list of
  nodes.
* `Faithful` — what a compiled topology is to its pipeline.

## Main results

* `buildTopology_faithful` — **a compiled topology is an image of what is upstream
  of the end nodes.**
-/

namespace StreamPlan

/-- A stage is what a node should become. -/
structure Node.IsStage (stageName : NodeId → Option String) (seed : UInt64) (n : Node)
    (s : Stage) : Prop where
  mayBeCalled : n.MayBeCalled s.name
  partitions_eq : s.partitions = n.partitions
  realizes : Realizes stageName seed n.kind s.unit s.inputs

/-- The node at a position of the pipeline `g` has become a stage. -/
def Pipeline.Becomes (g : Pipeline) (stageName : NodeId → Option String) (seed : UInt64)
    (i : NodeId) (s : Stage) : Prop :=
  stageName i = some s.name ∧ ∃ n, g.nodes[i]? = some n ∧ n.IsStage stageName seed s

theorem Pipeline.Becomes.mono {g : Pipeline} {stageName stageName' : NodeId → Option String}
    {seed : UInt64} {i : NodeId} {s : Stage} (h : g.Becomes stageName seed i s)
    (hsub : ∀ i name, stageName i = some name → stageName' i = some name) :
    g.Becomes stageName' seed i s := by
  obtain ⟨hname, n, hn, hstage⟩ := h
  exact ⟨hsub i s.name hname, n, hn, hstage.mayBeCalled, hstage.partitions_eq,
    hstage.realizes.mono hsub⟩

namespace BuildSession

/-! ### The invariant of a build into a topology -/

/-- The topology of a session has the stages of the nodes `nodes`, in this order. -/
structure Mirrors (g : Pipeline) (nodes : List NodeId) (s : BuildSession Topology) : Prop where
  nodup : nodes.Nodup
  mem_iff : ∀ i, i ∈ nodes ↔ s.built.contains i = true
  stages : List.Forall₂ (g.Becomes s.stageName? s.config.routingSeed) nodes s.sink.stages.toList
  ids_eq : s.sink.stages.toList.map Stage.id = List.range s.sink.size
  contains_index_iff : ∀ name,
    s.sink.index.contains name = true ↔ ∃ i, s.stageName? i = some name
  parentsFirst : g.ParentsFirst nodes

theorem mirrors_fresh (g : Pipeline) (config : Config) :
    (fresh g Topology.empty config).Mirrors g [] where
  nodup := List.nodup_nil
  mem_iff := by simp [fresh]
  stages := List.Forall₂.nil
  ids_eq := rfl
  contains_index_iff := by simp [fresh, Topology.empty, stageName?]
  parentsFirst := by simp [Pipeline.ParentsFirst]

/-- The topology takes the calls for a node that is recorded. -/
theorem Mirrors.sink_recorded {g : Pipeline} {nodes : List NodeId} {s : BuildSession Topology}
    (h : s.Mirrors g nodes) (hs : s.Coherent g) {id : NodeId} {n : Node} {unit : StageUnit}
    {inputs : List InputEdge} (hwiring : s.wiring id n = .ok (unit, inputs))
    (hfree : s.names.contains (s.resolveName n).1 = false)
    (hallows : s.allows n.partitions = true) :
    PlanSink.acceptAll s.sink (stageCalls (s.resolveName n).1 n.partitions unit inputs) =
      (.ok (), s.sink.pushStage (s.resolveName n).1 n.partitions unit inputs) := by
  have hindex : ∀ name, s.sink.index.contains name = s.names.contains name := by
    intro name
    rw [Bool.eq_iff_iff, h.contains_index_iff, hs.taken_iff]
    rfl
  refine Topology.acceptAll_stageCalls ?_ ?_ ?_
  · rw [hindex, hfree]
  · exact (of_decide_eq_true hallows).1
  · -- an edge comes from the stage of a parent, which is registered
    intro e he
    obtain ⟨p, -, hp⟩ := (realizes_of_wiring hwiring).exists_parent he
    exact (h.contains_index_iff e.producer).mpr ⟨p, hp⟩

/-- Recording a node adds its stage. -/
theorem Mirrors.recorded {g : Pipeline} {nodes : List NodeId} {s : BuildSession Topology}
    (h : s.Mirrors g nodes) (hs : s.Coherent g) {id : NodeId} {n : Node} {unit : StageUnit}
    {inputs : List InputEdge} (hnode : s.pipeline.nodes[id]? = some n)
    (hwiring : s.wiring id n = .ok (unit, inputs))
    (hfree : s.names.contains (s.resolveName n).1 = false)
    (hallows : s.allows n.partitions = true) (hnew : s.built.contains id = false) :
    (s.recorded id n unit inputs).Mirrors g (nodes ++ [id]) := by
  have hsink : (s.recorded id n unit inputs).sink =
      s.sink.pushStage (s.resolveName n).1 n.partitions unit inputs := by
    simp only [BuildSession.recorded, h.sink_recorded hs hwiring hfree hallows]
  have hself : (s.recorded id n unit inputs).stageName? id = some (s.resolveName n).1 := by
    rw [stageName?, getElem?_built_recorded, if_pos rfl]
  have hsub : ∀ i name, s.stageName? i = some name →
      (s.recorded id n unit inputs).stageName? i = some name :=
    fun i name hi => built_recorded_of_built hnew hi
  have henumerates : Enumerates (nodes ++ [id]) (s.recorded id n unit inputs) :=
    Enumerates.recorded ⟨h.nodup, h.mem_iff⟩ hnew n unit inputs
  -- the node as `g` has it differs at most in the name that was written back
  obtain ⟨m, hm, hnm⟩ := Pipeline.exists_of_described hs.described_eq hnode
  constructor
  case nodup => exact henumerates.nodup
  case mem_iff => exact henumerates.mem_iff
  case stages =>
    rw [hsink]
    simp only [Topology.pushStage, Array.toList_push]
    refine List.rel_append (h.stages.imp fun i s' hi => hi.mono hsub) ?_
    refine List.Forall₂.cons ⟨hself, m, hm, ?_, ?_, ?_⟩ .nil
    · exact (resolveName_mayBeCalled hs.one_le_floor n).of_described hnm.symm
    · exact Node.partitions_eq_of_described hnm
    · rw [← Node.kind_eq_of_described hnm]
      exact (realizes_of_wiring hwiring).mono hsub
  case ids_eq =>
    rw [hsink]
    simp only [Topology.pushStage, Topology.size, Array.toList_push, Array.size_push,
      List.map_append, List.map_singleton, List.range_succ]
    exact congrArg (· ++ [s.sink.stages.size]) h.ids_eq
  case contains_index_iff =>
    intro name
    rw [hsink, Topology.contains_index_pushStage, h.contains_index_iff]
    constructor
    · rintro (rfl | ⟨i, hi⟩)
      · exact ⟨id, hself⟩
      · exact ⟨i, hsub i name hi⟩
    · rintro ⟨i, hi⟩
      rcases built_recorded_cases hi with ⟨-, heq⟩ | ⟨-, hi⟩
      · exact Or.inl heq
      · exact Or.inr ⟨i, hi⟩
  case parentsFirst =>
    refine h.parentsFirst.append_singleton ?_
    rintro p ⟨m', hm', hp⟩
    rw [hm] at hm'
    cases hm'
    rw [← Node.parents_eq_of_described hnm] at hp
    exact (h.mem_iff p).mpr (contains_built_of_wiring hwiring hp)

/-- A coherent session whose topology has the stages of some nodes. -/
def Mirrored (g : Pipeline) (s : BuildSession Topology) : Prop :=
  s.Coherent g ∧ ∃ nodes, s.Mirrors g nodes

theorem mirrored_fresh (g : Pipeline) (config : Config) :
    (fresh g Topology.empty config).Mirrored g :=
  ⟨coherent_fresh g Topology.empty config, [], mirrors_fresh g config⟩

/-- **Lowering keeps the topology in step with the nodes that have stages.** -/
theorem Mirrored.lower {g : Pipeline} {s : BuildSession Topology} (h : s.Mirrored g)
    {id : NodeId} (hnew : s.built.contains id = false) : (s.lower id).2.Mirrored g := by
  obtain ⟨hs, nodes, hnodes⟩ := h
  refine ⟨hs.lower hnew, ?_⟩
  refine lower_preserves (P := fun s' => ∃ nodes, s'.Mirrors g nodes) ⟨nodes, hnodes⟩
    (fun _ => ⟨nodes, { hnodes with }⟩) ?_
  intro n unit inputs hnode hwiring hfree hallows
  exact ⟨nodes ++ [id], hnodes.recorded hs hnode hwiring hfree hallows hnew⟩

theorem Mirrored.buildAll {g : Pipeline} {s : BuildSession Topology} (h : s.Mirrored g)
    (terminals : List NodeId) : (s.buildAll terminals).2.Mirrored g :=
  buildAll_invariant (P := fun s' => s'.Mirrored g) (fun _ _ hs hnew => hs.lower hnew) h terminals

end BuildSession

/-! ### Whole builds -/

namespace Pipeline

theorem eq_of_verified {config : Config} {t t' : Topology} (h : verified config t = .ok t') :
    t' = t := by
  unfold verified at h
  split at h
  · obtain ⟨_, -, h⟩ := Except.bind_eq_ok_iff.mp h
    obtain ⟨_, -, h⟩ := Except.bind_eq_ok_iff.mp h
    cases h
    rfl
  · cases h
    rfl

/-- A compiled topology is the sink of a session whose builds have succeeded. -/
theorem exists_session_of_buildTopology {g g' : Pipeline} {terminals : List NodeId}
    {config : Config} {t : Topology} (h : g.buildTopology terminals config = (.ok t, g')) :
    ∃ s, (BuildSession.fresh g Topology.empty config).buildAll terminals = (.ok (), s) ∧
      s.sink = t ∧ s.pipeline = g' := by
  unfold buildTopology buildPlan at h
  cases hstart : BuildSession.start g Topology.empty config with
  | error e =>
    rw [hstart] at h
    cases h
  | ok s₀ =>
    rw [hstart] at h
    obtain ⟨-, rfl⟩ := BuildSession.start_eq_ok_iff.mp hstart
    dsimp only at h
    rcases hbuild : (BuildSession.fresh g Topology.empty config).buildAll terminals with ⟨r, s⟩
    rw [hbuild] at h
    cases r with
    | error e => cases h
    | ok u =>
      obtain ⟨hverified, hpipeline⟩ := Prod.mk.inj h
      exact ⟨s, rfl, (eq_of_verified hverified).symm, hpipeline⟩

/-- The session behind a compiled topology is coherent, and the topology has the
stages of its nodes. -/
theorem exists_mirrors_of_buildTopology {g g' : Pipeline} {terminals : List NodeId}
    {config : Config} {t : Topology} (h : g.buildTopology terminals config = (.ok t, g')) :
    ∃ s nodes, (BuildSession.fresh g Topology.empty config).buildAll terminals = (.ok (), s) ∧
      s.sink = t ∧ s.pipeline = g' ∧ s.config = config ∧ s.Coherent g ∧ s.Mirrors g nodes := by
  obtain ⟨s, hbuild, hsink, hpipeline⟩ := exists_session_of_buildTopology h
  have hsession : s = ((BuildSession.fresh g Topology.empty config).buildAll terminals).2 := by
    rw [hbuild]
  obtain ⟨hs, nodes, hnodes⟩ : s.Mirrored g := by
    rw [hsession]
    exact BuildSession.Mirrored.buildAll (BuildSession.mirrored_fresh g config) terminals
  refine ⟨s, nodes, hbuild, hsink, hpipeline, ?_, hs, hnodes⟩
  rw [hsession, BuildSession.config_buildAll]
  rfl

end Pipeline

/-- What a compiled topology is to its pipeline `g`.  The list `nodes` has the nodes
of its stages in order, and the pipeline `g'` that came back knows their names. -/
structure Faithful (g : Pipeline) (terminals : List NodeId) (config : Config) (t : Topology)
    (g' : Pipeline) (nodes : List NodeId) : Prop where
  nodup : nodes.Nodup
  mem_iff : ∀ i, i ∈ nodes ↔ g.UpstreamOfAny terminals i
  stages : List.Forall₂ (g.Becomes g'.nameOf? config.routingSeed) nodes t.stages.toList
  ids_eq : t.stages.toList.map Stage.id = List.range t.size
  names_nodup : t.names.Nodup
  parentsFirst : g.ParentsFirst nodes

/-- The names of the topology are those of the stages, in the order of the nodes. -/
theorem BuildSession.Mirrors.map_stageName? {g : Pipeline} {nodes : List NodeId}
    {s : BuildSession Topology} (h : s.Mirrors g nodes) :
    nodes.map s.stageName? = s.sink.names.map some := by
  rw [Topology.names, List.map_map, ← List.forall₂_eq_eq_eq, List.forall₂_map_left_iff,
    List.forall₂_map_right_iff]
  exact h.stages.imp fun i st hi => hi.1

/-- The stages of different nodes have different names. -/
theorem BuildSession.Mirrors.names_nodup {g : Pipeline} {nodes : List NodeId}
    {s : BuildSession Topology} (h : s.Mirrors g nodes) (hs : s.Coherent g) :
    s.sink.names.Nodup := by
  have hnodup := hs.stageNames_nodup ⟨h.nodup, h.mem_iff⟩
  rw [h.map_stageName?] at hnodup
  exact hnodup.of_map some

/-- **A compiled topology is an image of what is upstream of the end nodes.** -/
theorem buildTopology_faithful {g g' : Pipeline} {terminals : List NodeId} {config : Config}
    {t : Topology} (h : g.buildTopology terminals config = (.ok t, g')) :
    ∃ nodes, Faithful g terminals config t g' nodes := by
  obtain ⟨s, nodes, hbuild, hsink, hpipeline, hconfig, hs, hnodes⟩ :=
    Pipeline.exists_mirrors_of_buildTopology h
  have hreported : ∀ i name, s.stageName? i = some name → g'.nameOf? i = some name := by
    rw [← hpipeline]
    exact hs.reported
  refine ⟨nodes, hnodes.nodup, fun i => ?_, ?_, hsink ▸ hnodes.ids_eq, ?_, hnodes.parentsFirst⟩
  · rw [hnodes.mem_iff, BuildSession.contains_built_iff_upstream hbuild]
  · rw [← hsink, ← hconfig]
    exact hnodes.stages.imp fun i st hi => hi.mono hreported
  · rw [← hsink]
    exact hnodes.names_nodup hs

/-- The join of `Pipeline.diamond`, with the map asked for first. -/
theorem buildTopology_faithful_diamond :
    ∃ t g', Pipeline.diamond.buildTopology [1, 2] default = (.ok t, g') ∧
      ∃ nodes, Faithful .diamond [1, 2] default t g' nodes := by
  have hok : (Pipeline.diamond.buildTopology [1, 2] default).1.isOk = true := by decide +kernel
  rcases hbuild : Pipeline.diamond.buildTopology [1, 2] default with ⟨_ | t, g'⟩
  · rw [hbuild] at hok
    cases hok
  · exact ⟨t, g', rfl, buildTopology_faithful hbuild⟩

end StreamPlan
