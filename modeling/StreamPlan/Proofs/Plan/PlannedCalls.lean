import Mathlib.Data.List.Forall2
import StreamPlan.Proofs.Plan.Coherent
import StreamPlan.Proofs.Plan.Dialogue

/-!
# The planned calls

What a build tells a sink that takes everything comes in groups, one for each node
that becomes a stage: the registration of the stage, and right after it one edge for
each parent.  No name is registered twice, and an edge only comes from a stage that
has been registered before.

## Main definitions

* `registeredNames` — the names that calls register.
* `Pipeline.Announced` — the group of a node.
* `Pipeline.Announces` — what the calls of a build look like.
* `BuildSession.Told` — the invariant of a build over a sink that takes everything.

## Main results

* `buildPlan_follows_plan` — **the sink cannot influence the plan**: a build makes the
  planned calls up to the first refusal, and these come in groups.
-/

namespace StreamPlan

/-- The names that calls register. -/
def registeredNames (calls : List PlanCall) : List String :=
  calls.filterMap fun call => match call with
    | .register name _ _ => some name
    | .wire _ _ _ => none

theorem registeredNames_append (calls more : List PlanCall) :
    registeredNames (calls ++ more) = registeredNames calls ++ registeredNames more :=
  List.filterMap_append

theorem registeredNames_stageCalls (name : String) (partitions : UInt64) (unit : StageUnit)
    (inputs : List InputEdge) :
    registeredNames (BuildSession.stageCalls name partitions unit inputs) = [name] := by
  simp [registeredNames, BuildSession.stageCalls, List.filterMap_map]

/-- Every edge comes from a stage that has been registered before. -/
def ProducersFirst (calls : List PlanCall) : Prop :=
  ∀ (before after : List PlanCall) (consumer producer : String) (grouping : Grouping),
    calls = before ++ .wire consumer producer grouping :: after →
      producer ∈ registeredNames before

theorem ProducersFirst.append {calls more : List PlanCall} (h : ProducersFirst calls)
    (hmore : ∀ consumer producer grouping,
      PlanCall.wire consumer producer grouping ∈ more → producer ∈ registeredNames calls) :
    ProducersFirst (calls ++ more) := by
  intro before after consumer producer grouping heq
  rcases List.append_eq_append_iff.mp heq with ⟨mid, rfl, hmid⟩ | ⟨mid, rfl, hmid⟩
  · -- an edge among the new calls
    have hmem : PlanCall.wire consumer producer grouping ∈ more := by
      rw [hmid]
      simp
    rw [registeredNames_append]
    exact List.mem_append_left _ (hmore consumer producer grouping hmem)
  · cases mid with
    | nil =>
      have hmem : PlanCall.wire consumer producer grouping ∈ more := by
        rw [← List.nil_append more, ← hmid]
        simp
      rw [List.append_nil] at hmore
      exact hmore consumer producer grouping hmem
    | cons call mid =>
      obtain ⟨rfl, -⟩ := List.cons.inj hmid
      exact h before mid consumer producer grouping rfl

/-- The calls that tell of the stage of a node: its registration, and then one edge for
each parent, from the stage of that parent. -/
def Pipeline.Announced (g : Pipeline) (stageName : NodeId → Option String) (seed : UInt64)
    (i : NodeId) (calls : List PlanCall) : Prop :=
  ∃ n name unit inputs, g.nodes[i]? = some n ∧ stageName i = some name ∧
    Realizes stageName seed n.kind unit inputs ∧
    n.parents.map stageName = inputs.map (fun e => some e.producer) ∧
    calls = .register name n.partitions unit ::
      inputs.map fun e => .wire name e.producer e.grouping

theorem Pipeline.Announced.mono {g : Pipeline} {stageName stageName' : NodeId → Option String}
    {seed : UInt64} {i : NodeId} {calls : List PlanCall} (h : g.Announced stageName seed i calls)
    (hsub : ∀ i name, stageName i = some name → stageName' i = some name) :
    g.Announced stageName' seed i calls := by
  obtain ⟨n, name, unit, inputs, hn, hname, hrealizes, -, hcalls⟩ := h
  have hrealizes' := hrealizes.mono hsub
  exact ⟨n, name, unit, inputs, hn, hsub i name hname, hrealizes', hrealizes'.map_producer, hcalls⟩

/-- What the calls of a build look like: they tell of the nodes `nodes`, one after the
other. -/
structure Pipeline.Announces (g : Pipeline) (stageName : NodeId → Option String) (seed : UInt64)
    (nodes : List NodeId) (calls : List PlanCall) : Prop where
  nodup : nodes.Nodup
  groups : ∃ groups, calls = groups.flatten ∧
    List.Forall₂ (g.Announced stageName seed) nodes groups
  names_nodup : (registeredNames calls).Nodup
  producersFirst : ProducersFirst calls

namespace BuildSession

/-- A session whose sink takes everything and has heard of the nodes `nodes`. -/
structure Announcing (g : Pipeline) (nodes : List NodeId) (calls : List PlanCall)
    (s : BuildSession Transcript) : Prop where
  sink_eq : s.sink = heard calls
  enumerates : Enumerates nodes s
  groups : ∃ groups, calls = groups.flatten ∧
    List.Forall₂ (g.Announced s.stageName? s.config.routingSeed) nodes groups
  names_eq : nodes.map s.stageName? = (registeredNames calls).map some
  producersFirst : ProducersFirst calls

theorem announcing_fresh (g : Pipeline) (config : Config) :
    (fresh g (heard []) config).Announcing g [] [] where
  sink_eq := rfl
  enumerates := ⟨List.nodup_nil, by simp [fresh]⟩
  groups := ⟨[], rfl, .nil⟩
  names_eq := rfl
  producersFirst := by
    intro before after consumer producer grouping heq
    simp at heq

/-- The calls for a node that is recorded are its group. -/
theorem Coherent.announced_recorded {σ : Type} [PlanSink σ] {g : Pipeline} {s : BuildSession σ}
    (hs : s.Coherent g) {id : NodeId} {n : Node} {unit : StageUnit} {inputs : List InputEdge}
    (hnode : s.pipeline.nodes[id]? = some n) (hwiring : s.wiring id n = .ok (unit, inputs))
    (hnew : s.built.contains id = false) :
    g.Announced (s.recorded id n unit inputs).stageName? s.config.routingSeed id
      (stageCalls (s.resolveName n).1 n.partitions unit inputs) := by
  have hself : (s.recorded id n unit inputs).stageName? id = some (s.resolveName n).1 := by
    rw [stageName?, getElem?_built_recorded, if_pos rfl]
  obtain ⟨m, hm, hnm⟩ := Pipeline.exists_of_described hs.described_eq hnode
  have hrealizes : Realizes (s.recorded id n unit inputs).stageName? s.config.routingSeed n.kind
      unit inputs :=
    (realizes_of_wiring hwiring).mono fun i name hi => built_recorded_of_built hnew hi
  rw [Node.kind_eq_of_described hnm] at hrealizes
  refine ⟨m, _, unit, inputs, hm, hself, hrealizes, hrealizes.map_producer, ?_⟩
  rw [← Node.partitions_eq_of_described hnm]
  rfl

/-- Recording a node adds its group. -/
theorem Announcing.recorded {g : Pipeline} {nodes : List NodeId} {calls : List PlanCall}
    {s : BuildSession Transcript} (h : s.Announcing g nodes calls) (hs : s.Coherent g)
    {id : NodeId} {n : Node} {unit : StageUnit} {inputs : List InputEdge}
    (hnode : s.pipeline.nodes[id]? = some n) (hwiring : s.wiring id n = .ok (unit, inputs))
    (hnew : s.built.contains id = false) :
    (s.recorded id n unit inputs).Announcing g (nodes ++ [id])
      (calls ++ stageCalls (s.resolveName n).1 n.partitions unit inputs) := by
  have hself : (s.recorded id n unit inputs).stageName? id = some (s.resolveName n).1 := by
    rw [stageName?, getElem?_built_recorded, if_pos rfl]
  have hsub : ∀ i name, s.stageName? i = some name →
      (s.recorded id n unit inputs).stageName? i = some name :=
    fun i name hi => built_recorded_of_built hnew hi
  have hrealizes := realizes_of_wiring hwiring
  constructor
  case sink_eq =>
    have hheard := acceptAll_heard calls (stageCalls (s.resolveName n).1 n.partitions unit inputs)
    rw [← h.sink_eq] at hheard
    exact congrArg Prod.snd hheard
  case enumerates => exact h.enumerates.recorded hnew n unit inputs
  case groups =>
    obtain ⟨groups, hcalls, hgroups⟩ := h.groups
    refine ⟨groups ++ [stageCalls (s.resolveName n).1 n.partitions unit inputs], ?_, ?_⟩
    · rw [List.flatten_append, ← hcalls, List.flatten_singleton]
    · refine List.rel_append (hgroups.imp fun i group hi => hi.mono hsub) ?_
      exact .cons (hs.announced_recorded hnode hwiring hnew) .nil
  case names_eq =>
    have hold : nodes.map (s.recorded id n unit inputs).stageName? = nodes.map s.stageName? := by
      refine List.map_congr_left fun i hi => ?_
      obtain ⟨name, hname⟩ := contains_built_iff.mp ((h.enumerates.mem_iff i).mp hi)
      rw [hsub i name hname]
      exact hname.symm
    rw [registeredNames_append, registeredNames_stageCalls, List.map_append, List.map_append, hold,
      h.names_eq, List.map_singleton, List.map_singleton, hself]
  case producersFirst =>
    refine h.producersFirst.append fun consumer producer grouping hmem => ?_
    -- an edge comes from the stage of a parent, whose group has been told
    obtain ⟨e, he, heq⟩ : ∃ e ∈ inputs, e.producer = producer := by
      simp only [stageCalls, List.mem_cons, reduceCtorEq, List.mem_map, false_or,
        PlanCall.wire.injEq] at hmem
      obtain ⟨e, he, -, hproducer, -⟩ := hmem
      exact ⟨e, he, hproducer⟩
    obtain ⟨p, -, hp⟩ := hrealizes.exists_parent he
    rw [heq] at hp
    have hstage : some producer ∈ nodes.map s.stageName? := by
      rw [← hp]
      refine List.mem_map_of_mem ((h.enumerates.mem_iff p).mpr ?_)
      exact contains_built_iff.mpr ⟨producer, hp⟩
    rw [h.names_eq] at hstage
    obtain ⟨name, hname, hsome⟩ := List.mem_map.mp hstage
    cases hsome
    exact hname

/-- A coherent session whose sink takes everything and has heard of some nodes. -/
def Told (g : Pipeline) (s : BuildSession Transcript) : Prop :=
  s.Coherent g ∧ ∃ nodes calls, s.Announcing g nodes calls

theorem told_fresh (g : Pipeline) (config : Config) : (fresh g (heard []) config).Told g :=
  ⟨coherent_fresh g (heard []) config, [], [], announcing_fresh g config⟩

/-- Lowering keeps the groups complete. -/
theorem Told.lower {g : Pipeline} {s : BuildSession Transcript} (h : s.Told g) {id : NodeId}
    (hnew : s.built.contains id = false) : (s.lower id).2.Told g := by
  obtain ⟨hs, nodes, calls, hcalls⟩ := h
  refine ⟨hs.lower hnew, ?_⟩
  refine lower_preserves (P := fun s' => ∃ nodes calls, s'.Announcing g nodes calls)
    ⟨nodes, calls, hcalls⟩
    (fun _ => ⟨nodes, calls, { hcalls with enumerates := { hcalls.enumerates with } }⟩) ?_
  intro n unit inputs hnode hwiring _ _
  exact ⟨_, _, hcalls.recorded hs hnode hwiring hnew⟩

/-- The calls of a coherent session, with the names its pipeline has. -/
theorem Announcing.announces {g : Pipeline} {nodes : List NodeId} {calls : List PlanCall}
    {s : BuildSession Transcript} (h : s.Announcing g nodes calls) (hs : s.Coherent g) :
    g.Announces s.pipeline.nameOf? s.config.routingSeed nodes calls where
  nodup := h.enumerates.nodup
  groups := by
    obtain ⟨groups, hcalls, hgroups⟩ := h.groups
    exact ⟨groups, hcalls, hgroups.imp fun i group hi => hi.mono hs.reported⟩
  names_nodup := by
    have hnodup := hs.stageNames_nodup h.enumerates
    rw [h.names_eq] at hnodup
    exact hnodup.of_map some
  producersFirst := h.producersFirst

end BuildSession

/-- The planned calls tell of the nodes that a build makes stages of, by the names that come
back with the pipeline. -/
theorem Pipeline.exists_enumerates_plannedCalls (g : Pipeline) (terminals : List NodeId)
    (config : Config) :
    ∃ nodes, BuildSession.Enumerates nodes (g.run terminals (heard []) config).2 ∧
      g.Announces (g.run terminals (heard []) config).2.pipeline.nameOf? config.routingSeed
        nodes (g.plannedCalls terminals config) := by
  have hrun : (g.run terminals (heard []) config).2.Told g :=
    run_invariant (P := fun s => s.Told g) (fun _ _ hs hnew => hs.lower hnew)
      (BuildSession.told_fresh g config) terminals
  obtain ⟨hs, nodes, calls, hcalls⟩ := hrun
  have hplanned : g.plannedCalls terminals config = calls := by
    rw [plannedCalls, hcalls.sink_eq]
    simp [heard]
  have hannounces := hcalls.announces hs
  rw [config_run] at hannounces
  rw [hplanned]
  exact ⟨nodes, hcalls.enumerates, hannounces⟩

/-- The planned calls tell of nodes of the pipeline. -/
theorem Pipeline.announces_plannedCalls (g : Pipeline) (terminals : List NodeId)
    (config : Config) :
    ∃ nodes, g.Announces (g.run terminals (heard []) config).2.pipeline.nameOf? config.routingSeed
      nodes (g.plannedCalls terminals config) := by
  obtain ⟨nodes, -, hannounces⟩ := g.exists_enumerates_plannedCalls terminals config
  exact ⟨nodes, hannounces⟩

/-- **The sink cannot influence the plan.**  Over every sink a build makes the calls that
it makes over a sink that takes everything, in the same order, up to the first one that
is refused, whose error it returns; if none is refused it ends as it does over a sink
that takes everything, and returns the sink that the calls lead to.  The log that shows
this leaves the sink below it as the build leaves it without a log.  The calls come in
groups, one for each node that is lowered. -/
theorem buildPlan_follows_plan {σ : Type} [PlanSink σ] (g : Pipeline) (terminals : List NodeId)
    (sink : σ) (config : Config) :
    Follows (g.plannedCalls terminals config)
        ((g.buildPlan terminals (heard []) config).1.map fun _ => ())
        (g.dialogue terminals sink config)
        ((g.buildPlan terminals sink config).1.map fun _ => ()) ∧
      (g.buildPlan terminals sink config).1 =
        ((PlanSink.acceptAll sink (g.plannedCalls terminals config)).1 >>= fun _ =>
          (g.buildPlan terminals (heard []) config).1.map fun _ =>
            (PlanSink.acceptAll sink (g.plannedCalls terminals config)).2) ∧
      (g.run terminals (Logged.new sink) config).2.sink.sink =
        (g.run terminals sink config).2.sink ∧
      ∃ nodes, g.Announces (g.buildPlan terminals (heard []) config).2.nameOf? config.routingSeed
        nodes (g.plannedCalls terminals config) := by
  have hanswer : ∀ {τ : Type} [PlanSink τ] (sink : τ),
      ((g.buildPlan terminals sink config).1.map fun _ => ()) = (g.run terminals sink config).1 := by
    intro τ _ sink
    rw [Pipeline.buildPlan_eq_run]
    cases (g.run terminals sink config).1 <;> rfl
  rw [hanswer, hanswer]
  obtain ⟨hfollows, hsink⟩ := g.follows_dialogue terminals sink config
  refine ⟨hfollows, g.buildPlan_fst_eq_acceptAll terminals sink config, hsink, ?_⟩
  rw [Pipeline.buildPlan_eq_run]
  exact g.announces_plannedCalls terminals config

end StreamPlan
