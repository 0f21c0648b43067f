import StreamPlan.Proofs.Plan.TopologySessions

/-!
# Why builds fail

A build into a topology passes many places that can fail, and most of them never do.  The
pipeline has the parents of its nodes, a node is lowered after its parents, the topology
takes every call, and the checks at the end find nothing.  What is left are the settings,
the end nodes, the partitions and the names, and for each of these the failure names what
is wrong.

A failure is traced back to where it arose: builds that fail have a first end node whose
build fails, and that build comes to a ready node whose lowering fails.  Nothing happens
afterwards, so the session of that lowering is the last one.

## Main definitions

* `PlanError.isInternal` — failures that would be the planner's fault.
* `Pipeline.Fault` — failures that are the user's, with what is wrong.

## Main results

* `BuildSession.exists_ready_of_build` — **a build fails at a ready node.**
* `Pipeline.buildTopology_eq_buildPlan` — **the checks reject no compiled topology.**
* `buildTopology_fault` — **builds only fail through a fault of the user**, and checking
  makes no difference.
-/

namespace Except

theorem map_eq_error_iff {ε α β : Type} {x : Except ε α} {f : α → β} {e : ε} :
    x.map f = .error e ↔ x = .error e := by
  cases x with
  | error e' => simp [Except.map]
  | ok a => simp [Except.map]

end Except

namespace StreamPlan

/-- Failures that the planner is not meant to let happen. -/
def PlanError.isInternal : PlanError → Bool
  | .duplicateName _ => false
  | .missingDependency _ _ => true
  | .unknownNode _ => false
  | .unknownStage _ => true
  | .invalidPartitions _ _ => false
  | .config _ => false
  | .hash _ => true
  | .invariant _ => true

/-- What is wrong when end nodes do not compile: `stageName` gives the stages there were by
then. -/
inductive Pipeline.Fault (g : Pipeline) (terminals : List NodeId) (config : Config)
    (stageName : NodeId → Option String) : PlanError → Prop
  /-- The settings are not acceptable. -/
  | settings {reason : String} (hconfig : config.validate = .error (.config reason)) :
    Fault g terminals config stageName (.config reason)
  /-- There is no such end node. -/
  | unknown {t : NodeId} (ht : t ∈ terminals) (hnode : g.has t = false) :
    Fault g terminals config stageName (.unknownNode t)
  /-- A node has more partitions than the settings allow. -/
  | partitions {i : NodeId} {n : Node} {stage : String} (hi : g.UpstreamOfAny terminals i)
    (hnode : g.nodes[i]? = some n) (hcalled : n.MayBeCalled stage)
    (hmax : config.maxPartitions < n.partitions) :
    Fault g terminals config stageName (.invalidPartitions stage n.partitions)
  /-- The name a user gave to a node is that of a stage, and the node is not that stage. -/
  | name {i j : NodeId} {n : Node} {given : String} (hi : g.UpstreamOfAny terminals i)
    (hj : g.UpstreamOfAny terminals j) (hnode : g.nodes[i]? = some n)
    (hgiven : n.userName = some given) (hnew : stageName i = none)
    (hstage : stageName j = some given) :
    Fault g terminals config stageName (.duplicateName given)

theorem Pipeline.Fault.isInternal_eq_false {g : Pipeline} {terminals : List NodeId}
    {config : Config} {stageName : NodeId → Option String} {e : PlanError}
    (h : g.Fault terminals config stageName e) : e.isInternal = false := by
  cases h <;> rfl

theorem Config.exists_reason_of_validate {config : Config} {e : PlanError}
    (h : config.validate = .error e) : ∃ reason, e = .config reason := by
  unfold Config.validate at h
  split at h
  · cases h
    exact ⟨_, rfl⟩
  · split at h
    · cases h
      exact ⟨_, rfl⟩
    · split at h
      · cases h
        exact ⟨_, rfl⟩
      · cases h

namespace BuildSession

/-! ### Where a failure arises -/

section Failure

variable {σ : Type} [PlanSink σ] {P : BuildSession σ → Prop} {e : PlanError}

/-- Builds that fail have an end node whose build fails. -/
theorem exists_build_of_buildAll {ids : List NodeId}
    (hbuild : ∀ t ∈ ids, ∀ s, P s → P (s.build t).2) {s s' : BuildSession σ} (hs : P s)
    (h : s.buildAll ids = (.error e, s')) :
    ∃ t ∈ ids, ∃ s₁, P s₁ ∧ s₁.build t = (.error e, s') := by
  induction ids generalizing s with
  | nil => cases h
  | cons t ts ih =>
    have hnext := hbuild t List.mem_cons_self s hs
    rw [buildAll_cons] at h
    rcases hfirst : s.build t with ⟨e' | name, s₁⟩
    · rw [hfirst, andThen_error] at h
      cases h
      exact ⟨t, List.mem_cons_self, s, hs, hfirst⟩
    · rw [hfirst, andThen_ok] at h
      rw [hfirst] at hnext
      obtain ⟨t', ht', hfails⟩ := ih (fun i hi => hbuild i (List.mem_cons_of_mem t hi)) hnext h
      exact ⟨t', List.mem_cons_of_mem t ht', hfails⟩

/-- **A build of a node fails at a ready node**, and that lowering is the last thing it
does.  `P` is what is known of the sessions and `Q` of the nodes the build comes to. -/
theorem exists_ready_of_build {Q : NodeId → Prop} (hwf : ∀ s, P s → s.pipeline.WellFormed)
    (hnode : ∀ s i, P s → Q i → ∃ n, s.pipeline.nodes[i]? = some n)
    (hlower : ∀ s i, P s → Q i → s.built.contains i = false → P (s.lower i).2)
    (hparent : ∀ s i p, P s → Q i → s.pipeline.HasParent i p → Q p)
    {s s' : BuildSession σ} (hs : P s) {t : NodeId} (ht : Q t)
    (h : s.build t = (.error e, s')) :
    ∃ s₁ i n, P s₁ ∧ Q i ∧ s₁.Ready i n ∧ s₁.lower i = (.error e, s') := by
  induction t using Nat.strong_induction_on generalizing s with
  | _ t ih =>
    obtain ⟨n, hn⟩ := hnode s t hs ht
    cases hname : s.stageName? t with
    | some name =>
      rw [build_of_built (hwf s hs) hn hname] at h
      cases h
    | none =>
      have hparents : ∀ p ∈ n.parents, Q p := fun p hp => hparent s t p hs ht ⟨n, hn, hp⟩
      have hnext := buildAll_preserves hlower hparent hs hparents
      rw [build_eq_andThen (hwf s hs) hn hname] at h
      rcases hall : s.buildAll n.parents with ⟨e' | ⟨⟩, s₁⟩
      · -- a parent fails, and it stands before the node
        rw [hall, andThen_error] at h
        cases h
        obtain ⟨p, hp, s₁, hs₁, hfails⟩ := exists_build_of_buildAll
          (fun p hp _ hs₁ => build_preserves hlower hparent hs₁ (hparents p hp)) hs hall
        exact ih p (((hwf s hs).node t n hn).parents_lt p hp) hs₁ (hparents p hp) hfails
      · rw [hall, andThen_ok] at h
        rw [hall] at hnext
        obtain ⟨m, hready⟩ := ready_of_buildAll (hwf s hs) hn hname hall
        exact ⟨s₁, t, m, hnext, ht, hready, h⟩

end Failure

/-! ### What is wrong with a node that is refused -/

section Underway

variable {g : Pipeline} {terminals : List NodeId} {config : Config} {s s' : BuildSession Topology}
  {e : PlanError}

/-- A name that is taken is one that a user gave, since a search ends at a free one. -/
theorem userName_of_taken {σ : Type} {s : BuildSession σ} {n : Node}
    (h : s.names.contains (s.resolveName n).1 = true) :
    n.userName = some (s.resolveName n).1 := by
  unfold resolveName at h ⊢
  cases huser : n.userName with
  | some given => rfl
  | none =>
    rw [huser] at h
    have hfree := s.names.contains_fst_allocate n.family.label
    cases h.symm.trans hfree

/-- A ready node is refused for its name or for its number of partitions. -/
theorem Underway.fault_of_lower (h : s.Underway g terminals config) (hwf : g.WellFormed)
    {i : NodeId} {n : Node} (hi : g.UpstreamOfAny terminals i) (hready : s.Ready i n)
    (hlower : s.lower i = (.error e, s')) : g.Fault terminals config s'.stageName? e := by
  obtain ⟨hs, nodes, hnodes⟩ := h.mirrored
  obtain ⟨unit, inputs, hwired⟩ := hready.exists_wiring
  obtain ⟨m, hm, hnm⟩ := Pipeline.exists_of_described hs.described_eq hready.node
  have hlow := lowered_lower s i
  rw [hlower] at hlow
  generalize hr : (Except.error e, s').1 = r at hlow
  cases hlow with
  | unknown hnode => cases hnode.symm.trans hready.node
  | unwired hnode hwiring =>
    cases hnode.symm.trans hready.node
    cases hwiring.symm.trans hwired
  | taken hnode hwiring htaken =>
    cases hnode.symm.trans hready.node
    cases hr
    obtain ⟨j, hj⟩ := (hs.taken_iff _).mp htaken
    have huser := userName_of_taken htaken
    rw [Node.userName_eq_of_described hnm] at huser
    exact .name hi (h.upstream j (contains_built_iff.mpr ⟨_, hj⟩)) hm huser
      (contains_built_eq_false_iff.mp hready.new) hj
  | disallowed hnode hwiring hfree hallows =>
    cases hnode.symm.trans hready.node
    cases hr
    have hcalled := (resolveName_mayBeCalled hs.one_le_floor n).of_described hnm.symm
    have hnot := of_decide_eq_false hallows
    rw [Node.partitions_eq_of_described hnm, h.config_eq] at hnot
    rw [Node.partitions_eq_of_described hnm]
    refine .partitions hi hm hcalled (UInt64.not_le.mp fun hle => ?_)
    exact hnot ⟨(hwf.node i m hm).partitions_ne_zero, hle⟩
  | recorded hnode hwiring hfree hallows =>
    rw [hnodes.sink_recorded hs hwiring hfree hallows] at hr
    cases hr

theorem Underway.build (h : s.Underway g terminals config) {t : NodeId} (ht : t ∈ terminals) :
    (s.build t).2.Underway g terminals config :=
  build_preserves (P := fun s' => s'.Underway g terminals config)
    (Q := g.UpstreamOfAny terminals) (fun _ _ hs hi hnew => hs.lower hi hnew)
    (fun _ _ _ hs hi hp =>
      hi.parent (Pipeline.hasParent_of_described hs.mirrored.1.described_eq hp))
    h ⟨t, ht, .refl⟩

/-- A build of a node of the pipeline fails at a node that is refused. -/
theorem Underway.fault_of_build (h : s.Underway g terminals config) (hwf : g.WellFormed)
    {t : NodeId} (ht : t ∈ terminals) (hhas : g.has t = true)
    (hbuild : s.build t = (.error e, s')) : g.Fault terminals config s'.stageName? e := by
  have hready : ∃ (s₁ : BuildSession Topology) (i : NodeId) (n : Node),
      s₁.Underway g terminals config ∧ g.Upstream t i ∧ s₁.Ready i n ∧
        s₁.lower i = (.error e, s') := by
    refine exists_ready_of_build ?_ ?_ ?_ ?_ h .refl hbuild
    · exact fun s₁ hs₁ => hwf.of_described hs₁.mirrored.1.described_eq
    · intro s₁ i hs₁ hi
      obtain ⟨m, hm⟩ := Pipeline.exists_node_of_upstream hwf hhas hi
      obtain ⟨n, hn, -⟩ := Pipeline.exists_of_described hs₁.mirrored.1.described_eq.symm hm
      exact ⟨n, hn⟩
    · exact fun s₁ i hs₁ hi hnew => hs₁.lower ⟨t, ht, hi⟩ hnew
    · exact fun s₁ i p hs₁ hi hp =>
        hi.tail (Pipeline.hasParent_of_described hs₁.mirrored.1.described_eq hp)
  obtain ⟨s₁, i, n, hs₁, hi, hnext, hlower⟩ := hready
  exact hs₁.fault_of_lower hwf ⟨t, ht, hi⟩ hnext hlower

/-- End nodes that do not compile are unknown or come to a node that is refused. -/
theorem Underway.fault_of_buildAll (h : s.Underway g terminals config) (hwf : g.WellFormed)
    (hbuild : s.buildAll terminals = (.error e, s')) :
    g.Fault terminals config s'.stageName? e := by
  obtain ⟨t, ht, s₁, hs₁, hfails⟩ := exists_build_of_buildAll
    (P := fun s => s.Underway g terminals config) (fun t ht _ hs => hs.build ht) h hbuild
  cases hhas : g.has t with
  | true => exact hs₁.fault_of_build hwf ht hhas hfails
  | false =>
    have hsize : s₁.pipeline.nodes.size = g.nodes.size :=
      Pipeline.size_eq_of_described hs₁.mirrored.1.described_eq
    have hnone : s₁.pipeline.nodes[t]? = none := by
      refine Array.getElem?_eq_none ?_
      rw [hsize]
      exact Nat.le_of_not_lt (of_decide_eq_false hhas)
    rw [build_of_unknown hnone] at hfails
    cases hfails
    exact .unknown ht hhas

end Underway

end BuildSession

/-! ### Whole builds -/

namespace Pipeline

variable {g : Pipeline} {terminals : List NodeId} {config : Config}

theorem mirrored_run (g : Pipeline) (terminals : List NodeId) (config : Config) :
    (g.run terminals Topology.empty config).2.Mirrored g :=
  run_invariant (P := fun s => s.Mirrored g) (fun _ _ hs hnew => hs.lower hnew)
    (BuildSession.mirrored_fresh g config) terminals

/-- **The checks reject no compiled topology.** -/
theorem buildTopology_eq_buildPlan (g : Pipeline) (terminals : List NodeId) (config : Config) :
    g.buildTopology terminals config = g.buildPlan terminals Topology.empty config := by
  obtain ⟨hs, nodes, hnodes⟩ := g.mirrored_run terminals config
  have hverified := hnodes.verified_eq_ok hs config
  unfold buildTopology
  rw [buildPlan_eq_run]
  cases (g.run terminals Topology.empty config).1 with
  | error e => rfl
  | ok u => exact congrArg (·, _) hverified

/-- Whether a topology is to be checked does not matter to a run. -/
theorem buildPlan_verify {σ : Type} [PlanSink σ] (g : Pipeline) (terminals : List NodeId)
    (sink : σ) (config : Config) (verify : Bool) :
    g.buildPlan terminals sink { config with verify := verify } =
      g.buildPlan terminals sink config := by
  have hview : BuildSession.IsView
      (BuildSession.recast (σ := σ) id fun c => { c with verify := verify }) :=
    BuildSession.isView_recast (fun _ _ => rfl) (fun _ => rfl) (fun _ => rfl)
  have hvalidate : Config.validate { config with verify := verify } = config.validate := rfl
  have hbuild := hview.buildAll (BuildSession.fresh g sink config) terminals
  rw [buildPlan_eq_run, buildPlan_eq_run]
  unfold run
  rw [hvalidate]
  cases config.validate with
  | error e => rfl
  | ok u =>
    dsimp only
    have hfresh : BuildSession.recast id (fun c => { c with verify := verify })
        (BuildSession.fresh g sink config) =
        BuildSession.fresh g sink { config with verify := verify } := rfl
    rw [← hfresh, hbuild]
    rfl

theorem fault_of_buildPlan (hwf : g.WellFormed) {e : PlanError}
    (h : (g.buildPlan terminals Topology.empty config).1 = .error e) :
    g.Fault terminals config (g.run terminals Topology.empty config).2.stageName? e := by
  rw [buildPlan_eq_run, Except.map_eq_error_iff] at h
  unfold run at h ⊢
  cases hvalid : config.validate with
  | error e' =>
    rw [hvalid] at h
    cases h
    obtain ⟨reason, rfl⟩ := Config.exists_reason_of_validate hvalid
    exact .settings hvalid
  | ok u =>
    rw [hvalid] at h
    exact (BuildSession.underway_fresh g terminals config).fault_of_buildAll hwf (Prod.ext h rfl)

/-- A topology takes every call of a build. -/
theorem dialogue_accepted (g : Pipeline) (terminals : List NodeId) (config : Config) :
    ∀ entry ∈ g.dialogue terminals Topology.empty config, entry.2 = .ok () := by
  have hrun : (g.run terminals (Logged.new Topology.empty) config).2.Unrefused g :=
    run_invariant (P := fun s => s.Unrefused g) (fun _ _ hs hnew => hs.lower hnew)
      (BuildSession.unrefused_fresh g config) terminals
  exact hrun.accepted

end Pipeline

/-- **Builds only fail through a fault of the user, and checking makes no difference.**  A
failure says what is wrong with the settings, an end node, a number of partitions or a
name.  None is internal: the topology takes every call, and the checks pass on every
topology that was compiled. -/
theorem buildTopology_fault {g : Pipeline} (hg : g.Reachable) (terminals : List NodeId)
    (config : Config) :
    g.buildTopology terminals { config with verify := true } =
        g.buildTopology terminals { config with verify := false } ∧
      (∀ e, (g.buildTopology terminals config).1 = .error e → e.isInternal = false ∧
        g.Fault terminals config (g.run terminals Topology.empty config).2.stageName? e) ∧
      (∀ entry ∈ g.dialogue terminals Topology.empty config, entry.2 = .ok ()) ∧
      ∀ t, (g.buildPlan terminals Topology.empty config).1 = .ok t →
        t.checkUniqueNames = .ok () ∧ t.checkDependencyOrder = .ok () := by
  refine ⟨?_, fun e he => ?_, g.dialogue_accepted terminals config, fun t ht => ?_⟩
  · rw [Pipeline.buildTopology_eq_buildPlan, Pipeline.buildTopology_eq_buildPlan,
      g.buildPlan_verify terminals Topology.empty config true,
      g.buildPlan_verify terminals Topology.empty config false]
  · rw [Pipeline.buildTopology_eq_buildPlan] at he
    have hfault := Pipeline.fault_of_buildPlan hg.wellFormed he
    exact ⟨hfault.isInternal_eq_false, hfault⟩
  · obtain ⟨hs, nodes, hnodes⟩ := g.mirrored_run terminals config
    rw [Pipeline.buildPlan_eq_run] at ht
    obtain ⟨_, -, rfl⟩ := Except.map_eq_ok_iff.mp ht
    exact ⟨Topology.checkUniqueNames_eq_ok_iff _ |>.mpr (hnodes.names_nodup hs),
      Topology.checkDependencyOrder_eq_ok_iff _ |>.mpr hnodes.inOrder⟩

/-! ### Example -/

/-- A map that a user has given the name that the planner gives to its source. -/
def Pipeline.clashing : Pipeline where
  nodes := #[⟨0, none, none, 1, .source fun _ => none⟩,
    ⟨1, some "source1", none, 1, .transform 0 (.map Scalar.value)⟩]
  sourcePartitions := 1

theorem Pipeline.reachable_clashing : clashing.Reachable := by
  have hsource : Reachable _ := .edit (.source fun _ => none) .empty rfl
  have hmap : Reachable _ := .edit (.map 0 Scalar.value) hsource rfl
  exact .edit (.setName 1 "source1") hmap rfl

/-- The name of the map of `Pipeline.clashing` is taken by the source, and the repartition
of `Pipeline.oversized` is too large. -/
theorem buildTopology_fault_clashing :
    (Pipeline.clashing.Reachable ∧
        (Pipeline.clashing.buildTopology [1] default).1 = .error (.duplicateName "source1") ∧
        Pipeline.clashing.Fault [1] default
          (Pipeline.clashing.run [1] Topology.empty default).2.stageName?
          (.duplicateName "source1")) ∧
      (Pipeline.oversized.Reachable ∧
        (Pipeline.oversized.buildTopology [0, 2] default).1 =
          .error (.invalidPartitions "repartition1" 5000) ∧
        Pipeline.oversized.Fault [0, 2] default
          (Pipeline.oversized.run [0, 2] Topology.empty default).2.stageName?
          (.invalidPartitions "repartition1" 5000)) := by
  -- topologies cannot be compared, so what is computed leaves them out
  have hname : (Pipeline.clashing.buildTopology [1] default).1.map (fun _ => ()) =
      .error (.duplicateName "source1") := by decide +kernel
  have hpartitions : (Pipeline.oversized.buildTopology [0, 2] default).1.map (fun _ => ()) =
      .error (.invalidPartitions "repartition1" 5000) := by decide +kernel
  rw [Except.map_eq_error_iff] at hname hpartitions
  refine ⟨⟨Pipeline.reachable_clashing, hname, ?_⟩, ⟨Pipeline.reachable_oversized, hpartitions, ?_⟩⟩
  · exact ((buildTopology_fault Pipeline.reachable_clashing [1] default).2.1 _ hname).2
  · exact ((buildTopology_fault Pipeline.reachable_oversized [0, 2] default).2.1 _ hpartitions).2

end StreamPlan
