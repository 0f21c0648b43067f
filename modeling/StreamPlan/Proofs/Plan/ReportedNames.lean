import StreamPlan.Proofs.Plan.Failures
import StreamPlan.Proofs.Plan.Operations
import StreamPlan.Proofs.Plan.Sessions

/-!
# The names that nodes report

A node reports the name its user gave it, or else the one a build wrote back.  A build
writes to the nodes it makes stages of and to no others, and nothing takes a written name
away but a name of the user.  So what a node reports is the latest name it was given, and
this need not be a name of the latest build: a node that the latest build did not reach
goes on reporting an older one, even if another node has it by now.

## Main definitions

* `BuildSession.WritesToStages` — a session has changed no name but those of its stages.
* `Pipeline.nameGiven`, `Pipeline.latestName` — the name that an operation gives to a node,
  and the latest one in a run of operations.
* `Pipeline.lowered` — the stages that a build makes of nodes.
* `Pipeline.IsCurrent` — nodes report the stages of one build only.
* `Pipeline.ReportsLatest` — what nodes report after a build.

## Main results

* `Pipeline.nameOf?_performAll` — **a node reports the latest name it was given.**
* `Pipeline.reportsLatest_performAll` — **after a build the reported names are its own
  exactly if no node that it left out had been given one before.**
* `Pipeline.stale_name_kept` — a node that keeps the name of another.
-/

namespace StreamPlan

/-! ### Sessions -/

namespace BuildSession

variable {σ : Type}

/-- A session that was started on the pipeline `g` has changed no name but those of its
stages. -/
def WritesToStages (g : Pipeline) (s : BuildSession σ) : Prop :=
  ∀ i, s.stageName? i = none → s.pipeline.nameOf? i = g.nameOf? i

variable [PlanSink σ]

theorem WritesToStages.lower {g : Pipeline} {s : BuildSession σ} (h : s.WritesToStages g)
    (id : NodeId) : (s.lower id).2.WritesToStages g := by
  refine lower_preserves (P := fun s' => s'.WritesToStages g) h (fun _ => h) ?_
  intro n unit inputs _ _ _ _ i hi
  rw [stageName?, getElem?_built_recorded] at hi
  by_cases heq : id = i
  · rw [if_pos heq] at hi
    cases hi
  · rw [if_neg heq] at hi
    rw [← h i hi]
    exact nameOf?_assignName_of_ne _ heq

theorem WritesToStages.after {g : Pipeline} {s₀ s : BuildSession σ} (h : s₀.WritesToStages g)
    (hs : s₀.After s) : s.WritesToStages g :=
  After.invariant (P := fun s' => s'.WritesToStages g) (fun _ id hs' _ => hs'.lower id) h hs

/-- Between the builds of a session a node reports its stage, if it has one, and else what
it reported before the session. -/
theorem After.nameOf? {g : Pipeline} {sink : σ} {config : Config} {s : BuildSession σ}
    (hs : (fresh g sink config).After s) (i : NodeId) :
    s.pipeline.nameOf? i = (s.stageName? i).or (g.nameOf? i) := by
  cases hstage : s.stageName? i with
  | none =>
    have hfresh : (fresh g sink config).WritesToStages g := fun _ _ => rfl
    exact hfresh.after hs i hstage
  | some name => exact ((coherent_fresh g sink config).after hs).reported i name hstage

end BuildSession

namespace Pipeline

theorem after_run {σ : Type} [PlanSink σ] (g : Pipeline) (terminals : List NodeId) (sink : σ)
    (config : Config) :
    (BuildSession.fresh g sink config).After (g.run terminals sink config).2 :=
  run_preserves .refl (BuildSession.After.refl.buildAll terminals)

/-! ### Operations -/

/-- The stages that a build into a new topology makes of nodes. -/
def lowered (g : Pipeline) (terminals : List NodeId) (config : Config) (i : NodeId) :
    Option String :=
  (g.run terminals Topology.empty config).2.stageName? i

/-- The name that an edit gives to a node. -/
def Edit.nameGiven (i : NodeId) : Edit → Option String
  | .setName id name => if id = i then some name else none
  | _ => none

/-- The name that an operation gives to a node. -/
def nameGiven (g : Pipeline) (i : NodeId) : Operation → Option String
  | .edit e =>
    match g.edit e with
    | .ok _ => e.nameGiven i
    | .error _ => none
  | @Operation.session _ _ sink config ids =>
    match BuildSession.start g sink config with
    | .ok s => (s.buildEach ids).stageName? i
    | .error _ => none
  | @Operation.plan _ _ terminals sink config => (g.run terminals sink config).2.stageName? i
  | .topology terminals config => g.lowered terminals config i

/-- The latest name that a run of operations gives to a node. -/
def latestName (g : Pipeline) (i : NodeId) : List Operation → Option String
  | [] => none
  | op :: ops => ((g.perform op).latestName i ops).or (g.nameGiven i op)

/-- A new node has no name. -/
theorem nameOf?_push (g : Pipeline) (partitions : UInt64) (kind : NodeKind) (i : NodeId) :
    (g.push partitions kind).2.nameOf? i = g.nameOf? i := by
  simp only [nameOf?, push, Array.getElem?_push]
  by_cases heq : i = g.nodes.size
  · subst heq
    simp [Node.name]
  · rw [if_neg heq]

theorem Edit.nameGiven_eq_none {e : Edit} {i : NodeId} (h : e.target? ≠ some i) :
    e.nameGiven i = none := by
  cases e with
  | setName id name =>
    have hne : id ≠ i := fun heq => h (congrArg some heq)
    rw [Edit.nameGiven, if_neg hne]
  | _ => rfl

theorem nameOf?_edit {g g' : Pipeline} {e : Edit} (h : g.edit e = .ok g') (i : NodeId) :
    g'.nameOf? i = (e.nameGiven i).or (g.nameOf? i) := by
  by_cases htarget : e.target? = some i
  · cases e with
    | setName id name =>
      cases htarget
      obtain ⟨-, ⟨n, hn⟩, rfl⟩ := setName_eq_ok_iff.mp h
      rw [nameOf?, getElem?_nodes_update, if_pos rfl, hn]
      simp [Edit.nameGiven, Node.name]
    | setPartitions id partitions =>
      cases htarget
      obtain ⟨-, ⟨n, hn⟩, rfl⟩ := setPartitions_eq_ok_iff.mp h
      rw [nameOf?, getElem?_nodes_update, if_pos rfl, nameOf?, hn]
      rfl
    | _ => cases htarget
  · rw [Edit.nameGiven_eq_none htarget, Option.none_or]
    rcases edit_cases h with ⟨-, partitions, kind, rfl⟩ | ⟨id, f, hid, rfl⟩
    · exact nameOf?_push g partitions kind i
    · have hne : id ≠ i := fun heq => htarget (heq ▸ hid)
      rw [nameOf?, getElem?_nodes_update, if_neg hne, nameOf?]

/-- **An operation gives a node a name, or leaves it the one it had.** -/
theorem nameOf?_perform (g : Pipeline) (op : Operation) (i : NodeId) :
    (g.perform op).nameOf? i = (g.nameGiven i op).or (g.nameOf? i) := by
  cases op with
  | edit e =>
    cases he : g.edit e with
    | ok g' =>
      rw [perform_edit_of_ok he, nameGiven, he]
      exact nameOf?_edit he i
    | error reason =>
      rw [perform_edit_of_error he, nameGiven, he]
      rfl
  | session sink config ids =>
    rw [perform, nameGiven]
    cases hstart : BuildSession.start g sink config with
    | ok s₀ =>
      obtain ⟨-, rfl⟩ := BuildSession.start_eq_ok_iff.mp hstart
      exact (BuildSession.After.refl.buildEach ids).nameOf? i
    | error reason => rfl
  | plan terminals sink config =>
    rw [perform, nameGiven, buildPlan_eq_run]
    exact (g.after_run terminals sink config).nameOf? i
  | topology terminals config =>
    rw [perform, nameGiven, buildTopology_eq_buildPlan, buildPlan_eq_run]
    exact (g.after_run terminals Topology.empty config).nameOf? i

/-- **A node reports the latest name it was given**, and without one what it reported at
the start. -/
theorem nameOf?_performAll (g : Pipeline) (ops : List Operation) (i : NodeId) :
    (g.performAll ops).nameOf? i = (g.latestName i ops).or (g.nameOf? i) := by
  induction ops generalizing g with
  | nil => rfl
  | cons op ops ih =>
    show ((g.perform op).performAll ops).nameOf? i = _
    rw [ih, nameOf?_perform, latestName, Option.or_assoc]

theorem nameOf?_blank (origin : Option Config) (i : NodeId) : (blank origin).nameOf? i = none := by
  cases origin with
  | none => rfl
  | some c => rfl

/-! ### After a build -/

/-- The user has not named the node. -/
def LeftUnnamed (g : Pipeline) (i : NodeId) : Prop :=
  ∃ n, g.nodes[i]? = some n ∧ n.userName = none

/-- Nodes that the user has not named report the stages that `stageName` has for them, and
nothing else. -/
def IsCurrent (g : Pipeline) (stageName : NodeId → Option String) : Prop :=
  ∀ i, g.LeftUnnamed i → ∀ name, g.nameOf? i = some name ↔ stageName i = some name

/-- What the nodes of the pipeline `g'` report, if it came back from a build of `g` into the
topology `t`, and `earlier` has the latest names that nodes were given before. -/
structure ReportsLatest (g : Pipeline) (earlier : NodeId → Option String)
    (terminals : List NodeId) (config : Config) (t : Topology) (g' : Pipeline) : Prop where
  /-- The stages of the topology are those of the nodes upstream of the end nodes. -/
  stages : ∃ nodes, (∀ i, i ∈ nodes ↔ g.UpstreamOfAny terminals i) ∧
    List.Forall₂ (g.Becomes (g.lowered terminals config) config.routingSeed) nodes t.stages.toList
  lowered_eq_none_iff : ∀ i, g.lowered terminals config i = none ↔ ¬ g.UpstreamOfAny terminals i
  nameOf_eq : ∀ i, g'.nameOf? i = (g.lowered terminals config i).or (earlier i)
  isCurrent_iff : g'.IsCurrent (g.lowered terminals config) ↔
    ∀ i, g'.LeftUnnamed i → ¬ g.UpstreamOfAny terminals i → earlier i = none
  inj_of_isCurrent : g'.IsCurrent (g.lowered terminals config) → ∀ i j name,
    g'.LeftUnnamed i → g'.LeftUnnamed j → g'.nameOf? i = some name → g'.nameOf? j = some name →
    i = j

/-- Names are current if what a build left out had none. -/
theorem isCurrent_iff {g : Pipeline} {stageName earlier : NodeId → Option String}
    (hname : ∀ i, g.nameOf? i = (stageName i).or (earlier i)) :
    g.IsCurrent stageName ↔
      ∀ i, g.LeftUnnamed i → stageName i = none → earlier i = none := by
  constructor
  · intro h i hi hnone
    rw [Option.eq_none_iff_forall_ne_some]
    intro name hearlier
    have hstage : stageName i = some name := by
      apply (h i hi name).mp
      rw [hname, hnone, Option.none_or, hearlier]
    rw [hnone] at hstage
    cases hstage
  · intro h i hi name
    rw [hname]
    cases hstage : stageName i with
    | none => rw [h i hi hstage, Option.or_none]
    | some stage => rfl

/-- **What nodes report after a run of operations and one more build that succeeds.**  It is
the stage that this build made of the node and else the latest name that was given to it
before.  So the names are those of this build exactly if no node that it left out, and that
the user has not named, had been given one; and if they are, no two of these nodes report
the same name. -/
theorem reportsLatest_performAll (origin : Option Config) (ops : List Operation)
    {terminals : List NodeId} {config : Config} {t : Topology} {g' : Pipeline}
    (h : ((blank origin).performAll ops).buildTopology terminals config = (.ok t, g')) :
    ReportsLatest ((blank origin).performAll ops) ((blank origin).latestName · ops)
      terminals config t g' := by
  have hbefore : ∀ i, ((blank origin).performAll ops).nameOf? i =
      (blank origin).latestName i ops := by
    intro i
    rw [nameOf?_performAll, nameOf?_blank, Option.or_none]
  generalize (blank origin).performAll ops = g at h hbefore ⊢
  rw [buildTopology_eq_buildPlan, buildPlan_eq_run, Prod.mk.injEq] at h
  obtain ⟨hanswer, rfl⟩ := h
  obtain ⟨⟨⟩, hok, rfl⟩ := Except.map_eq_ok_iff.mp hanswer
  obtain ⟨hs, nodes, hnodes⟩ := g.mirrored_run terminals config
  have hbuild := (buildAll_of_run hok).2
  have hnone : ∀ i, g.lowered terminals config i = none ↔ ¬ g.UpstreamOfAny terminals i := by
    intro i
    rw [← BuildSession.contains_built_iff_upstream hbuild, Bool.not_eq_true,
      BuildSession.contains_built_eq_false_iff]
    rfl
  have hname : ∀ i, (g.run terminals Topology.empty config).2.pipeline.nameOf? i =
      (g.lowered terminals config i).or ((blank origin).latestName i ops) := by
    intro i
    rw [← hbefore]
    exact (g.after_run terminals Topology.empty config).nameOf? i
  constructor
  case stages =>
    refine ⟨nodes, fun i => ?_, ?_⟩
    · rw [hnodes.mem_iff, BuildSession.contains_built_iff_upstream hbuild]
    · have hstages := hnodes.stages
      rw [config_run] at hstages
      exact hstages
  case lowered_eq_none_iff => exact hnone
  case nameOf_eq => exact hname
  case isCurrent_iff =>
    rw [isCurrent_iff hname]
    simp only [hnone]
  case inj_of_isCurrent =>
    intro hcurrent i j name hi hj hname_i hname_j
    exact hs.built_inj i j name ((hcurrent i hi name).mp hname_i) ((hcurrent j hj name).mp hname_j)

/-- Two sources, the first of which has been built. -/
def firstBuilt : List Operation :=
  [.edit (.source fun _ => none), .edit (.source fun _ => none), .topology [0] default]

/-- Both sources are built again, the second one first, and exchange their names. -/
theorem reportsLatest_performAll_firstBuilt :
    ∃ t g', ((blank none).performAll firstBuilt).buildTopology [1, 0] default = (.ok t, g') ∧
      g'.nodes.map Node.name = #[some "source2", some "source1"] ∧
      ReportsLatest ((blank none).performAll firstBuilt)
        ((blank none).latestName · firstBuilt) [1, 0] default t g' := by
  have hok : (((blank none).performAll firstBuilt).buildTopology [1, 0] default).1.isOk = true := by
    decide +kernel
  have hnames : (((blank none).performAll firstBuilt).buildTopology [1, 0] default).2.nodes.map
      Node.name = #[some "source2", some "source1"] := by
    decide +kernel
  obtain ⟨t, g', hbuild⟩ := Except.exists_ok_of_isOk hok
  rw [hbuild] at hnames
  exact ⟨t, g', hbuild, hnames, reportsLatest_performAll none firstBuilt hbuild⟩

/-- If only the second source is built again, it gets the name that the first one goes on
reporting: the names are not those of the build, and two nodes report the same one. -/
theorem stale_name_kept :
    ∃ t g', ((blank none).performAll firstBuilt).buildTopology [1] default = (.ok t, g') ∧
      t.names = ["source1"] ∧ g'.LeftUnnamed 0 ∧ g'.LeftUnnamed 1 ∧
      g'.nameOf? 0 = some "source1" ∧ g'.nameOf? 1 = some "source1" ∧
      ¬ g'.IsCurrent (((blank none).performAll firstBuilt).lowered [1] default) := by
  have hnames : (((blank none).performAll firstBuilt).buildTopology [1] default).1.map
      Topology.names = .ok ["source1"] := by
    decide +kernel
  have hgiven : ∀ i < 2,
      (((blank none).performAll firstBuilt).buildTopology [1] default).2.nodes[i]?.map
        Node.userName = some none := by
    decide +kernel
  have hreports : ∀ i < 2,
      (((blank none).performAll firstBuilt).buildTopology [1] default).2.nameOf? i =
        some "source1" := by
    decide +kernel
  have hstage : ((blank none).performAll firstBuilt).lowered [1] default 0 = none := by
    decide +kernel
  rcases hbuild : ((blank none).performAll firstBuilt).buildTopology [1] default with ⟨r, g'⟩
  rw [hbuild] at hnames hgiven hreports
  obtain ⟨t, rfl, ht⟩ := Except.map_eq_ok_iff.mp hnames
  have hunnamed : ∀ i < 2, g'.LeftUnnamed i := fun i hi => Option.map_eq_some_iff.mp (hgiven i hi)
  refine ⟨t, g', rfl, ht, hunnamed 0 (by decide), hunnamed 1 (by decide), hreports 0 (by decide),
    hreports 1 (by decide), fun hcurrent => ?_⟩
  have hlowered := (hcurrent 0 (hunnamed 0 (by decide)) "source1").mp (hreports 0 (by decide))
  rw [hstage] at hlowered
  cases hlowered

end Pipeline
end StreamPlan
