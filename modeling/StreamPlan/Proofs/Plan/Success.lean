import StreamPlan.Proofs.Plan.Builds
import StreamPlan.Proofs.Plan.Dialogue
import StreamPlan.Proofs.Plan.Faithful
import StreamPlan.Proofs.Plan.FreeNames
import StreamPlan.Proofs.Topology.Checks

/-!
# When end nodes compile

A build can fail for what the user asked for: settings that are refused, end nodes that
do not exist, too many partitions, one name for two nodes.  It can also fail because a
name of the user is one that the planner gives.  This file shows that there is no other
reason, and that the first four always lead to a failure.

A ready node is lowered unless its name is taken or its number of partitions is not
allowed; the topology then takes its calls, and the checks at the end pass.  Conversely,
a build that has succeeded has a stage for every node upstream of its end nodes, and
stages have different names and allowed numbers of partitions.

## Main definitions

* `Pipeline.Compilable` — what has to hold of the settings, the end nodes, the partitions
  and the names.
* `Pipeline.AvoidsNumbered` — no user's name is one that the planner gives.
* `Pipeline.PlainlyMade` — made without names and without changes of partitions.

## Main results

* `BuildSession.Mirrored.lower_eq_ok` — **a ready node with a free name and an allowed
  number of partitions becomes a stage.**
* `buildTopology_success` — **when a build succeeds and when it fails.**
-/

namespace StreamPlan

/-! ### The conditions -/

namespace Pipeline

/-- What has to hold for end nodes to compile. -/
structure Compilable (g : Pipeline) (terminals : List NodeId) (config : Config) : Prop where
  config_valid : config.validate = .ok ()
  has_terminal : ∀ t ∈ terminals, g.has t = true
  partitions_le : ∀ (i : NodeId) (n : Node), g.UpstreamOfAny terminals i → g.nodes[i]? = some n →
    n.partitions ≤ config.maxPartitions
  /-- No two nodes share a name of the user. -/
  userName_inj : ∀ (i j : NodeId) (m n : Node) (given : String),
    g.UpstreamOfAny terminals i → g.UpstreamOfAny terminals j →
    g.nodes[i]? = some m → g.nodes[j]? = some n →
    m.userName = some given → n.userName = some given → i = j

/-- No name of the user is the word for a family with a number from one on. -/
def AvoidsNumbered (g : Pipeline) (terminals : List NodeId) : Prop :=
  ∀ (i : NodeId) (n : Node) (given : String), g.UpstreamOfAny terminals i →
    g.nodes[i]? = some n → n.userName = some given →
    ∀ (family : Family) (k : Nat), 1 ≤ k → given ≠ StageNames.numbered family.label k

end Pipeline

/-! ### Ready nodes become stages -/

namespace BuildSession

variable {σ : Type}

/-- A name that is found is free, and a name that was given has to be. -/
theorem contains_resolveName_eq_false {s : BuildSession σ} {n : Node}
    (hgiven : ∀ given, n.userName = some given → s.names.contains given = false) :
    s.names.contains (s.resolveName n).1 = false := by
  unfold resolveName
  cases huser : n.userName with
  | some given => exact hgiven given huser
  | none => exact s.names.contains_fst_allocate n.family.label

theorem Ready.exists_wiring {s : BuildSession σ} {i : NodeId} {n : Node} (h : s.Ready i n) :
    ∃ unit inputs, s.wiring i n = .ok (unit, inputs) := by
  have hparents : ∀ p ∈ n.parents, ∃ name, s.stageName? p = some name :=
    fun p hp => contains_built_iff.mp (h.parents p hp)
  obtain ⟨unit, inputs, hrealizes⟩ := exists_realizes hparents s.config.routingSeed
  exact ⟨unit, inputs, wiring_of_realizes hrealizes⟩

/-- **A ready node with a free name and an allowed number of partitions becomes a
stage.** -/
theorem Mirrored.lower_eq_ok {g : Pipeline} {s : BuildSession Topology} (h : s.Mirrored g)
    {i : NodeId} {n : Node} (hready : s.Ready i n)
    (hfree : s.names.contains (s.resolveName n).1 = false)
    (hallows : s.allows n.partitions = true) : ∃ name, (s.lower i).1 = .ok name := by
  obtain ⟨hs, nodes, hnodes⟩ := h
  obtain ⟨unit, inputs, hwiring⟩ := hready.exists_wiring
  have hlowered := Lowered.recorded hready.node hwiring hfree hallows
  rw [hlowered.lower_eq, hnodes.sink_recorded hs hwiring hfree hallows]
  exact ⟨_, rfl⟩

/-- A session on its way to the end nodes. -/
structure Underway (g : Pipeline) (terminals : List NodeId) (config : Config)
    (s : BuildSession Topology) : Prop where
  mirrored : s.Mirrored g
  config_eq : s.config = config
  upstream : ∀ i, s.built.contains i = true → g.UpstreamOfAny terminals i

theorem underway_fresh (g : Pipeline) (terminals : List NodeId) (config : Config) :
    (fresh g Topology.empty config).Underway g terminals config where
  mirrored := mirrored_fresh g config
  config_eq := rfl
  upstream := by simp [fresh]

section Underway

variable {g : Pipeline} {terminals : List NodeId} {config : Config} {s : BuildSession Topology}

theorem Underway.lower (h : s.Underway g terminals config) {i : NodeId}
    (hi : g.UpstreamOfAny terminals i) (hnew : s.built.contains i = false) :
    (s.lower i).2.Underway g terminals config where
  mirrored := h.mirrored.lower hnew
  config_eq := by rw [config_lower, h.config_eq]
  upstream := by
    intro j hj
    rcases eq_or_contains_built_of_lower hj with rfl | hj
    · exact hi
    · exact h.upstream j hj

/-- The name a user gave to a ready node is not taken: not by a node with a name of its
own, and not by one with a number. -/
theorem Underway.contains_given (h : s.Underway g terminals config)
    (hg : g.Compilable terminals config) (havoids : g.AvoidsNumbered terminals) {i : NodeId}
    {n : Node} (hi : g.UpstreamOfAny terminals i) (hready : s.Ready i n) {given : String}
    (hgiven : n.userName = some given) : s.names.contains given = false := by
  have hs := h.mirrored.1
  obtain ⟨m, hm, hnm⟩ := Pipeline.exists_of_described hs.described_eq hready.node
  rw [Node.userName_eq_of_described hnm] at hgiven
  by_contra htaken
  rw [Bool.not_eq_false] at htaken
  obtain ⟨j, hj⟩ := (hs.taken_iff given).mp htaken
  have hbuilt : s.built.contains j = true := contains_built_iff.mpr ⟨given, hj⟩
  obtain ⟨other, hother, hcalled, -⟩ := hs.entry j given hj
  unfold Node.MayBeCalled at hcalled
  cases huser : other.userName with
  | none =>
    rw [huser] at hcalled
    obtain ⟨k, hk, hnumbered⟩ := hcalled
    exact havoids i m given hi hm hgiven other.family k hk hnumbered
  | some name =>
    rw [huser] at hcalled
    cases hcalled
    have hij : i = j :=
      hg.userName_inj i j m other given hi (h.upstream j hbuilt) hm hother hgiven huser
    rw [← hij, hready.new] at hbuilt
    cases hbuilt

theorem Underway.allows (h : s.Underway g terminals config) (hwf : g.WellFormed)
    (hg : g.Compilable terminals config) {i : NodeId} {n : Node}
    (hi : g.UpstreamOfAny terminals i) (hnode : s.pipeline.nodes[i]? = some n) :
    s.allows n.partitions = true := by
  obtain ⟨m, hm, hnm⟩ := Pipeline.exists_of_described h.mirrored.1.described_eq hnode
  rw [Node.partitions_eq_of_described hnm]
  refine decide_eq_true ⟨(hwf.node i m hm).partitions_ne_zero, ?_⟩
  rw [h.config_eq]
  exact hg.partitions_le i m hi hm

/-- The end nodes compile. -/
theorem Underway.buildAll_eq_ok (h : s.Underway g terminals config) (hwf : g.WellFormed)
    (hg : g.Compilable terminals config) (havoids : g.AvoidsNumbered terminals) :
    ∃ s', s.buildAll terminals = (.ok (), s') ∧ s'.Underway g terminals config := by
  refine BuildSession.buildAll_eq_ok (Q := g.UpstreamOfAny terminals) ?_ ?_ ?_ ?_ h
    fun t ht => ⟨t, ht, .refl⟩
  · exact fun s' hs' => hwf.of_described hs'.mirrored.1.described_eq
  · rintro s' i hs' ⟨t, ht, hi⟩
    obtain ⟨m, hm⟩ := Pipeline.exists_node_of_upstream hwf (hg.has_terminal t ht) hi
    obtain ⟨n, hn, -⟩ := Pipeline.exists_of_described hs'.mirrored.1.described_eq.symm hm
    exact ⟨n, hn⟩
  · intro s' i p hs' hi hp
    exact hi.parent (Pipeline.hasParent_of_described hs'.mirrored.1.described_eq hp)
  · intro s' i n hs' hi hready
    have hfree : s'.names.contains (s'.resolveName n).1 = false :=
      contains_resolveName_eq_false fun given => hs'.contains_given hg havoids hi hready
    have hallows := hs'.allows hwf hg hi hready.node
    obtain ⟨name, hname⟩ := hs'.mirrored.lower_eq_ok hready hfree hallows
    exact ⟨name, (s'.lower i).2, Prod.ext hname rfl, hs'.lower hi hready.new⟩

end Underway

/-! ### The checks pass -/

/-- The stages stand in the order of their nodes, and parents stand first. -/
theorem Mirrors.inOrder {g : Pipeline} {nodes : List NodeId} {s : BuildSession Topology}
    (h : s.Mirrors g nodes) : s.sink.InOrder := by
  have hlength := h.stages.length_eq
  intro k st hst e he
  obtain ⟨hk, rfl⟩ := List.getElem?_eq_some_iff.mp hst
  have hk' : k < nodes.length := by omega
  obtain ⟨-, n, hn, hstage⟩ := h.stages.get hk' hk
  obtain ⟨p, hp, hname⟩ := hstage.realizes.exists_parent he
  -- the stage of the parent is where the parent is
  obtain ⟨j, hj, hpj⟩ := h.parentsFirst k _ p (List.getElem?_eq_getElem hk') ⟨n, hn, hp⟩
  obtain ⟨hj', rfl⟩ := List.getElem?_eq_some_iff.mp hpj
  have hjk : j < s.sink.stages.toList.length := by omega
  obtain ⟨hnamed, -⟩ := h.stages.get hj' hjk
  refine ⟨j, _, hj, List.getElem?_eq_getElem hjk, ?_⟩
  exact Option.some.inj (hnamed.symm.trans hname)

theorem Mirrors.verified_eq_ok {g : Pipeline} {nodes : List NodeId} {s : BuildSession Topology}
    (h : s.Mirrors g nodes) (hs : s.Coherent g) (config : Config) :
    Pipeline.verified config s.sink = .ok s.sink := by
  have hunique := s.sink.checkUniqueNames_eq_ok_iff.mpr (h.names_nodup hs)
  have horder := s.sink.checkDependencyOrder_eq_ok_iff.mpr h.inOrder
  unfold Pipeline.verified
  rw [hunique, horder]
  cases config.verify <;> rfl

/-! ### What a build that succeeded shows -/

/-- Stages have allowed numbers of partitions. -/
theorem partitions_le_of_buildAll [PlanSink σ] {g : Pipeline} {sink : σ} {config : Config}
    {terminals : List NodeId} {i : NodeId} {n : Node} (hn : g.nodes[i]? = some n)
    (hi : ((fresh g sink config).buildAll terminals).2.built.contains i = true) :
    n.partitions ≤ config.maxPartitions := by
  refine (buildAll_invariant
    (P := fun s : BuildSession σ => (s.pipeline.described = g.described ∧ s.config = config) ∧
      (s.built.contains i = true → n.partitions ≤ config.maxPartitions)) ?_ ?_ terminals).2 hi
  · rintro s id ⟨⟨hdescribed, hconfig⟩, hs⟩ -
    refine ⟨⟨by rw [described_lower, hdescribed], by rw [config_lower, hconfig]⟩, ?_⟩
    refine lower_preserves
      (P := fun s' => s'.built.contains i = true → n.partitions ≤ config.maxPartitions)
      hs (fun _ => hs) ?_
    intro m unit inputs hm _ _ hallows hbuilt
    obtain ⟨name, hname⟩ := contains_built_iff.mp hbuilt
    rcases built_recorded_cases hname with ⟨rfl, -⟩ | ⟨-, hname⟩
    · obtain ⟨m', hm', hmm'⟩ := Pipeline.exists_of_described hdescribed hm
      rw [hn] at hm'
      cases hm'
      rw [← Node.partitions_eq_of_described hmm', ← hconfig]
      exact (of_decide_eq_true hallows).2
    · exact hs (contains_built_iff.mpr ⟨name, hname⟩)
  · exact ⟨⟨rfl, rfl⟩, by simp [fresh]⟩

end BuildSession

namespace Pipeline

/-- End nodes that compiled have stages, and so has everything upstream of them. -/
theorem compilable_of_buildAll {σ : Type} [PlanSink σ] {g : Pipeline} {sink : σ}
    {terminals : List NodeId} {config : Config} {s : BuildSession σ}
    (hvalid : config.validate = .ok ())
    (hbuild : (BuildSession.fresh g sink config).buildAll terminals = (.ok (), s)) :
    g.Compilable terminals config := by
  have hsession : ((BuildSession.fresh g sink config).buildAll terminals).2 = s := by rw [hbuild]
  have hs : s.Coherent g := by
    rw [← hsession]
    exact (BuildSession.coherent_fresh g sink config).buildAll terminals
  have hbuilt : ∀ i, g.UpstreamOfAny terminals i → s.built.contains i = true :=
    fun i hi => (BuildSession.contains_built_iff_upstream hbuild).mpr hi
  have hnamed : ∀ i n given, g.UpstreamOfAny terminals i → g.nodes[i]? = some n →
      n.userName = some given → s.built[i]? = some given := by
    intro i n given hi hn hgiven
    obtain ⟨name, hname⟩ := BuildSession.contains_built_iff.mp (hbuilt i hi)
    obtain ⟨m, hm, hcalled, -⟩ := hs.entry i name hname
    rw [hn] at hm
    cases hm
    unfold Node.MayBeCalled at hcalled
    rw [hgiven] at hcalled
    rw [hname, hcalled]
  constructor
  case config_valid => exact hvalid
  case has_terminal =>
    intro t ht
    obtain ⟨name, hname⟩ := BuildSession.contains_built_iff.mp (hbuilt t ⟨t, ht, .refl⟩)
    obtain ⟨n, hn, -⟩ := hs.entry t name hname
    exact has_of_node hn
  case partitions_le =>
    intro i n hi hn
    have hstage := hbuilt i hi
    rw [← hsession] at hstage
    exact BuildSession.partitions_le_of_buildAll hn hstage
  case userName_inj =>
    intro i j m n given hi hj hm hn hmgiven hngiven
    exact hs.built_inj i j given (hnamed i m given hi hm hmgiven) (hnamed j n given hj hn hngiven)

theorem buildTopology_eq_ok {g : Pipeline} (hwf : g.WellFormed) {terminals : List NodeId}
    {config : Config} (hg : g.Compilable terminals config)
    (havoids : g.AvoidsNumbered terminals) :
    ∃ t, (g.buildTopology terminals config).1 = .ok t := by
  obtain ⟨s, hbuild, hs⟩ :=
    (BuildSession.underway_fresh g terminals config).buildAll_eq_ok hwf hg havoids
  obtain ⟨hcoherent, nodes, hnodes⟩ := hs.mirrored
  have hrun : g.run terminals Topology.empty config = (.ok (), s) := by
    rw [run, hg.config_valid]
    exact hbuild
  refine ⟨s.sink, ?_⟩
  rw [buildTopology_fst, buildPlan_eq_run, hrun]
  exact hnodes.verified_eq_ok hcoherent config

theorem compilable_of_buildTopology {g : Pipeline} {terminals : List NodeId} {config : Config}
    {t : Topology} (h : (g.buildTopology terminals config).1 = .ok t) :
    g.Compilable terminals config := by
  rw [buildTopology_fst, buildPlan_eq_run] at h
  obtain ⟨_, h, -⟩ := Except.bind_eq_ok_iff.mp h
  obtain ⟨_, hrun, -⟩ := Except.map_eq_ok_iff.mp h
  obtain ⟨hvalid, hbuild⟩ := buildAll_of_run hrun
  exact compilable_of_buildAll hvalid hbuild

/-! ### Pipelines without names -/

/-- Operations that take the number of partitions from what is there and give no name. -/
def Edit.IsPlain : Edit → Prop
  | .source _ => True
  | .map _ _ => True
  | .flatMap _ _ => True
  | .filter _ _ => True
  | .join _ _ _ => True
  | .repartition _ _ => False
  | .setName _ _ => False
  | .setPartitions _ _ => False

/-- Made with such operations, from sources that are sized by the settings. -/
inductive PlainlyMade (config : Config) : Pipeline → Prop
  | ofConfig : PlainlyMade config (.ofConfig config)
  | edit {g g' : Pipeline} (e : Edit) (hplain : e.IsPlain) (hg : PlainlyMade config g)
    (he : g.edit e = .ok g') : PlainlyMade config g'

theorem PlainlyMade.reachable {config : Config} {g : Pipeline} (h : g.PlainlyMade config) :
    g.Reachable := by
  induction h with
  | ofConfig => exact .ofConfig config
  | edit e _ _ he ih => exact .edit e ih he

/-- No node has a name, and all have one number of partitions. -/
structure Uniform (partitions : UInt64) (g : Pipeline) : Prop where
  sourcePartitions_eq : g.sourcePartitions = partitions
  node : ∀ (i : NodeId) (n : Node), g.nodes[i]? = some n →
    n.userName = none ∧ n.partitions = partitions

section Uniform

variable {partitions : UInt64} {g g' : Pipeline}

theorem Uniform.push (h : g.Uniform partitions) (kind : NodeKind) :
    (g.push partitions kind).2.Uniform partitions where
  sourcePartitions_eq := h.sourcePartitions_eq
  node := by
    intro i n hi
    simp only [Pipeline.push, Array.getElem?_push] at hi
    split at hi
    · cases hi
      exact ⟨rfl, rfl⟩
    · exact h.node i n hi

theorem Uniform.transform (h : g.Uniform partitions) {parent : NodeId} {op : Transform}
    {made : NodeId × Pipeline} (hmade : g.transform parent op = .ok made) :
    made.2.Uniform partitions := by
  obtain ⟨n, hn, hpush⟩ := Except.bind_eq_ok_iff.mp hmade
  cases hpush
  rw [(h.node parent n (node_eq_ok_iff.mp hn)).2]
  exact h.push (.transform parent op)

theorem Uniform.join (h : g.Uniform partitions) {left right : NodeId} {spec : JoinSpec}
    {made : NodeId × Pipeline} (hmade : g.join left right spec = .ok made) :
    made.2.Uniform partitions := by
  obtain ⟨l, hl, hrest⟩ := Except.bind_eq_ok_iff.mp hmade
  obtain ⟨r, hr, hrest⟩ := Except.bind_eq_ok_iff.mp hrest
  obtain ⟨u, hu, hpush⟩ := Except.bind_eq_ok_iff.mp hrest
  cases hpush
  rw [(h.node left l (node_eq_ok_iff.mp hl)).2]
  exact h.push (.join left right spec)

theorem Uniform.edit (h : g.Uniform partitions) {e : Edit} (hplain : e.IsPlain)
    (he : g.edit e = .ok g') : g'.Uniform partitions := by
  cases e with
  | source next =>
    cases he
    rw [Pipeline.source, h.sourcePartitions_eq]
    exact h.push (.source next)
  | map parent f =>
    obtain ⟨made, hmade, rfl⟩ := Except.map_eq_ok_iff.mp he
    exact h.transform hmade
  | flatMap parent f =>
    obtain ⟨made, hmade, rfl⟩ := Except.map_eq_ok_iff.mp he
    exact h.transform hmade
  | filter parent keep =>
    obtain ⟨made, hmade, rfl⟩ := Except.map_eq_ok_iff.mp he
    exact h.transform hmade
  | join left right spec =>
    obtain ⟨made, hmade, rfl⟩ := Except.map_eq_ok_iff.mp he
    exact h.join hmade
  | repartition => exact hplain.elim
  | setName => exact hplain.elim
  | setPartitions => exact hplain.elim

end Uniform

theorem PlainlyMade.uniform {g : Pipeline} {config : Config} (h : g.PlainlyMade config) :
    g.Uniform (Pipeline.ofConfig config).sourcePartitions := by
  induction h with
  | ofConfig => exact ⟨rfl, by simp [Pipeline.ofConfig]⟩
  | edit e hplain _ he ih => exact ih.edit hplain he

/-- Acceptable settings allow the partitions of their sources. -/
theorem sourcePartitions_le_of_validate {config : Config} (h : config.validate = .ok ()) :
    (ofConfig config).sourcePartitions ≤ config.maxPartitions := by
  unfold Config.validate at h
  unfold ofConfig
  split at h
  · cases h
  · next hdefault =>
    split at h
    · cases h
    · split at h
      · cases h
      · next hle =>
        rw [if_neg hdefault]
        exact UInt64.not_lt.mp hle

/-- Names cannot clash where there are none. -/
theorem Uniform.compilable {partitions : UInt64} {g : Pipeline} (h : g.Uniform partitions)
    {terminals : List NodeId} {config : Config} (hvalid : config.validate = .ok ())
    (hle : partitions ≤ config.maxPartitions) (hterminals : ∀ t ∈ terminals, g.has t = true) :
    g.Compilable terminals config ∧ g.AvoidsNumbered terminals := by
  have hnone : ∀ (i : NodeId) (n : Node) (given : String), g.nodes[i]? = some n →
      n.userName ≠ some given := by
    intro i n given hn
    rw [(h.node i n hn).1]
    exact nofun
  refine ⟨⟨hvalid, hterminals, fun i n _ hn => ?_, ?_⟩, ?_⟩
  · rw [(h.node i n hn).2]
    exact hle
  · intro i j m n given _ _ hm _ hgiven _
    exact absurd hgiven (hnone i m given hm)
  · intro i n given _ hn hgiven
    exact absurd hgiven (hnone i n given hn)

end Pipeline

/-- **When a build succeeds and when it fails.**  It succeeds if the settings, the end
nodes, the partitions and the names are in order and no name of the user is one that the
planner gives; it fails if one of the first four is not.  In particular, what was made
without names and sized by the settings compiles from any of its nodes. -/
theorem buildTopology_success {g : Pipeline} (hg : g.Reachable) (terminals : List NodeId)
    (config : Config) :
    (g.Compilable terminals config → g.AvoidsNumbered terminals →
        ∃ t, (g.buildTopology terminals config).1 = .ok t) ∧
      (¬ g.Compilable terminals config →
        ∃ e, (g.buildTopology terminals config).1 = .error e) ∧
      (config.validate = .ok () → g.PlainlyMade config → (∀ t ∈ terminals, g.has t = true) →
        ∃ t, (g.buildTopology terminals config).1 = .ok t) := by
  refine ⟨Pipeline.buildTopology_eq_ok hg.wellFormed, fun hnot => ?_, ?_⟩
  · cases hbuild : (g.buildTopology terminals config).1 with
    | error e => exact ⟨e, rfl⟩
    | ok t => exact absurd (Pipeline.compilable_of_buildTopology hbuild) hnot
  · intro hvalid hplain hterminals
    have hle := Pipeline.sourcePartitions_le_of_validate hvalid
    obtain ⟨hcompilable, havoids⟩ := hplain.uniform.compilable hvalid hle hterminals
    exact Pipeline.buildTopology_eq_ok hg.wellFormed hcompilable havoids

/-! ### Examples -/

theorem Pipeline.compilable_diamond (terminals : List NodeId)
    (hterminals : ∀ t ∈ terminals, diamond.has t = true) :
    diamond.Compilable terminals default where
  config_valid := rfl
  has_terminal := hterminals
  partitions_le := by
    intro i n _ hn
    rcases i with _ | _ | _ | i
    · cases hn
      decide
    · cases hn
      decide
    · cases hn
      decide
    · cases hn
  userName_inj := by
    -- only the map has a name
    have hone : ∀ (i : NodeId) (n : Node) (given : String), diamond.nodes[i]? = some n →
        n.userName = some given → i = 1 := by
      intro i n given hn hgiven
      rcases i with _ | _ | _ | i
      · cases hn
        cases hgiven
      · rfl
      · cases hn
        cases hgiven
      · cases hn
    intro i j m n given _ _ hm hn hmgiven hngiven
    rw [hone i m given hm hmgiven, hone j n given hn hngiven]

theorem Pipeline.avoidsNumbered_diamond (terminals : List NodeId) :
    diamond.AvoidsNumbered terminals := by
  intro i n given _ hn hgiven family k _ heq
  have hhead := congrArg (fun word : String => word.toList.head?) heq
  rcases i with _ | _ | _ | i
  · cases hn
    cases hgiven
  · cases hn
    cases hgiven
    -- no word for a family starts like the name
    cases family <;> simp [StageNames.numbered, Family.label] at hhead
  · cases hn
    cases hgiven
  · cases hn

/-- A join of a source with itself. -/
def Pipeline.selfJoin : Pipeline where
  nodes := #[⟨0, none, none, 1, .source fun _ => none⟩,
    ⟨1, none, none, 1, .join 0 0 (.inner (.tumblingCount 1) .pair)⟩]
  sourcePartitions := 1

theorem Pipeline.plainlyMade_selfJoin : selfJoin.PlainlyMade default := by
  have hsource : PlainlyMade default _ := .edit (.source fun _ => none) trivial .ofConfig rfl
  exact .edit (.join 0 0 (.inner (.tumblingCount 1) .pair)) trivial hsource rfl

/-- The join of `Pipeline.diamond` with the map asked for as well, the same pipeline
asked for a node it does not have, and a pipeline without names. -/
theorem buildTopology_success_diamond :
    (Pipeline.diamond.Reachable ∧ Pipeline.diamond.Compilable [2, 1] default ∧
        Pipeline.diamond.AvoidsNumbered [2, 1] ∧
        ∃ t, (Pipeline.diamond.buildTopology [2, 1] default).1 = .ok t) ∧
      (¬ Pipeline.diamond.Compilable [2, 3] default ∧
        ∃ e, (Pipeline.diamond.buildTopology [2, 3] default).1 = .error e) ∧
      (Pipeline.selfJoin.Reachable ∧ Pipeline.selfJoin.PlainlyMade default ∧
        ∃ t, (Pipeline.selfJoin.buildTopology [1, 0, 1] default).1 = .ok t) := by
  have hcompilable := Pipeline.compilable_diamond [2, 1] (by decide)
  have havoids := Pipeline.avoidsNumbered_diamond [2, 1]
  have hnot : ¬ Pipeline.diamond.Compilable [2, 3] default := by
    intro h
    have hhas := h.has_terminal 3 (by decide)
    cases hhas
  have hplain := Pipeline.plainlyMade_selfJoin
  refine ⟨⟨Pipeline.reachable_diamond, hcompilable, havoids, ?_⟩, ⟨hnot, ?_⟩,
    ⟨hplain.reachable, hplain, ?_⟩⟩
  · exact (buildTopology_success Pipeline.reachable_diamond [2, 1] default).1 hcompilable havoids
  · exact (buildTopology_success Pipeline.reachable_diamond [2, 3] default).2.1 hnot
  · exact (buildTopology_success hplain.reachable [1, 0, 1] default).2.2 rfl hplain (by decide)

end StreamPlan
