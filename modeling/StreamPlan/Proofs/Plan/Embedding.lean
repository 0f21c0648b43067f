import StreamPlan.Proofs.Plan.Coherent
import StreamPlan.Proofs.Plan.Dialogue

/-!
# A plan depends on what is upstream, and on nothing else

The planner works with positions: the stack of the walk, the stages of nodes and the
names written back are all found by position.  Still the plan does not depend on them.
If everything upstream of some end nodes is copied to other positions, of the same or
of another pipeline, the copies are built with the same calls, the same names and the
same answer.  Other nodes, the order in which nodes were made and names that earlier
builds wrote back play no part.

The two builds are compared node by node.  `Matches` says that two sessions agree but
for positions; a build keeps it, by induction on the position of its node in the first
pipeline.

## Main definitions

* `NodeKind.rename`, `Node.IsCopy` — a node at another position.
* `Pipeline.Copied`, `Pipeline.Embeds` — copies of the nodes of a set, and of all nodes
  upstream of some.
* `BuildSession.Matches` — sessions that agree but for positions.

## Main results

* `buildPlan_eq_of_embeds` — **a build of copies is the same build.**
-/

namespace StreamPlan

/-! ### Copies of nodes -/

/-- What a node is, over parents at other positions. -/
def NodeKind.rename (φ : NodeId → NodeId) : NodeKind → NodeKind
  | .source next => .source next
  | .transform parent op => .transform (φ parent) op
  | .join left right spec => .join (φ left) (φ right) spec

/-- The node `n` is as the user described `m`, with parents moved by `φ`. -/
structure Node.IsCopy (φ : NodeId → NodeId) (m n : Node) : Prop where
  kind_eq : n.kind = m.kind.rename φ
  partitions_eq : n.partitions = m.partitions
  userName_eq : n.userName = m.userName

namespace Node.IsCopy

variable {φ : NodeId → NodeId} {m n : Node}

theorem parents_eq (h : m.IsCopy φ n) : n.parents = m.parents.map φ := by
  unfold Node.parents
  rw [h.kind_eq]
  cases m.kind <;> rfl

theorem family_eq (h : m.IsCopy φ n) : n.family = m.family := by
  unfold Node.family
  rw [h.kind_eq]
  cases m.kind <;> rfl

theorem of_described {m' n' : Node} (h : m.IsCopy φ n) (hm : m'.described = m.described)
    (hn : n'.described = n.described) : m'.IsCopy φ n' where
  kind_eq := by
    rw [Node.kind_eq_of_described hm, Node.kind_eq_of_described hn]
    exact h.kind_eq
  partitions_eq := by
    rw [Node.partitions_eq_of_described hm, Node.partitions_eq_of_described hn]
    exact h.partitions_eq
  userName_eq := by
    rw [Node.userName_eq_of_described hm, Node.userName_eq_of_described hn]
    exact h.userName_eq

end Node.IsCopy

/-- A node is a copy of one that is described alike. -/
theorem isCopy_id {m n : Node} (h : n.described = m.described) : m.IsCopy id n where
  kind_eq := by
    rw [Node.kind_eq_of_described h]
    cases m.kind <;> rfl
  partitions_eq := Node.partitions_eq_of_described h
  userName_eq := Node.userName_eq_of_described h

/-- A copy runs and reads the same, if the stages of the parents have the same names. -/
theorem Realizes.rename {stageName stageName' : NodeId → Option String} {seed : UInt64}
    {m : Node} {unit : StageUnit} {inputs : List InputEdge} {φ : NodeId → NodeId}
    (h : Realizes stageName seed m.kind unit inputs)
    (hparents : ∀ p ∈ m.parents, stageName' (φ p) = stageName p) :
    Realizes stageName' seed (m.kind.rename φ) unit inputs := by
  unfold Node.parents at hparents
  cases hkind : m.kind with
  | source next =>
    rw [hkind] at h
    cases h
    exact .source next
  | transform parent op =>
    rw [hkind] at h hparents
    cases h with
    | transform hparent =>
      exact .transform ((hparents parent (by simp)).trans hparent) op
  | join left right spec =>
    rw [hkind] at h hparents
    cases h with
    | join hleft hright =>
      exact .join ((hparents left (by simp)).trans hleft) ((hparents right (by simp)).trans hright)
        spec

namespace Pipeline

/-- The nodes of `g` at positions with `D` have copies in `h`, where `φ` says. -/
structure Copied (D : NodeId → Prop) (φ : NodeId → NodeId) (g h : Pipeline) : Prop where
  inj : ∀ i j, D i → D j → φ i = φ j → i = j
  parent : ∀ i p, D i → g.HasParent i p → D p
  node : ∀ i m, D i → g.nodes[i]? = some m → ∃ n, h.nodes[φ i]? = some n ∧ m.IsCopy φ n
  unknown : ∀ i, D i → g.nodes[i]? = none → φ i = i ∧ h.nodes[i]? = none

theorem getElem?_eq_none_of_described {g h : Pipeline} (hgh : g.described = h.described)
    {i : NodeId} (hi : h.nodes[i]? = none) : g.nodes[i]? = none := by
  cases hg : g.nodes[i]? with
  | none => rfl
  | some n =>
    obtain ⟨m, hm, -⟩ := exists_of_described hgh hg
    rw [hi] at hm
    cases hm

theorem Copied.of_described {D : NodeId → Prop} {φ : NodeId → NodeId} {g g' h h' : Pipeline}
    (hc : Copied D φ g h) (hg : g'.described = g.described) (hh : h'.described = h.described) :
    Copied D φ g' h' where
  inj := hc.inj
  parent := by
    intro i p hi hp
    exact hc.parent i p hi (hasParent_of_described hg hp)
  node := by
    intro i m' hi hm'
    obtain ⟨m, hm, hmm⟩ := exists_of_described hg hm'
    obtain ⟨n, hn, hcopy⟩ := hc.node i m hi hm
    obtain ⟨n', hn', hnn⟩ := exists_of_described hh.symm hn
    exact ⟨n', hn', hcopy.of_described hmm hnn.symm⟩
  unknown := by
    intro i hi hnone
    obtain ⟨hsame, hmissing⟩ := hc.unknown i hi (getElem?_eq_none_of_described hg.symm hnone)
    exact ⟨hsame, getElem?_eq_none_of_described hh hmissing⟩

theorem copied_id {g h : Pipeline} (hgh : h.described = g.described) :
    Copied (fun _ => True) id g h where
  inj := fun i j _ _ heq => heq
  parent := fun _ _ _ _ => trivial
  node := by
    intro i m _ hm
    obtain ⟨n, hn, hmn⟩ := exists_of_described hgh.symm hm
    exact ⟨n, hn, isCopy_id hmn.symm⟩
  unknown := fun i _ hnone => ⟨rfl, getElem?_eq_none_of_described hgh hnone⟩

/-- Everything upstream of `terminals` in `g` has a copy in `h`, where `φ` says, and
different nodes have different copies. -/
structure Embeds (g h : Pipeline) (terminals : List NodeId) (φ : NodeId → NodeId) : Prop where
  inj : ∀ i j, g.UpstreamOfAny terminals i → g.UpstreamOfAny terminals j → φ i = φ j → i = j
  node : ∀ i m, g.UpstreamOfAny terminals i → g.nodes[i]? = some m →
    ∃ n, h.nodes[φ i]? = some n ∧ m.IsCopy φ n

theorem Embeds.copied {g h : Pipeline} {terminals : List NodeId} {φ : NodeId → NodeId}
    (hφ : g.Embeds h terminals φ) (hg : g.WellFormed)
    (hterminals : ∀ t ∈ terminals, g.has t = true) :
    Copied (g.UpstreamOfAny terminals) φ g h where
  inj := hφ.inj
  parent := fun i p hi hp => hi.parent hp
  node := hφ.node
  unknown := by
    rintro i ⟨t, ht, hi⟩ hnone
    obtain ⟨m, hm⟩ := exists_node_of_upstream hg (hterminals t ht) hi
    rw [hnone] at hm
    cases hm

end Pipeline

namespace BuildSession

variable {σ α β : Type}

/-! ### Sessions that agree -/

/-- The sessions `s` and `t` agree, but for the positions of nodes and for nodes without
`D`. -/
structure Matches (D : NodeId → Prop) (φ : NodeId → NodeId) (s t : BuildSession σ) : Prop where
  copied : s.pipeline.Copied D φ t.pipeline
  left_wellFormed : s.pipeline.WellFormed
  right_wellFormed : t.pipeline.WellFormed
  sink_eq : t.sink = s.sink
  config_eq : t.config = s.config
  names_eq : t.names = s.names
  stageName_eq : ∀ i, D i → t.stageName? (φ i) = s.stageName? i

theorem matches_fresh {D : NodeId → Prop} {φ : NodeId → NodeId} {g h : Pipeline}
    (hc : g.Copied D φ h) (hg : g.WellFormed) (hh : h.WellFormed) (sink : σ) (config : Config) :
    Matches D φ (fresh g sink config) (fresh h sink config) :=
  ⟨hc, hg, hh, rfl, rfl, rfl, fun i _ => by simp [fresh, stageName?]⟩

/-- Outcomes with the same answer and sessions that agree. -/
def Agree (D : NodeId → Prop) (φ : NodeId → NodeId) (out out' : Except PlanError α × BuildSession σ) :
    Prop :=
  out'.1 = out.1 ∧ Matches D φ out.2 out'.2

theorem Agree.andThen {D : NodeId → Prop} {φ : NodeId → NodeId}
    {out out' : Except PlanError α × BuildSession σ} (h : Agree D φ out out')
    {next next' : α → BuildSession σ → Except PlanError β × BuildSession σ}
    (hnext : ∀ a s t, out = (.ok a, s) → Matches D φ s t → Agree D φ (next a s) (next' a t)) :
    Agree D φ (BuildSession.andThen out next) (BuildSession.andThen out' next') := by
  obtain ⟨r, s⟩ := out
  obtain ⟨r', t⟩ := out'
  obtain ⟨hr, hst⟩ := h
  cases hr
  cases r with
  | error e => exact ⟨rfl, hst⟩
  | ok a => exact hnext a s t rfl hst

section

variable {D : NodeId → Prop} {φ : NodeId → NodeId} {s t : BuildSession σ}

theorem Matches.resolveName_eq (h : Matches D φ s t) {m n : Node} (hmn : m.IsCopy φ n) :
    t.resolveName n = s.resolveName m := by
  unfold resolveName
  rw [hmn.userName_eq, hmn.family_eq, h.names_eq]

theorem Matches.allows_eq (h : Matches D φ s t) (partitions : UInt64) :
    t.allows partitions = s.allows partitions := by
  unfold allows
  rw [h.config_eq]

theorem Matches.wiring_eq (h : Matches D φ s t) {i : NodeId} {m n : Node} (hi : D i)
    (hm : s.pipeline.nodes[i]? = some m) (hmn : m.IsCopy φ n) {unit : StageUnit}
    {inputs : List InputEdge} (hwiring : s.wiring i m = .ok (unit, inputs)) :
    t.wiring (φ i) n = .ok (unit, inputs) := by
  refine wiring_of_realizes ?_
  rw [h.config_eq, hmn.kind_eq]
  refine (realizes_of_wiring hwiring).rename fun p hp => ?_
  exact h.stageName_eq p (h.copied.parent i p hi ⟨m, hm, hp⟩)

theorem Matches.searched (h : Matches D φ s t) {names : StageNames} :
    Matches D φ { s with names := names } { t with names := names } :=
  ⟨h.copied, h.left_wellFormed, h.right_wellFormed, h.sink_eq, h.config_eq, rfl, h.stageName_eq⟩

variable [PlanSink σ]

/-- Recording a node and its copy under one name keeps sessions in agreement. -/
theorem Matches.recorded (h : Matches D φ s t) {i : NodeId} {m n : Node} (hi : D i)
    (hmn : m.IsCopy φ n) (unit : StageUnit) (inputs : List InputEdge) :
    Matches D φ (s.recorded i m unit inputs) (t.recorded (φ i) n unit inputs) := by
  have hname := h.resolveName_eq hmn
  have hleft : (s.recorded i m unit inputs).pipeline.described = s.pipeline.described :=
    Pipeline.described_assignName ..
  have hright : (t.recorded (φ i) n unit inputs).pipeline.described = t.pipeline.described :=
    Pipeline.described_assignName ..
  refine ⟨h.copied.of_described hleft hright, h.left_wellFormed.of_described hleft,
    h.right_wellFormed.of_described hright, ?_, h.config_eq, ?_, ?_⟩
  · simp only [BuildSession.recorded, h.sink_eq, hname, hmn.partitions_eq]
  · simp only [BuildSession.recorded, hname]
  · intro j hj
    rw [stageName?, stageName?, getElem?_built_recorded, getElem?_built_recorded, hname]
    by_cases hij : i = j
    · rw [if_pos hij, if_pos (congrArg φ hij)]
    · -- different nodes have different copies
      rw [if_neg hij, if_neg fun heq => hij (h.copied.inj i j hi hj heq)]
      exact h.stageName_eq j hj

/-- **Lowering a node whose parents are stages, and its copy, has one outcome.** -/
theorem Matches.lower (h : Matches D φ s t) {i : NodeId} {m : Node} (hi : D i)
    (hm : s.pipeline.nodes[i]? = some m) (hparents : ∀ p ∈ m.parents, s.built.contains p = true) :
    Agree D φ (s.lower i) (t.lower (φ i)) := by
  obtain ⟨n, hn, hmn⟩ := h.copied.node i m hi hm
  obtain ⟨unit, inputs, hrealizes⟩ : ∃ unit inputs,
      Realizes s.stageName? s.config.routingSeed m.kind unit inputs :=
    exists_realizes (fun p hp => contains_built_iff.mp (hparents p hp)) _
  have hwiring : s.wiring i m = .ok (unit, inputs) := wiring_of_realizes hrealizes
  have hwiring' : t.wiring (φ i) n = .ok (unit, inputs) := h.wiring_eq hi hm hmn hwiring
  have hname := h.resolveName_eq hmn
  have hallows : t.allows n.partitions = s.allows m.partitions := by
    rw [h.allows_eq, hmn.partitions_eq]
  have hcontains : t.names.contains (t.resolveName n).1 = s.names.contains (s.resolveName m).1 := by
    rw [hname, h.names_eq]
  cases htaken : s.names.contains (s.resolveName m).1 with
  | true =>
    rw [Lowered.lower_eq (.taken hm hwiring htaken),
      Lowered.lower_eq (.taken hn hwiring' (hcontains.trans htaken)), hname]
    exact ⟨rfl, h.searched⟩
  | false =>
    cases hallowed : s.allows m.partitions with
    | false =>
      rw [Lowered.lower_eq (.disallowed hm hwiring htaken hallowed),
        Lowered.lower_eq (.disallowed hn hwiring' (hcontains.trans htaken) (hallows.trans hallowed)),
        hname, hmn.partitions_eq]
      exact ⟨rfl, h.searched⟩
    | true =>
      rw [Lowered.lower_eq (.recorded hm hwiring htaken hallowed),
        Lowered.lower_eq (.recorded hn hwiring' (hcontains.trans htaken) (hallows.trans hallowed)),
        hname, hmn.partitions_eq, h.sink_eq]
      exact ⟨rfl, h.recorded hi hmn unit inputs⟩

theorem Matches.buildAll {ps : List NodeId}
    (hbuild : ∀ p ∈ ps, ∀ s t : BuildSession σ, Matches D φ s t → Agree D φ (s.build p) (t.build (φ p)))
    (h : Matches D φ s t) : Agree D φ (s.buildAll ps) (t.buildAll (ps.map φ)) := by
  induction ps generalizing s t with
  | nil => exact ⟨rfl, h⟩
  | cons p ps ih =>
    rw [List.map_cons, buildAll_cons, buildAll_cons]
    refine (hbuild p List.mem_cons_self s t h).andThen fun _ s' t' _ h' => ?_
    exact ih (fun q hq => hbuild q (List.mem_cons_of_mem p hq)) h'

end

variable [PlanSink σ] {D : NodeId → Prop} {φ : NodeId → NodeId}

/-- **Building a node and its copy has one outcome.**  The induction is on the position of
the node: its parents have smaller ones. -/
theorem Matches.build (i : Nat) : ∀ s t : BuildSession σ, Matches D φ s t → D i →
    Agree D φ (s.build i) (t.build (φ i)) := by
  induction i using Nat.strong_induction_on with
  | _ i ih =>
    intro s t h hi
    cases hm : s.pipeline.nodes[i]? with
    | none =>
      obtain ⟨hsame, hmissing⟩ := h.copied.unknown i hi hm
      rw [hsame, build_of_unknown hm, build_of_unknown hmissing]
      exact ⟨rfl, h⟩
    | some m =>
      obtain ⟨n, hn, hmn⟩ := h.copied.node i m hi hm
      have hstage := h.stageName_eq i hi
      cases hname : s.stageName? i with
      | some name =>
        rw [build_of_built h.left_wellFormed hm hname,
          build_of_built h.right_wellFormed hn (hstage.trans hname)]
        exact ⟨rfl, h⟩
      | none =>
        rw [build_eq_andThen h.left_wellFormed hm hname,
          build_eq_andThen h.right_wellFormed hn (hstage.trans hname), hmn.parents_eq]
        have hparents : Agree D φ (s.buildAll m.parents) (t.buildAll (m.parents.map φ)) := by
          refine Matches.buildAll (fun p hp s' t' h' => ?_) h
          exact ih p ((h.left_wellFormed.node i m hm).parents_lt p hp) s' t' h'
            (h.copied.parent i p hi ⟨m, hm, hp⟩)
        refine hparents.andThen fun _ s' t' hbuilt h' => ?_
        -- the node is lowered as it is after its parents have been built
        obtain ⟨m', hready⟩ := ready_of_buildAll h.left_wellFormed hm hname hbuilt
        exact h'.lower hi hready.node hready.parents

end BuildSession

/-! ### Whole builds -/

/-- Runs over copies agree. -/
theorem Pipeline.agree_run {σ : Type} [PlanSink σ] {D : NodeId → Prop} {φ : NodeId → NodeId}
    {g h : Pipeline} (hc : g.Copied D φ h) (hg : g.WellFormed) (hh : h.WellFormed)
    {terminals : List NodeId} (hterminals : ∀ t ∈ terminals, D t) (sink : σ) (config : Config) :
    BuildSession.Agree D φ (g.run terminals sink config) (h.run (terminals.map φ) sink config) := by
  have hfresh := BuildSession.matches_fresh hc hg hh sink config
  unfold run
  cases config.validate with
  | error e => exact ⟨rfl, hfresh⟩
  | ok u =>
    exact BuildSession.Matches.buildAll
      (fun p hp s t hst => hst.build p s t (hterminals p hp)) hfresh

theorem Pipeline.buildPlan_eq_of_agree {σ : Type} [PlanSink σ] {D : NodeId → Prop}
    {φ : NodeId → NodeId} {g h : Pipeline} {terminals : List NodeId} {sink : σ} {config : Config}
    (hrun : BuildSession.Agree D φ (g.run terminals sink config)
      (h.run (terminals.map φ) sink config)) :
    (h.buildPlan (terminals.map φ) sink config).1 = (g.buildPlan terminals sink config).1 := by
  rw [buildPlan_eq_run, buildPlan_eq_run]
  dsimp only
  rw [hrun.1, hrun.2.sink_eq]

/-- What earlier builds wrote into the pipeline does not matter to the next. -/
theorem Pipeline.buildTopology_eq_of_described {g h : Pipeline} (hg : g.WellFormed)
    (hgh : h.described = g.described) (terminals : List NodeId) (config : Config) :
    (h.buildTopology terminals config).1 = (g.buildTopology terminals config).1 := by
  have hterminals : ∀ t ∈ terminals, True := fun _ _ => trivial
  have hrun := agree_run (copied_id hgh) hg (hg.of_described hgh) hterminals Topology.empty config
  have hplan := buildPlan_eq_of_agree hrun
  rw [List.map_id] at hplan
  rw [buildTopology_fst, buildTopology_fst, hplan]

/-- **A build of copies is the same build.**  If everything upstream of the end nodes has
a copy, building the copies makes the same calls, gets the same answers and ends in the
same way, and each copy has the stage name of its original.  In particular a pipeline
that has gone through builds, failed ones included, compiles to the topology it would
have compiled to before. -/
theorem buildPlan_eq_of_embeds {g h : Pipeline} (hg : g.Reachable) (hh : h.Reachable)
    {terminals : List NodeId} (hterminals : ∀ t ∈ terminals, g.has t = true)
    {φ : NodeId → NodeId} (hφ : g.Embeds h terminals φ) {σ : Type} [PlanSink σ] (sink : σ)
    (config : Config) :
    (h.buildPlan (terminals.map φ) sink config).1 = (g.buildPlan terminals sink config).1 ∧
      h.dialogue (terminals.map φ) sink config = g.dialogue terminals sink config ∧
      (∀ i, g.UpstreamOfAny terminals i →
        (h.run (terminals.map φ) sink config).2.stageName? (φ i) =
          (g.run terminals sink config).2.stageName? i) ∧
      ∀ s₀ s, BuildSession.start g sink config = .ok s₀ → s₀.After s →
        ∀ terminals' config', (s.pipeline.buildTopology terminals' config').1 =
          (g.buildTopology terminals' config').1 := by
  have hcopied := hφ.copied hg.wellFormed hterminals
  have hupstream : ∀ t ∈ terminals, g.UpstreamOfAny terminals t := fun t ht => ⟨t, ht, .refl⟩
  have hrun := Pipeline.agree_run hcopied hg.wellFormed hh.wellFormed hupstream sink config
  have hlogged := Pipeline.agree_run hcopied hg.wellFormed hh.wellFormed hupstream
    (Logged.new sink) config
  refine ⟨Pipeline.buildPlan_eq_of_agree hrun, ?_, hrun.2.stageName_eq, ?_⟩
  · rw [Pipeline.dialogue, Pipeline.dialogue, hlogged.2.sink_eq]
  · intro s₀ s hstart hs terminals' config'
    obtain ⟨-, rfl⟩ := BuildSession.start_eq_ok_iff.mp hstart
    exact Pipeline.buildTopology_eq_of_described hg.wellFormed hs.described terminals' config'

/-- The nodes of `Pipeline.diamond` after a source that has nothing to do with them. -/
def Pipeline.lateDiamond : Pipeline where
  nodes := #[⟨0, none, none, 1, .source fun _ => some (.bool true)⟩,
    ⟨1, none, none, 1, .source fun _ => none⟩,
    ⟨2, some "left", none, 1, .transform 1 (.map Scalar.value)⟩,
    ⟨3, none, none, 1, .join 2 1 (.inner (.tumblingCount 1) .pair)⟩]
  sourcePartitions := 1

theorem Pipeline.reachable_lateDiamond : lateDiamond.Reachable := by
  have hother : Reachable _ := .edit (.source fun _ => some (.bool true)) .empty rfl
  have hsource : Reachable _ := .edit (.source fun _ => none) hother rfl
  have hmap : Reachable _ := .edit (.map 1 Scalar.value) hsource rfl
  have hname : Reachable _ := .edit (.setName 2 "left") hmap rfl
  exact .edit (.join 2 1 (.inner (.tumblingCount 1) .pair)) hname rfl

theorem Pipeline.embeds_lateDiamond (terminals : List NodeId) :
    diamond.Embeds lateDiamond terminals (· + 1) where
  inj := fun i j _ _ heq => Nat.succ.inj heq
  node := by
    intro i m _ hm
    rcases i with _ | _ | _ | i
    · cases hm
      exact ⟨_, rfl, rfl, rfl, rfl⟩
    · cases hm
      exact ⟨_, rfl, rfl, rfl, rfl⟩
    · cases hm
      exact ⟨_, rfl, rfl, rfl, rfl⟩
    · cases hm

/-- The join of `Pipeline.diamond` and its copy, one position later. -/
theorem buildPlan_eq_of_embeds_diamond :
    Pipeline.diamond.Reachable ∧ Pipeline.lateDiamond.Reachable ∧
      (∀ t ∈ [2], Pipeline.diamond.has t = true) ∧
      Pipeline.diamond.Embeds .lateDiamond [2] (· + 1) ∧
      (Pipeline.lateDiamond.buildPlan [3] Topology.empty default).1 =
        (Pipeline.diamond.buildPlan [2] Topology.empty default).1 :=
  have hhas : ∀ t ∈ [2], Pipeline.diamond.has t = true := by decide
  ⟨Pipeline.reachable_diamond, Pipeline.reachable_lateDiamond, hhas,
    Pipeline.embeds_lateDiamond [2],
    (buildPlan_eq_of_embeds Pipeline.reachable_diamond Pipeline.reachable_lateDiamond hhas
      (Pipeline.embeds_lateDiamond [2]) Topology.empty default).1⟩

end StreamPlan
