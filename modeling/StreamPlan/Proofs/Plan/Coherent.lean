import StreamPlan.Proofs.Plan.FreeNames
import StreamPlan.Proofs.Plan.Lowering

/-!
# Coherent sessions

A session keeps what it knows of its stages in three places: the names taken, the
stage of each node, and the names written back into the pipeline.  A session over
a pipeline `g` is coherent when the three agree with each other and with `g`.
Every lowering keeps this, whatever the sink answers, because a node is recorded in
all three places before the sink is told.

## Main definitions

* `Node.MayBeCalled` — the names a build may give to the stage of a node.
* `Realizes` — what a stage runs and reads, for a kind of node and given names of
  the stages of its parents.
* `BuildSession.Coherent` — the invariant.

## Main results

* `BuildSession.Coherent.lower` — **lowering keeps a session coherent**, whether it
  succeeds or not.
-/

namespace StreamPlan

/-! ### Names -/

/-- The user's name, if there is one, and otherwise a numbered name of the family. -/
def Node.MayBeCalled (n : Node) (name : String) : Prop :=
  match n.userName with
  | some given => name = given
  | none => ∃ k, 1 ≤ k ∧ name = StageNames.numbered n.family.label k

theorem Node.MayBeCalled.of_described {m n : Node} {name : String} (h : n.MayBeCalled name)
    (hmn : m.described = n.described) : m.MayBeCalled name := by
  unfold Node.MayBeCalled
  rw [Node.userName_eq_of_described hmn, Node.family_eq_of_described hmn]
  exact h

/-! ### Wiring -/

/-- What a stage runs and reads: `stageName` gives the stages of the parents, and
`seed` is the seed of key groupings. -/
inductive Realizes (stageName : NodeId → Option String) (seed : UInt64) :
    NodeKind → StageUnit → List InputEdge → Prop
  | source (next : SourceFn) : Realizes stageName seed (.source next) (.source next) []
  | transform {parent : NodeId} {producer : String} (hparent : stageName parent = some producer)
    (op : Transform) :
    Realizes stageName seed (.transform parent op) (.transform op) [⟨producer, .shuffle⟩]
  | join {left right : NodeId} {leftStage rightStage : String}
    (hleft : stageName left = some leftStage) (hright : stageName right = some rightStage)
    (spec : JoinSpec) :
    Realizes stageName seed (.join left right spec)
      (.join ⟨leftStage, rightStage, spec.window, spec.joinType, spec.combine⟩)
      [⟨leftStage, .key ⟨spec.leftKey, seed⟩⟩, ⟨rightStage, .key ⟨spec.rightKey, seed⟩⟩]

/-- More stages do not change what a stage runs and reads. -/
theorem Realizes.mono {stageName stageName' : NodeId → Option String} {seed : UInt64}
    {kind : NodeKind} {unit : StageUnit} {inputs : List InputEdge}
    (h : Realizes stageName seed kind unit inputs)
    (hsub : ∀ i name, stageName i = some name → stageName' i = some name) :
    Realizes stageName' seed kind unit inputs := by
  cases h with
  | source next => exact .source next
  | transform hparent op => exact .transform (hsub _ _ hparent) op
  | join hleft hright spec => exact .join (hsub _ _ hleft) (hsub _ _ hright) spec

/-- The edges come from the stages of the parents, one for each. -/
theorem Realizes.map_producer {stageName : NodeId → Option String} {seed : UInt64} {n : Node}
    {unit : StageUnit} {inputs : List InputEdge}
    (h : Realizes stageName seed n.kind unit inputs) :
    n.parents.map stageName = inputs.map fun e => some e.producer := by
  unfold Node.parents
  cases hkind : n.kind with
  | source next =>
    rw [hkind] at h
    cases h
    rfl
  | transform parent op =>
    rw [hkind] at h
    cases h with
    | transform hparent => simp [hparent]
  | join left right spec =>
    rw [hkind] at h
    cases h with
    | join hleft hright => simp [hleft, hright]

/-- Every edge comes from the stage of a parent. -/
theorem Realizes.exists_parent {stageName : NodeId → Option String} {seed : UInt64} {n : Node}
    {unit : StageUnit} {inputs : List InputEdge}
    (h : Realizes stageName seed n.kind unit inputs) {e : InputEdge} (he : e ∈ inputs) :
    ∃ p ∈ n.parents, stageName p = some e.producer := by
  have hmem : some e.producer ∈ n.parents.map stageName := by
    rw [h.map_producer]
    exact List.mem_map_of_mem he
  exact List.mem_map.mp hmem

/-- If the parents of a node have stages, there is something its stage should run and
read. -/
theorem exists_realizes {stageName : NodeId → Option String} {n : Node}
    (hparents : ∀ p ∈ n.parents, ∃ name, stageName p = some name) (seed : UInt64) :
    ∃ unit inputs, Realizes stageName seed n.kind unit inputs := by
  unfold Node.parents at hparents
  cases hkind : n.kind with
  | source next => exact ⟨_, _, .source next⟩
  | transform parent op =>
    rw [hkind] at hparents
    obtain ⟨producer, hparent⟩ := hparents parent (by simp)
    exact ⟨_, _, .transform hparent op⟩
  | join left right spec =>
    rw [hkind] at hparents
    obtain ⟨leftStage, hleft⟩ := hparents left (by simp)
    obtain ⟨rightStage, hright⟩ := hparents right (by simp)
    exact ⟨_, _, .join hleft hright spec⟩

namespace BuildSession

variable {σ : Type}

/-- A node that can be wired has the unit and the edges it should have. -/
theorem realizes_of_wiring {s : BuildSession σ} {id : NodeId} {n : Node} {unit : StageUnit}
    {inputs : List InputEdge} (h : s.wiring id n = .ok (unit, inputs)) :
    Realizes s.stageName? s.config.routingSeed n.kind unit inputs := by
  unfold wiring at h
  cases hkind : n.kind with
  | source next =>
    rw [hkind] at h
    cases h
    exact .source next
  | transform parent op =>
    rw [hkind] at h
    obtain ⟨producer, hparent, h⟩ := Except.bind_eq_ok_iff.mp h
    cases h
    exact .transform (stageOf_eq_ok_iff.mp hparent) op
  | join left right spec =>
    rw [hkind] at h
    obtain ⟨leftStage, hleft, h⟩ := Except.bind_eq_ok_iff.mp h
    obtain ⟨rightStage, hright, h⟩ := Except.bind_eq_ok_iff.mp h
    cases h
    exact .join (stageOf_eq_ok_iff.mp hleft) (stageOf_eq_ok_iff.mp hright) spec

/-- What a stage should run and read is what wiring finds. -/
theorem wiring_of_realizes {s : BuildSession σ} {id : NodeId} {n : Node} {unit : StageUnit}
    {inputs : List InputEdge}
    (h : Realizes s.stageName? s.config.routingSeed n.kind unit inputs) :
    s.wiring id n = .ok (unit, inputs) := by
  unfold wiring
  cases hkind : n.kind with
  | source next =>
    rw [hkind] at h
    cases h
    rfl
  | transform parent op =>
    rw [hkind] at h
    cases h with
    | transform hparent =>
      dsimp only
      rw [stageOf_eq_ok_iff.mpr hparent]
      rfl
  | join left right spec =>
    rw [hkind] at h
    cases h with
    | join hleft hright =>
      dsimp only
      rw [stageOf_eq_ok_iff.mpr hleft, stageOf_eq_ok_iff.mpr hright]
      rfl

theorem resolveName_mayBeCalled {s : BuildSession σ} (hfloor : ∀ stem, 1 ≤ s.names.floor stem)
    (n : Node) : n.MayBeCalled (s.resolveName n).1 := by
  unfold resolveName Node.MayBeCalled
  cases n.userName with
  | some given => rfl
  | none =>
    refine ⟨_, Nat.le_trans (hfloor n.family.label) ?_, rfl⟩
    exact StageNames.le_firstFree ..

theorem one_le_floor_resolveName {s : BuildSession σ} (hfloor : ∀ stem, 1 ≤ s.names.floor stem)
    (n : Node) (stem : String) : 1 ≤ (s.resolveName n).2.floor stem := by
  unfold resolveName
  split
  · exact hfloor stem
  · exact StageNames.one_le_floor_allocate hfloor _ stem

/-- The parents of a node that can be wired are stages. -/
theorem contains_built_of_wiring {s : BuildSession σ} {id : NodeId} {n : Node}
    {unit : StageUnit} {inputs : List InputEdge} (h : s.wiring id n = .ok (unit, inputs))
    {p : NodeId} (hp : p ∈ n.parents) : s.built.contains p = true := by
  have hmem : s.stageName? p ∈ inputs.map fun e => some e.producer := by
    rw [← (realizes_of_wiring h).map_producer]
    exact List.mem_map_of_mem hp
  obtain ⟨e, -, he⟩ := List.mem_map.mp hmem
  exact contains_built_iff.mpr ⟨e.producer, he.symm⟩

/-! ### The invariant -/

/-- What a session over the pipeline `g` knows of its stages. -/
structure Coherent (g : Pipeline) (s : BuildSession σ) : Prop where
  described_eq : s.pipeline.described = g.described
  taken_iff : ∀ name, s.names.contains name = true ↔ ∃ i : NodeId, s.built[i]? = some name
  built_inj : ∀ (i j : NodeId) (name : String),
    s.built[i]? = some name → s.built[j]? = some name → i = j
  /-- A stage is that of a node of the pipeline whose parents are stages. -/
  entry : ∀ (i : NodeId) (name : String), s.built[i]? = some name →
    ∃ n, g.nodes[i]? = some n ∧ n.MayBeCalled name ∧ ∀ p ∈ n.parents, s.built.contains p = true
  reported : ∀ (i : NodeId) (name : String),
    s.built[i]? = some name → s.pipeline.nameOf? i = some name
  one_le_floor : ∀ stem, 1 ≤ s.names.floor stem

theorem coherent_fresh (g : Pipeline) (sink : σ) (config : Config) :
    (fresh g sink config).Coherent g where
  described_eq := rfl
  taken_iff := by simp [fresh]
  built_inj := by simp [fresh]
  entry := by simp [fresh]
  reported := by simp [fresh]
  one_le_floor := by simp [fresh, StageNames.empty, StageNames.floor]

/-- Everything upstream of a stage is a stage. -/
theorem Coherent.contains_built_of_upstream {g : Pipeline} {s : BuildSession σ}
    (h : s.Coherent g) {i j : NodeId} (hij : g.Upstream i j) (hi : s.built.contains i = true) :
    s.built.contains j = true := by
  induction hij with
  | refl => exact hi
  | tail _ hparent ih =>
    obtain ⟨name, hname⟩ := contains_built_iff.mp ih
    obtain ⟨n, hn, -, hparents⟩ := h.entry _ name hname
    obtain ⟨m, hm, hp⟩ := hparent
    rw [hn] at hm
    cases hm
    exact hparents _ hp

/-- The stages of different nodes have different names. -/
theorem Coherent.stageNames_nodup {g : Pipeline} {s : BuildSession σ} (h : s.Coherent g)
    {nodes : List NodeId} (hnodes : Enumerates nodes s) : (nodes.map s.stageName?).Nodup := by
  refine hnodes.nodup.map_on fun i hi j hj hij => ?_
  obtain ⟨name, hname⟩ := contains_built_iff.mp ((hnodes.mem_iff i).mp hi)
  exact h.built_inj i j name hname (hij.symm.trans hname)

/-- Searching for a name keeps a session coherent. -/
theorem Coherent.resolveName {g : Pipeline} {s : BuildSession σ} (h : s.Coherent g) (n : Node) :
    Coherent g { s with names := (s.resolveName n).2 } where
  described_eq := h.described_eq
  taken_iff := by
    intro name
    rw [← h.taken_iff, contains_resolveName]
  built_inj := h.built_inj
  entry := h.entry
  reported := h.reported
  one_le_floor := one_le_floor_resolveName h.one_le_floor n

theorem nameOf?_assignName_self {g : Pipeline} {id : NodeId} {n : Node} {name : String}
    (hnode : g.nodes[id]? = some n) (hname : n.MayBeCalled name) :
    (g.assignName id name).nameOf? id = some name := by
  rw [Pipeline.nameOf?, Pipeline.assignName, Pipeline.getElem?_nodes_update, if_pos rfl, hnode]
  unfold Node.MayBeCalled at hname
  cases huser : n.userName with
  | none => simp [huser, Node.name]
  | some given =>
    rw [huser] at hname
    simp [huser, Node.name, hname]

theorem nameOf?_assignName_of_ne {g : Pipeline} {id i : NodeId} (name : String) (hne : id ≠ i) :
    (g.assignName id name).nameOf? i = g.nameOf? i := by
  rw [Pipeline.nameOf?, Pipeline.assignName, Pipeline.getElem?_nodes_update, if_neg hne,
    Pipeline.nameOf?]

variable [PlanSink σ]

/-- Recording a node keeps a session coherent. -/
theorem Coherent.recorded {g : Pipeline} {s : BuildSession σ} (h : s.Coherent g) {id : NodeId}
    {n : Node} {unit : StageUnit} {inputs : List InputEdge}
    (hnode : s.pipeline.nodes[id]? = some n) (hwiring : s.wiring id n = .ok (unit, inputs))
    (hfree : s.names.contains (s.resolveName n).1 = false) (hnew : s.built.contains id = false) :
    (s.recorded id n unit inputs).Coherent g := by
  have hself : (s.recorded id n unit inputs).built[id]? = some (s.resolveName n).1 := by
    rw [getElem?_built_recorded, if_pos rfl]
  -- the name is free, so it is not that of a stage
  have hother : ∀ (i : NodeId) (name : String), s.built[i]? = some name →
      (s.resolveName n).1 ≠ name := by
    rintro i name hi rfl
    rw [(h.taken_iff _).mpr ⟨i, hi⟩] at hfree
    cases hfree
  constructor
  case described_eq =>
    rw [← h.described_eq]
    exact Pipeline.described_assignName ..
  case taken_iff =>
    intro name
    have hcontains : (s.recorded id n unit inputs).names.contains name = true ↔
        (s.resolveName n).1 = name ∨ s.names.contains name = true := by
      simp only [BuildSession.recorded, StageNames.contains_insert, contains_resolveName,
        Bool.or_eq_true, beq_iff_eq]
    rw [hcontains, h.taken_iff]
    constructor
    · rintro (rfl | ⟨i, hi⟩)
      · exact ⟨id, hself⟩
      · exact ⟨i, built_recorded_of_built hnew hi⟩
    · rintro ⟨i, hi⟩
      rcases built_recorded_cases hi with ⟨-, heq⟩ | ⟨-, hi⟩
      · exact Or.inl heq
      · exact Or.inr ⟨i, hi⟩
  case built_inj =>
    intro i j name hi hj
    rcases built_recorded_cases hi with ⟨rfl, hname⟩ | ⟨-, hi⟩
    · rcases built_recorded_cases hj with ⟨rfl, -⟩ | ⟨-, hj⟩
      · rfl
      · exact absurd hname (hother j name hj)
    · rcases built_recorded_cases hj with ⟨-, hname⟩ | ⟨-, hj⟩
      · exact absurd hname (hother i name hi)
      · exact h.built_inj i j name hi hj
  case entry =>
    intro i name hi
    have hparents : ∀ p, s.built.contains p = true →
        (s.recorded id n unit inputs).built.contains p = true := by
      intro p hp
      obtain ⟨stage, hstage⟩ := contains_built_iff.mp hp
      exact contains_built_iff.mpr ⟨stage, built_recorded_of_built hnew hstage⟩
    rcases built_recorded_cases hi with ⟨rfl, rfl⟩ | ⟨-, hi⟩
    · obtain ⟨m, hm, hnm⟩ := Pipeline.exists_of_described h.described_eq hnode
      refine ⟨m, hm, (resolveName_mayBeCalled h.one_le_floor n).of_described hnm.symm, ?_⟩
      intro p hp
      rw [← Node.parents_eq_of_described hnm] at hp
      exact hparents p (contains_built_of_wiring hwiring hp)
    · obtain ⟨m, hm, hname, hp⟩ := h.entry i name hi
      exact ⟨m, hm, hname, fun p hp' => hparents p (hp p hp')⟩
  case reported =>
    intro i name hi
    rcases built_recorded_cases hi with ⟨rfl, rfl⟩ | ⟨hne, hi⟩
    · exact nameOf?_assignName_self hnode (resolveName_mayBeCalled h.one_le_floor n)
    · rw [← h.reported i name hi]
      exact nameOf?_assignName_of_ne _ hne
  case one_le_floor => exact one_le_floor_resolveName h.one_le_floor n

/-- **Lowering keeps a session coherent**, whether it succeeds or not. -/
theorem Coherent.lower {g : Pipeline} {s : BuildSession σ} (h : s.Coherent g) {id : NodeId}
    (hnew : s.built.contains id = false) : (s.lower id).2.Coherent g :=
  lower_preserves h h.resolveName fun _ _ _ hnode hwiring hfree _ =>
    h.recorded hnode hwiring hfree hnew

/-- Builds keep a session coherent, whether they succeed or not. -/
theorem Coherent.buildAll {g : Pipeline} {s : BuildSession σ} (h : s.Coherent g)
    (terminals : List NodeId) : (s.buildAll terminals).2.Coherent g :=
  buildAll_invariant (P := fun s' => s'.Coherent g) (fun _ _ hs hnew => hs.lower hnew) h terminals

/-- Builds that succeed give stages to exactly what is upstream of their end nodes. -/
theorem contains_built_iff_upstream {g : Pipeline} {sink : σ} {config : Config}
    {terminals : List NodeId} {s : BuildSession σ}
    (h : (fresh g sink config).buildAll terminals = (.ok (), s)) {i : NodeId} :
    s.built.contains i = true ↔ g.UpstreamOfAny terminals i := by
  have hsession : ((fresh g sink config).buildAll terminals).2 = s := by rw [h]
  have hs : s.Coherent g := by
    rw [← hsession]
    exact (coherent_fresh g sink config).buildAll terminals
  constructor
  · -- the walk comes to no other nodes
    intro hi
    rw [← hsession] at hi
    exact upstreamOfAny_of_buildAll rfl (by simp [fresh]) hi
  · -- the end nodes have stages, and so has everything upstream of a stage
    rintro ⟨t, ht, hi⟩
    apply hs.contains_built_of_upstream hi
    rw [← hsession]
    exact contains_built_of_buildAll (by rw [h]) ht

end BuildSession

end StreamPlan
