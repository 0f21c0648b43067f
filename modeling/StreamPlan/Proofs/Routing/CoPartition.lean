import StreamPlan.Proofs.Plan.Faithful

/-!
# Records that belong together meet

A join finds the partner of a record only if both arrive at one of its instances.
All key edges of a compiled topology hash with the seed of the settings, and keys
that compare equal are hashed alike, so the edges agree on where a key belongs.

## Main definitions

* `Topology.HasEdge` — an edge of a topology.
* `Grouping.keyOf?` — the key an edge finds in a record.

## Main results

* `buildTopology_coPartitions` — **equal keys go to one instance on all key
  edges**, and both inputs of a join are such edges.
-/

namespace StreamPlan

/-- An edge on which some stage of the topology reads. -/
def Topology.HasEdge (t : Topology) (e : InputEdge) : Prop := ∃ s ∈ t.stages, e ∈ s.inputs

/-- The key that is found in a record, if records are distributed by key. -/
def Grouping.keyOf? : Grouping → Scalar → Option Scalar
  | .shuffle, _ => none
  | .key router, record => some (router.keyOf record)

namespace Realizes

variable {stageName : NodeId → Option String} {seed : UInt64} {kind : NodeKind}
  {unit : StageUnit} {inputs : List InputEdge}

/-- Only joins read by key, and both their edges have the seed of the settings. -/
theorem seed_eq (h : Realizes stageName seed kind unit inputs) {e : InputEdge} (he : e ∈ inputs)
    {router : KeyRouter} (hrouter : e.grouping = .key router) : router.seed = seed := by
  cases h with
  | source next => cases he
  | transform hparent op =>
    rw [List.mem_singleton.mp he] at hrouter
    cases hrouter
  | join hleft hright spec =>
    rw [List.mem_cons, List.mem_singleton] at he
    rcases he with rfl | rfl
    · cases hrouter
      rfl
    · cases hrouter
      rfl

/-- A join reads its left and its right stage, both by key. -/
theorem inputs_of_join {j : JoinUnit} (h : Realizes stageName seed kind (.join j) inputs) :
    ∃ left right, inputs = [⟨j.left, .key left⟩, ⟨j.right, .key right⟩] := by
  cases h with
  | join hleft hright spec => exact ⟨⟨spec.leftKey, seed⟩, ⟨spec.rightKey, seed⟩, rfl⟩

end Realizes

/-- Every stage of a compiled topology runs and reads what some node asks for. -/
theorem exists_realizes_of_buildTopology {g g' : Pipeline} {terminals : List NodeId}
    {config : Config} {t : Topology} (h : g.buildTopology terminals config = (.ok t, g'))
    {s : Stage} (hs : s ∈ t.stages) :
    ∃ stageName kind, Realizes stageName config.routingSeed kind s.unit s.inputs := by
  obtain ⟨session, nodes, -, hsink, -, hconfig, -, hnodes⟩ :=
    Pipeline.exists_mirrors_of_buildTopology h
  rw [← hsink, ← Array.mem_toList_iff, List.mem_iff_get] at hs
  obtain ⟨k, rfl⟩ := hs
  have hlength := hnodes.stages.length_eq
  obtain ⟨-, n, -, hstage⟩ := hnodes.stages.get (by omega) k.isLt
  rw [← hconfig]
  exact ⟨session.stageName?, n.kind, hstage.realizes⟩

/-- Edges with one seed send equal keys to one instance, whatever the running numbers
of the records. -/
theorem Grouping.target_key_eq {left right : KeyRouter} (hseed : left.seed = right.seed)
    {a b : Scalar} (hkeys : (left.keyOf a == right.keyOf b) = true) (i j partitions : UInt64) :
    (Grouping.key left).target a i partitions = (Grouping.key right).target b j partitions := by
  show keyTarget (left.keyOf a) partitions left.seed =
    keyTarget (right.keyOf b) partitions right.seed
  rw [hseed]
  exact keyTarget_eq_of_equals hkeys partitions right.seed

theorem Grouping.target_key_lt (router : KeyRouter) (a : Scalar) (i partitions : UInt64) :
    ((Grouping.key router).target a i partitions).toNat < max partitions.toNat 1 := by
  rw [← toNat_instances]
  exact UInt64.lt_iff_toNat_lt.mp (keyTarget_lt (router.keyOf a) partitions router.seed)

theorem Grouping.exists_router {grouping : Grouping} {record key : Scalar}
    (h : grouping.keyOf? record = some key) :
    ∃ router, grouping = .key router ∧ router.keyOf record = key := by
  cases grouping with
  | shuffle => cases h
  | key router => exact ⟨router, rfl, Option.some.inj h⟩

/-- **Equal keys go to one instance on all key edges of a compiled topology**, and that
is one of the instances there are.  Both inputs of a join are key edges. -/
theorem buildTopology_coPartitions {g g' : Pipeline} {terminals : List NodeId} {config : Config}
    {t : Topology} (h : g.buildTopology terminals config = (.ok t, g')) :
    (∀ e₁ e₂ : InputEdge, t.HasEdge e₁ → t.HasEdge e₂ → ∀ r₁ r₂ k₁ k₂ : Scalar,
      e₁.grouping.keyOf? r₁ = some k₁ → e₂.grouping.keyOf? r₂ = some k₂ → (k₁ == k₂) = true →
      ∀ i₁ i₂ partitions : UInt64,
        e₁.grouping.target r₁ i₁ partitions = e₂.grouping.target r₂ i₂ partitions ∧
        (e₁.grouping.target r₁ i₁ partitions).toNat < max partitions.toNat 1) ∧
    ∀ s ∈ t.stages, ∀ j : JoinUnit, s.unit = .join j →
      ∃ left right, s.inputs = [⟨j.left, .key left⟩, ⟨j.right, .key right⟩] := by
  constructor
  · rintro e₁ e₂ ⟨s₁, hs₁, he₁⟩ ⟨s₂, hs₂, he₂⟩ r₁ r₂ k₁ k₂ hk₁ hk₂ hkeys i₁ i₂ partitions
    obtain ⟨router₁, hr₁, rfl⟩ := Grouping.exists_router hk₁
    obtain ⟨router₂, hr₂, rfl⟩ := Grouping.exists_router hk₂
    obtain ⟨_, _, hreal₁⟩ := exists_realizes_of_buildTopology h hs₁
    obtain ⟨_, _, hreal₂⟩ := exists_realizes_of_buildTopology h hs₂
    have hseed : router₁.seed = router₂.seed := by
      rw [hreal₁.seed_eq he₁ hr₁, hreal₂.seed_eq he₂ hr₂]
    rw [hr₁, hr₂]
    exact ⟨Grouping.target_key_eq hseed hkeys i₁ i₂ partitions,
      Grouping.target_key_lt router₁ r₁ i₁ partitions⟩
  · intro s hs j hj
    obtain ⟨_, _, hreal⟩ := exists_realizes_of_buildTopology h hs
    rw [hj] at hreal
    exact hreal.inputs_of_join

/-- The inputs of the join of `Pipeline.diamond` agree on a key with a zero inside, of
either sign. -/
theorem buildTopology_coPartitions_diamond :
    ∃ t g', Pipeline.diamond.buildTopology [2] default = (.ok t, g') ∧
      ∃ e₁ e₂ : InputEdge, t.HasEdge e₁ ∧ t.HasEdge e₂ ∧
        e₁.producer = "left" ∧ e₂.producer = "source1" ∧
        e₁.grouping.target (.pair (.pair (.f64 ⟨0⟩) (.i32 1)) .null) 0 4 =
          e₂.grouping.target (.pair (.pair (.f64 ⟨0x8000000000000000⟩) (.i32 1)) .null) 7 4 := by
  have hcheck : ((Pipeline.diamond.buildTopology [2] default).1.toOption.any fun t =>
      t.stages.any fun s => s.inputs.any fun e₁ => s.inputs.any fun e₂ =>
        decide (e₁.producer = "left" ∧ e₂.producer = "source1" ∧
          e₁.grouping.keyOf? (.pair (.pair (.f64 ⟨0⟩) (.i32 1)) .null) =
            some (.pair (.f64 ⟨0⟩) (.i32 1)) ∧
          e₂.grouping.keyOf? (.pair (.pair (.f64 ⟨0x8000000000000000⟩) (.i32 1)) .null) =
            some (.pair (.f64 ⟨0x8000000000000000⟩) (.i32 1)))) = true := by
    decide +kernel
  rcases hbuild : Pipeline.diamond.buildTopology [2] default with ⟨_ | t, g'⟩
  · rw [hbuild] at hcheck
    cases hcheck
  · rw [hbuild] at hcheck
    simp only [Except.toOption, Option.any_some, Array.any_eq_true', List.any_eq_true,
      decide_eq_true_eq] at hcheck
    obtain ⟨s, hs, e₁, he₁, e₂, he₂, hp₁, hp₂, hk₁, hk₂⟩ := hcheck
    have hagree := (buildTopology_coPartitions hbuild).1 e₁ e₂ ⟨s, hs, he₁⟩ ⟨s, hs, he₂⟩
      _ _ _ _ hk₁ hk₂ (by decide) 0 7 4
    exact ⟨t, g', rfl, e₁, e₂, ⟨s, hs, he₁⟩, ⟨s, hs, he₂⟩, hp₁, hp₂, hagree.1⟩

end StreamPlan
