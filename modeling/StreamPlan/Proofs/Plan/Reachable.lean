import StreamPlan.Plan.Compile
import StreamPlan.Proofs.Plan.Lowering

/-!
# Reachable pipelines and sessions

What a user can get hold of: pipelines that were made by operations and went
through builds, successful or not, and sessions over such pipelines after any
builds of their own.

## Main definitions

* `Pipeline.Reachable`, `BuildSession.Reached`.

## Main results

* `Pipeline.Reachable.wellFormed`, `BuildSession.Reached.wellFormed` — **every
  reachable pipeline is well formed**, in and out of sessions.
* `Pipeline.Reachable.buildPlan`, `Pipeline.Reachable.buildTopology` — whole
  builds lead to reachable pipelines.
-/

namespace StreamPlan

namespace BuildSession

variable {σ : Type}

variable [PlanSink σ]

/-- The sessions that builds lead to, failed builds included. -/
inductive After (s₀ : BuildSession σ) : BuildSession σ → Prop
  | refl : After s₀ s₀
  | build {s : BuildSession σ} (terminal : NodeId) (hs : After s₀ s) :
    After s₀ (s.build terminal).2

theorem described_build (s : BuildSession σ) (terminal : NodeId) :
    (s.build terminal).2.pipeline.described = s.pipeline.described := by
  refine build_invariant (P := fun s' => s'.pipeline.described = s.pipeline.described) ?_ rfl terminal
  intro s' id hs' _
  rw [described_lower, hs']

/-- What lowerings of any new nodes keep holds between any builds. -/
theorem After.invariant {P : BuildSession σ → Prop}
    (hlower : ∀ s id, P s → s.built.contains id = false → P (s.lower id).2)
    {s₀ s : BuildSession σ} (h : P s₀) (hs : s₀.After s) : P s := by
  induction hs with
  | refl => exact h
  | build terminal _ ih => exact build_invariant hlower ih terminal

/-- Builds change nothing the user described. -/
theorem After.described {s₀ s : BuildSession σ} (h : s₀.After s) :
    s.pipeline.described = s₀.pipeline.described := by
  induction h with
  | refl => rfl
  | build terminal _ ih => rw [described_build, ih]

/-- Compiling several end nodes is a run of builds that ends with the first
failure. -/
theorem After.buildAll {s₀ s : BuildSession σ} (h : s₀.After s) (terminals : List NodeId) :
    s₀.After (s.buildAll terminals).2 := by
  induction terminals generalizing s with
  | nil => exact h
  | cons t ts ih =>
    have hbuild := h.build t
    rw [BuildSession.buildAll]
    split
    · next heq => rw [heq] at hbuild; exact ih hbuild
    · next heq => rw [heq] at hbuild; exact hbuild

end BuildSession

namespace Pipeline

/-- The pipelines that operations and sessions lead to. -/
inductive Reachable : Pipeline → Prop
  | empty : Reachable Pipeline.empty
  | ofConfig (c : Config) : Reachable (Pipeline.ofConfig c)
  | edit {g g' : Pipeline} (e : Edit) (hg : Reachable g) (he : g.edit e = .ok g') : Reachable g'
  | session {σ : Type} [PlanSink σ] {g : Pipeline} {sink : σ} {config : Config}
    {s₀ s : BuildSession σ} (hg : Reachable g)
    (hstart : BuildSession.start g sink config = .ok s₀) (hs : s₀.After s) :
    Reachable s.pipeline

/-- **Every reachable pipeline is well formed.** -/
theorem Reachable.wellFormed {g : Pipeline} (h : g.Reachable) : g.WellFormed := by
  induction h with
  | empty => exact wellFormed_empty
  | ofConfig c => exact wellFormed_ofConfig c
  | edit e _ he ih => exact ih.edit he
  | session _ hstart hs ih =>
    rw [BuildSession.start_eq_ok_iff] at hstart
    obtain ⟨-, rfl⟩ := hstart
    exact ih.of_described hs.described

theorem Reachable.buildPlan {σ : Type} [PlanSink σ] {g : Pipeline} (h : g.Reachable)
    (terminals : List NodeId) (sink : σ) (config : Config) :
    (g.buildPlan terminals sink config).2.Reachable := by
  unfold Pipeline.buildPlan
  cases hstart : BuildSession.start g sink config with
  | error e => exact h
  | ok s₀ =>
    have hafter : s₀.After (s₀.buildAll terminals).2 := BuildSession.After.refl.buildAll terminals
    dsimp only
    split
    · next heq => rw [heq] at hafter; exact h.session hstart hafter
    · next heq => rw [heq] at hafter; exact h.session hstart hafter

theorem Reachable.buildTopology {g : Pipeline} (h : g.Reachable) (terminals : List NodeId)
    (config : Config) : (g.buildTopology terminals config).2.Reachable := by
  have hplan := h.buildPlan terminals Topology.empty config
  unfold Pipeline.buildTopology
  split
  · next heq => rw [heq] at hplan; exact hplan
  · next heq => rw [heq] at hplan; exact hplan

/-! ### A small pipeline

The statements about builds are tried on it: a source that is consumed twice, by a
named map and by a join that has the map on its left. -/

/-- A join of a source with a map of it. -/
def diamond : Pipeline where
  nodes := #[⟨0, none, none, 1, .source fun _ => none⟩,
    ⟨1, some "left", none, 1, .transform 0 (.map Scalar.value)⟩,
    ⟨2, none, none, 1, .join 1 0 (.inner (.tumblingCount 1) .pair)⟩]
  sourcePartitions := 1

theorem reachable_diamond : diamond.Reachable := by
  have hsource : Reachable _ := .edit (.source fun _ => none) .empty rfl
  have hmap : Reachable _ := .edit (.map 0 Scalar.value) hsource rfl
  have hname : Reachable _ := .edit (.setName 1 "left") hmap rfl
  exact .edit (.join 1 0 (.inner (.tumblingCount 1) .pair)) hname rfl

end Pipeline

namespace BuildSession

variable {σ : Type} [PlanSink σ]

/-- A session over a reachable pipeline, after any builds. -/
def Reached (s : BuildSession σ) : Prop :=
  ∃ (g : Pipeline) (sink : σ) (config : Config) (s₀ : BuildSession σ),
    g.Reachable ∧ start g sink config = .ok s₀ ∧ s₀.After s

/-- **The pipeline of every reached session is well formed.** -/
theorem Reached.wellFormed {s : BuildSession σ} (h : s.Reached) : s.pipeline.WellFormed := by
  obtain ⟨g, sink, config, s₀, hg, hstart, hs⟩ := h
  exact (hg.session hstart hs).wellFormed

end BuildSession

end StreamPlan
