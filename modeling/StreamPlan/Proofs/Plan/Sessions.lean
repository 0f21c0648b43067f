import StreamPlan.Proofs.Plan.Coherent
import StreamPlan.Proofs.Plan.Reachable

/-!
# What holds throughout a session

One session may be asked for many nodes, and each build may fail: at an unknown
node, at a name that is taken, at a number of partitions, or at the sink, which can
refuse a call after the node has been noted.  Nothing is undone then.  This file
says what is nevertheless true between any two builds.

## Main definitions

* `BuildSession.Consistent` — what the session knows agrees with itself and with the
  pipeline it was started on.

## Main results

* `BuildSession.consistent_after` — **every session stays consistent and forgets no
  stage**, whatever is built and whatever the sink answers.
-/

namespace StreamPlan
namespace BuildSession

variable {σ : Type}

/-- What a session that was started on the pipeline `g` knows of its stages, and what
it has changed in the pipeline. -/
structure Consistent (g : Pipeline) (s : BuildSession σ) : Prop where
  stageName_inj : ∀ (i j : NodeId) (name : String),
    s.stageName? i = some name → s.stageName? j = some name → i = j
  taken_iff : ∀ name, s.names.contains name = true ↔ ∃ i, s.stageName? i = some name
  parent : ∀ (i p : NodeId) (name : String), s.stageName? i = some name → g.HasParent i p →
    ∃ producer, s.stageName? p = some producer
  nameOf_eq : ∀ (i : NodeId) (name : String),
    s.stageName? i = some name → s.pipeline.nameOf? i = some name
  userName_eq : ∀ (i : NodeId) (name : String), s.stageName? i = some name →
    ∃ n, g.nodes[i]? = some n ∧ ∀ given, n.userName = some given → name = given
  sourcePartitions_eq : s.pipeline.sourcePartitions = g.sourcePartitions
  size_eq : s.pipeline.size = g.size
  /-- A node differs at most in the name that was written back. -/
  node : ∀ (i : NodeId) (n : Node), g.nodes[i]? = some n →
    ∃ written, s.pipeline.nodes[i]? = some { n with assignedName := written }

theorem Coherent.consistent {g : Pipeline} {s : BuildSession σ} (h : s.Coherent g) :
    s.Consistent g where
  stageName_inj := h.built_inj
  taken_iff := h.taken_iff
  parent := by
    intro i p name hi hp
    have hcontains : s.built.contains p = true :=
      h.contains_built_of_upstream (.single hp) (contains_built_iff.mpr ⟨name, hi⟩)
    exact contains_built_iff.mp hcontains
  nameOf_eq := h.reported
  userName_eq := by
    intro i name hi
    obtain ⟨n, hn, hcalled, -⟩ := h.entry i name hi
    refine ⟨n, hn, fun given hgiven => ?_⟩
    rw [Node.MayBeCalled, hgiven] at hcalled
    exact hcalled
  sourcePartitions_eq := by
    have heq := congrArg Pipeline.sourcePartitions h.described_eq
    exact heq
  size_eq := Pipeline.size_eq_of_described h.described_eq
  node := by
    intro i n hn
    obtain ⟨m, hm, hnm⟩ := Pipeline.exists_of_described h.described_eq.symm hn
    refine ⟨m.assignedName, ?_⟩
    -- equal but for the written name, which is that of `m`
    have hwritten : { n.described with assignedName := m.assignedName }
        = { m.described with assignedName := m.assignedName } := by rw [hnm]
    rw [hm]
    exact congrArg some hwritten.symm

variable [PlanSink σ]

theorem Coherent.after {g : Pipeline} {s₀ s : BuildSession σ} (h : s₀.Coherent g)
    (hs : s₀.After s) : s.Coherent g :=
  After.invariant (P := fun s' => s'.Coherent g) (fun _ _ hs' hnew => hs'.lower hnew) h hs

/-- A lowering keeps the stages there are, also when the sink refuses the new one. -/
theorem stageName?_lower {s : BuildSession σ} {id i : NodeId} {name : String}
    (hnew : s.built.contains id = false) (hi : s.stageName? i = some name) :
    (s.lower id).2.stageName? i = some name :=
  lower_preserves (P := fun s' => s'.stageName? i = some name) hi (fun _ => hi)
    (fun _ _ _ _ _ _ _ => built_recorded_of_built hnew hi)

theorem After.stageName? {s s' : BuildSession σ} (h : s.After s') {i : NodeId} {name : String}
    (hi : s.stageName? i = some name) : s'.stageName? i = some name :=
  After.invariant (P := fun s' => s'.stageName? i = some name)
    (fun _ _ hs' hnew => stageName?_lower hnew hs') hi h

/-- **Every session stays consistent and forgets no stage**, whatever is built and
whatever the sink answers. -/
theorem consistent_after {g : Pipeline} {sink : σ} {config : Config} {s₀ s : BuildSession σ}
    (hstart : start g sink config = .ok s₀) (hs : s₀.After s) :
    s.Consistent g ∧ ∀ s', s.After s' → ∀ (i : NodeId) (name : String),
      s.stageName? i = some name → s'.stageName? i = some name := by
  obtain ⟨-, rfl⟩ := start_eq_ok_iff.mp hstart
  exact ⟨((coherent_fresh g sink config).after hs).consistent,
    fun s' hs' i name hi => hs'.stageName? hi⟩

/-- A sink that takes stages and no edges. -/
def edgeless : Transcript :=
  .new fun call => match call with
    | .register _ _ _ => none
    | .wire consumer _ _ => some (.unknownStage consumer)

/-- Three builds over `Pipeline.diamond`: the map and the join fail at the sink, and the
node between is unknown.  All three nodes have been noted. -/
theorem consistent_after_refused :
    ∃ s₀ s : BuildSession Transcript, start .diamond edgeless default = .ok s₀ ∧
      s = (((s₀.build 1).2.build 9).2.build 2).2 ∧ s₀.After s ∧
      (s₀.build 1).1.isOk = false ∧ s.built.size = 3 ∧ s.Consistent .diamond := by
  have hstart : start .diamond edgeless default = .ok (fresh .diamond edgeless default) := rfl
  have hafter : After (fresh .diamond edgeless default) _ := .build 2 (.build 9 (.build 1 .refl))
  refine ⟨_, _, hstart, rfl, hafter, ?_, ?_, (consistent_after hstart hafter).1⟩
  · decide +kernel
  · decide +kernel

end BuildSession
end StreamPlan
