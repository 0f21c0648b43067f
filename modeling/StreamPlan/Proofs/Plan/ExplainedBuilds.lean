import StreamPlan.Proofs.Plan.Faithful
import StreamPlan.Proofs.Plan.Reachable
import StreamPlan.Proofs.Topology.Explanation

/-!
# The explanations of compiled topologies

A stage is called by the name of its node or by the word for its family and a number, and its
producers are other stages.  So if the names in a pipeline are words, all names of what is
compiled from it are.  The explanation then has one line a stage, and it is the explanation
of another compiled topology only if that one has the same stages, as far as explanations
show them.

## Main definitions

* `Pipeline.InWords` — a pipeline whose users chose words for names.

## Main results

* `Pipeline.InWords.of_buildTopology` — what is compiled from it is in words.
* `buildTopology_explain` — **explanations have one line a stage and tell compiled
  topologies apart.**
-/

namespace StreamPlan

theorem IsWord.numbered {stem : String} (h : IsWord stem) (k : Nat) :
    IsWord (StageNames.numbered stem k) := by
  have hdigit : ∀ c, c.isDigit = false → c ∉ Nat.toDigits 10 k := by
    intro c hc hmem
    rw [isDigit_of_mem_toDigits hmem] at hc
    cases hc
  simp [IsWord, StageNames.numbered, h.1, h.2, hdigit ' ' (by decide), hdigit '\n' (by decide)]

namespace Pipeline

/-- The names that users gave are words. -/
def InWords (g : Pipeline) : Prop := ∀ n ∈ g.nodes, ∀ name ∈ n.userName, IsWord name

theorem InWords.of_mayBeCalled {g : Pipeline} (hg : g.InWords) {i : NodeId} {n : Node}
    (hn : g.nodes[i]? = some n) {name : String} (h : n.MayBeCalled name) : IsWord name := by
  unfold Node.MayBeCalled at h
  cases huser : n.userName with
  | none =>
    rw [huser] at h
    obtain ⟨k, -, rfl⟩ := h
    exact n.family.isWord_label.numbered k
  | some given =>
    rw [huser] at h
    cases h
    exact hg n (Array.mem_of_getElem? hn) name huser

/-- What is compiled from a pipeline in words is in words. -/
theorem InWords.of_buildTopology {g g' : Pipeline} (hg : g.InWords) {terminals : List NodeId}
    {config : Config} {t : Topology} (h : g.buildTopology terminals config = (.ok t, g')) :
    t.InWords := by
  obtain ⟨s, nodes, -, rfl, -, -, hs, hnodes⟩ := exists_mirrors_of_buildTopology h
  intro st hst
  obtain ⟨k, hk, rfl⟩ := List.mem_iff_getElem.mp (Array.mem_toList_iff.mpr hst)
  have hk' : k < nodes.length := hnodes.stages.length_eq ▸ hk
  obtain ⟨-, n, hn, hstage⟩ := hnodes.stages.get hk' hk
  refine ⟨hg.of_mayBeCalled hn hstage.mayBeCalled, fun e he => ?_⟩
  -- a producer is the stage of a parent
  obtain ⟨p, -, hp⟩ := hstage.realizes.exists_parent he
  obtain ⟨parent, hparent, hcalled, -⟩ := hs.entry p e.producer hp
  exact hg.of_mayBeCalled hparent hcalled

end Pipeline

/-- **Explanations have one line a stage and tell compiled topologies apart**, as far as they
show them: pipelines, end nodes and settings may all be different. -/
theorem buildTopology_explain {g₁ g₂ g₁' g₂' : Pipeline} (hg₁ : g₁.InWords) (hg₂ : g₂.InWords)
    {terminals₁ terminals₂ : List NodeId} {config₁ config₂ : Config} {t₁ t₂ : Topology}
    (h₁ : g₁.buildTopology terminals₁ config₁ = (.ok t₁, g₁'))
    (h₂ : g₂.buildTopology terminals₂ config₂ = (.ok t₂, g₂')) :
    t₁.explain.toList.splitOn '\n' = t₁.stages.toList.map Stage.line ++ [[]] ∧
      t₂.explain.toList.splitOn '\n' = t₂.stages.toList.map Stage.line ++ [[]] ∧
      (t₁.explain = t₂.explain ↔ t₁.summaries = t₂.summaries) := by
  have ht₁ : t₁.InWords := hg₁.of_buildTopology h₁
  have ht₂ : t₂.InWords := hg₂.of_buildTopology h₂
  exact ⟨ht₁.splitOn_explain, ht₂.splitOn_explain, ht₁.explain_eq_iff ht₂⟩

/-- `Pipeline.diamond` under two seeds: the groupings differ and the explanations do not. -/
theorem buildTopology_explain_diamond :
    Pipeline.diamond.InWords ∧
      ∃ t u g g', Pipeline.diamond.buildTopology [2] default = (.ok t, g) ∧
        Pipeline.diamond.buildTopology [2] ⟨1, 1024, 7, true⟩ = (.ok u, g') ∧
        t.explain.toList.splitOn '\n' = t.stages.toList.map Stage.line ++ [[]] ∧
        u.explain.toList.splitOn '\n' = u.stages.toList.map Stage.line ++ [[]] ∧
        (t.explain = u.explain ↔ t.summaries = u.summaries) ∧ t.explain = u.explain := by
  have hwords : Pipeline.diamond.InWords := by
    unfold Pipeline.InWords
    decide
  have hok : (Pipeline.diamond.buildTopology [2] default).1.isOk = true := by decide +kernel
  have hsummaries :
      (Pipeline.diamond.buildTopology [2] default).1.toOption.map Topology.summaries =
        (Pipeline.diamond.buildTopology [2] ⟨1, 1024, 7, true⟩).1.toOption.map
          Topology.summaries := by
    decide +kernel
  rcases h : Pipeline.diamond.buildTopology [2] default with ⟨_ | t, g⟩
  · rw [h] at hok
    cases hok
  rw [h] at hsummaries
  rcases h' : Pipeline.diamond.buildTopology [2] ⟨1, 1024, 7, true⟩ with ⟨_ | u, g'⟩
  · rw [h'] at hsummaries
    cases hsummaries
  · rw [h'] at hsummaries
    obtain ⟨ht, hu, hiff⟩ := buildTopology_explain hwords hwords h h'
    exact ⟨hwords, t, u, g, g', rfl, rfl, ht, hu, hiff, hiff.mpr (Option.some.inj hsummaries)⟩

end StreamPlan
