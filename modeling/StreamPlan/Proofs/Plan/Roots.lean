import StreamPlan.Proofs.Plan.Faithful
import StreamPlan.Proofs.Plan.PlannedCalls

/-!
# The end nodes of a pipeline

A pipeline can say which nodes nobody consumes.  These are the fewest nodes to ask for if
everything is to be compiled: every node is upstream of one of them, and each of them is
upstream of itself only.

## Main definitions

* `Pipeline.LeastRoots` — the least nodes that everything is upstream of.
* `Pipeline.NeverRegisters` — a build has nothing to do with a node.

## Main results

* `Pipeline.contains_consumed_iff` — consumed positions are those of parents.
* `Pipeline.WellFormed.leastRoots_terminals` — **the end nodes are the least nodes that
  everything is upstream of.**
* `Pipeline.WellFormed.size_eq_iff_terminals_subset` — **a build compiles all nodes exactly
  if it is asked for all end nodes.**
* `Pipeline.WellFormed.neverRegisters` — an end node that is not asked for is never told of.
-/

namespace StreamPlan
namespace Pipeline

/-! ### Consumed nodes -/

theorem contains_foldl_insert (ps : List NodeId) (seen : Std.TreeSet NodeId) (i : NodeId) :
    (ps.foldl (fun seen p => seen.insert p) seen).contains i = true ↔
      seen.contains i = true ∨ i ∈ ps := by
  induction ps generalizing seen with
  | nil => simp
  | cons p ps ih =>
    rw [List.foldl_cons, ih]
    simp only [Std.TreeSet.contains_insert, Bool.or_eq_true, beq_iff_eq, compare_eq_iff_eq,
      List.mem_cons]
    grind

theorem contains_foldl_parents (ns : List Node) (seen : Std.TreeSet NodeId) (i : NodeId) :
    (ns.foldl (fun seen n => n.parents.foldl (fun seen p => seen.insert p) seen) seen).contains i
        = true ↔ seen.contains i = true ∨ ∃ n ∈ ns, i ∈ n.parents := by
  induction ns generalizing seen with
  | nil => simp
  | cons n ns ih =>
    rw [List.foldl_cons, ih, contains_foldl_insert]
    simp only [List.mem_cons, exists_eq_or_imp]
    grind

/-- Consumed positions are those of parents. -/
theorem contains_consumed_iff (g : Pipeline) (i : NodeId) :
    g.consumed.contains i = true ↔ ∃ child, g.HasParent child i := by
  rw [consumed, ← Array.foldl_toList, contains_foldl_parents]
  simp only [Std.TreeSet.contains_emptyc, Bool.false_eq_true, false_or, HasParent]
  constructor
  · rintro ⟨n, hn, hi⟩
    obtain ⟨child, hchild⟩ := List.mem_iff_getElem?.mp hn
    exact ⟨child, n, by rw [← Array.getElem?_toList]; exact hchild, hi⟩
  · rintro ⟨child, n, hn, hi⟩
    exact ⟨n, Array.mem_toList_iff.mpr (Array.mem_of_getElem? hn), hi⟩

/-! ### End nodes -/

/-- The nodes stand at the positions they have as their ids. -/
theorem WellFormed.map_id {g : Pipeline} (hg : g.WellFormed) :
    g.nodes.toList.map Node.id = List.range g.size := by
  apply List.ext_getElem
  · simp [size]
  · intro i hi hi'
    have hlt : i < g.nodes.size := by simpa using hi
    rw [List.getElem_map, List.getElem_range, Array.getElem_toList]
    exact (hg.node i _ (Array.getElem?_eq_getElem hlt)).id_eq

theorem WellFormed.terminals_increasing {g : Pipeline} (hg : g.WellFormed) :
    g.terminals.Pairwise (· < ·) := by
  have hsub : g.terminals.Sublist (List.range g.size) := by
    rw [← hg.map_id, terminals]
    exact List.filter_sublist.map Node.id
  exact List.pairwise_lt_range.sublist hsub

/-- End nodes are those that no node has as a parent. -/
theorem WellFormed.mem_terminals_iff {g : Pipeline} (hg : g.WellFormed) {i : NodeId} :
    i ∈ g.terminals ↔ g.has i = true ∧ ∀ child, ¬ g.HasParent child i := by
  simp only [terminals, List.mem_map, List.mem_filter, Bool.not_eq_true', ← Bool.not_eq_true,
    contains_consumed_iff, not_exists]
  constructor
  · rintro ⟨n, ⟨hn, hchild⟩, rfl⟩
    obtain ⟨j, hj⟩ := List.mem_iff_getElem?.mp hn
    rw [Array.getElem?_toList] at hj
    rw [(hg.node j n hj).id_eq] at hchild ⊢
    exact ⟨has_of_node hj, hchild⟩
  · rintro ⟨hhas, hchild⟩
    have hlt : i < g.nodes.size := of_decide_eq_true hhas
    have hn := Array.getElem?_eq_getElem hlt
    refine ⟨g.nodes[i], ⟨Array.mem_toList_iff.mpr (Array.getElem_mem hlt), ?_⟩, ?_⟩
    · rw [(hg.node i _ hn).id_eq]
      exact hchild
    · exact (hg.node i _ hn).id_eq

/-- Every node is upstream of an end node. -/
theorem WellFormed.upstreamOfAny_terminals {g : Pipeline} (hg : g.WellFormed) {i : NodeId}
    (hi : g.has i = true) : g.UpstreamOfAny g.terminals i := by
  -- children stand after their parents, so this goes up to the last node at most
  induction hk : g.size - i using Nat.strong_induction_on generalizing i with
  | _ k ih =>
    by_cases hchild : ∃ child, g.HasParent child i
    · obtain ⟨child, n, hn, hmem⟩ := hchild
      have hlt : i < child := (hg.node child n hn).parents_lt i hmem
      have hsize : child < g.size := (Array.getElem?_eq_some_iff.mp hn).1
      have hcloser : g.size - child < k := by
        rw [← hk]
        exact Nat.sub_lt_sub_left (Nat.lt_trans hlt hsize) hlt
      exact (ih (g.size - child) hcloser (has_of_node hn) rfl).parent ⟨n, hn, hmem⟩
    · exact ⟨i, hg.mem_terminals_iff.mpr ⟨hi, not_exists.mp hchild⟩, .refl⟩

/-- An end node is only upstream of nodes that include it. -/
theorem WellFormed.mem_of_upstreamOfAny {g : Pipeline} (hg : g.WellFormed) {roots : List NodeId}
    {i : NodeId} (hi : i ∈ g.terminals) (h : g.UpstreamOfAny roots i) : i ∈ roots := by
  obtain ⟨root, hroot, hup⟩ := h
  rcases Relation.ReflTransGen.cases_tail hup with rfl | ⟨child, -, hparent⟩
  · exact hroot
  · exact absurd hparent ((hg.mem_terminals_iff.mp hi).2 child)

/-- The nodes `roots` are the ends of the pipeline, in the order they were made, and the
least ones that everything is upstream of. -/
structure LeastRoots (g : Pipeline) (roots : List NodeId) : Prop where
  increasing : roots.Pairwise (· < ·)
  mem_iff : ∀ i, i ∈ roots ↔ g.has i = true ∧ ∀ child, ¬ g.HasParent child i
  covers : ∀ i, g.has i = true → g.UpstreamOfAny roots i
  least : ∀ others : List NodeId, (∀ i, g.has i = true → g.UpstreamOfAny others i) →
    roots ⊆ others

/-- **The end nodes are the least nodes that everything is upstream of.** -/
theorem WellFormed.leastRoots_terminals {g : Pipeline} (hg : g.WellFormed) :
    g.LeastRoots g.terminals where
  increasing := hg.terminals_increasing
  mem_iff := fun _ => hg.mem_terminals_iff
  covers := fun _ hi => hg.upstreamOfAny_terminals hi
  least := fun _ hothers i hi =>
    hg.mem_of_upstreamOfAny hi (hothers i (hg.mem_terminals_iff.mp hi).1)

/-! ### Builds -/

/-- **A build compiles all nodes exactly if it is asked for all end nodes.** -/
theorem WellFormed.size_eq_iff_terminals_subset {g g' : Pipeline} (hg : g.WellFormed)
    {roots : List NodeId} {config : Config} {t : Topology}
    (h : g.buildTopology roots config = (.ok t, g')) :
    t.size = g.size ↔ g.terminals ⊆ roots := by
  obtain ⟨s, nodes, hbuild, rfl, -, -, hs, hnodes⟩ := exists_mirrors_of_buildTopology h
  have hmem : ∀ i, i ∈ nodes ↔ g.UpstreamOfAny roots i := by
    intro i
    rw [hnodes.mem_iff, BuildSession.contains_built_iff_upstream hbuild]
  have hsize : s.sink.size = nodes.length := by
    rw [hnodes.stages.length_eq]
    rfl
  have hrange : nodes ⊆ List.range g.size := by
    intro i hi
    obtain ⟨name, hname⟩ := BuildSession.contains_built_iff.mp ((hnodes.mem_iff i).mp hi)
    obtain ⟨n, hn, -⟩ := hs.entry i name hname
    exact List.mem_range.mpr (of_decide_eq_true (has_of_node hn))
  have hsubperm : nodes.Subperm (List.range g.size) := hnodes.nodup.subperm hrange
  rw [hsize]
  constructor
  · -- as many nodes as there are, so all of them
    intro hlength
    have hperm : nodes.Perm (List.range g.size) :=
      hsubperm.perm_of_length_le (by rw [List.length_range, hlength])
    apply hg.leastRoots_terminals.least
    intro i hi
    apply (hmem i).mp
    exact hperm.mem_iff.mpr (List.mem_range.mpr (of_decide_eq_true hi))
  · intro hroots
    have hall : List.range g.size ⊆ nodes := by
      intro i hi
      obtain ⟨root, hroot, hup⟩ :=
        hg.upstreamOfAny_terminals (decide_eq_true (List.mem_range.mp hi))
      exact (hmem i).mpr ⟨root, hroots hroot, hup⟩
    have hlength : (List.range g.size).length ≤ nodes.length :=
      (List.nodup_range.subperm hall).length_le
    rw [(hsubperm.perm_of_length_le hlength).length_eq, List.length_range]

/-- Builds only give stages to nodes upstream of their end nodes, also if they fail. -/
theorem upstreamOfAny_of_run {σ : Type} [PlanSink σ] {g : Pipeline} {roots : List NodeId}
    {sink : σ} {config : Config} {i : NodeId}
    (hi : (g.run roots sink config).2.built.contains i = true) : g.UpstreamOfAny roots i := by
  revert hi
  apply run_preserves (P := fun s => s.built.contains i = true → g.UpstreamOfAny roots i)
  · simp [BuildSession.fresh]
  · exact BuildSession.upstreamOfAny_of_buildAll rfl (by simp [BuildSession.fresh])

/-- A build of the nodes `roots` has nothing to do with the node `i`, over any sink and
however it ends: the node has no stage, and the calls, which are the first ones of those
that are planned, are about the stages of others. -/
structure NeverRegisters (g : Pipeline) (roots : List NodeId) (config : Config) (i : NodeId) :
    Prop where
  stageName_eq : ∀ {σ : Type} [PlanSink σ] (sink : σ),
    (g.run roots sink config).2.stageName? i = none
  dialogue : ∀ {σ : Type} [PlanSink σ] (sink : σ),
    (g.dialogue roots sink config).map Prod.fst <+: g.plannedCalls roots config
  planned : ∃ nodes, i ∉ nodes ∧
    g.Announces (g.run roots (heard []) config).2.pipeline.nameOf? config.routingSeed nodes
      (g.plannedCalls roots config)

end Pipeline

/-- The calls of a dialogue are the first ones of those that it follows. -/
theorem Follows.map_fst {calls : List PlanCall} {answer r : Except PlanError Unit}
    {dialogue : List (PlanCall × Except PlanError Unit)} (h : Follows calls answer dialogue r) :
    dialogue.map Prod.fst <+: calls := by
  cases h with
  | accepted => simp [Function.comp_def]
  | @refused before after call e hcalls =>
    refine ⟨after, ?_⟩
    simp [hcalls, Function.comp_def]

namespace Pipeline

/-- An end node that is not asked for is never told of. -/
theorem WellFormed.neverRegisters {g : Pipeline} (hg : g.WellFormed) {i : NodeId}
    (hi : i ∈ g.terminals) {roots : List NodeId} (hroots : i ∉ roots) (config : Config) :
    g.NeverRegisters roots config i where
  stageName_eq := by
    intro σ _ sink
    rw [← BuildSession.contains_built_eq_false_iff, ← Bool.not_eq_true]
    exact fun hbuilt => hroots (hg.mem_of_upstreamOfAny hi (upstreamOfAny_of_run hbuilt))
  dialogue := fun sink => (g.follows_dialogue roots sink config).1.map_fst
  planned := by
    obtain ⟨nodes, henumerates, hannounces⟩ := g.exists_enumerates_plannedCalls roots config
    refine ⟨nodes, fun hmem => ?_, hannounces⟩
    have hbuilt := (henumerates.mem_iff i).mp hmem
    exact hroots (hg.mem_of_upstreamOfAny hi (upstreamOfAny_of_run hbuilt))

/-- **The end nodes of a pipeline are the least nodes to ask for if all of it is to be
compiled.**  They are the nodes that no node has as a parent, in the order they were made,
and everything is upstream of one of them.  A build of them that succeeds makes as many
stages as there are nodes, and so does exactly every build that includes them; a build of
all but one of them never tells of that one, whatever its sink. -/
theorem terminals_compile_all {g : Pipeline} (hg : g.Reachable) :
    g.LeastRoots g.terminals ∧
      (∀ config t g', g.buildTopology g.terminals config = (.ok t, g') → t.size = g.size) ∧
      (∀ roots config t g', g.buildTopology roots config = (.ok t, g') →
        (t.size = g.size ↔ g.terminals ⊆ roots)) ∧
      ∀ i ∈ g.terminals, ∀ config, g.NeverRegisters (g.terminals.erase i) config i := by
  have hwf := hg.wellFormed
  have hnodup : g.terminals.Nodup := hwf.terminals_increasing.imp Nat.ne_of_lt
  refine ⟨hwf.leastRoots_terminals, ?_, ?_, ?_⟩
  · intro config t g' h
    exact (hwf.size_eq_iff_terminals_subset h).mpr (List.Subset.refl _)
  · intro roots config t g' h
    exact hwf.size_eq_iff_terminals_subset h
  · intro i hi config
    exact hwf.neverRegisters hi hnodup.not_mem_erase config

/-- A source that a map and a filter read. -/
def forked : Pipeline where
  nodes := #[⟨0, none, none, 1, .source fun _ => none⟩,
    ⟨1, none, none, 1, .transform 0 (.map Scalar.value)⟩,
    ⟨2, none, none, 1, .transform 0 (.filter fun _ => true)⟩]
  sourcePartitions := 1

theorem reachable_forked : forked.Reachable := by
  have hsource : Reachable _ := .edit (.source fun _ => none) .empty rfl
  have hmap : Reachable _ := .edit (.map 0 Scalar.value) hsource rfl
  exact .edit (.filter 0 fun _ => true) hmap rfl

/-- The map and the filter are asked for, and then the filter only. -/
theorem terminals_compile_all_forked :
    forked.Reachable ∧ forked.terminals = [1, 2] ∧ forked.LeastRoots [1, 2] ∧
      (∃ t g', forked.buildTopology [1, 2] default = (.ok t, g') ∧ t.size = forked.size) ∧
      forked.NeverRegisters [2] default 1 := by
  have hends : forked.terminals = [1, 2] := by decide +kernel
  obtain ⟨hleast, hall, -, hnever⟩ := terminals_compile_all reachable_forked
  rw [hends] at hleast hall hnever
  have hok : (forked.buildTopology [1, 2] default).1.isOk = true := by decide +kernel
  obtain ⟨t, g', hbuild⟩ := Except.exists_ok_of_isOk hok
  exact ⟨reachable_forked, hends, hleast, ⟨t, g', hbuild, hall default t g' hbuild⟩,
    hnever 1 (by simp) default⟩

end Pipeline
end StreamPlan
