import StreamPlan.Proofs.Plan.History
import StreamPlan.Proofs.Plan.Sessions
import StreamPlan.Proofs.Plan.Success

/-!
# Sessions over a topology

A session over a new topology never hears a refusal: the planner only makes calls that
a topology takes.  So a build fails for a reason of its own, before the node it fails at
has been noted anywhere, and the topology keeps in step with what the session knows.

A build that has failed fails again.  The second build finds the parents it passes over
as stages, and comes to the node at which the first one failed; the search for a name
starts where the first search ended, and ends there as well.

## Main definitions

* `BuildSession.InStep` — a session and its topology have the same stages.
* `BuildSession.SameStages` — sessions that differ only in where searches start.

## Main results

* `BuildSession.Mirrored.build_again` — **a build that has failed fails again.**
* `BuildSession.stable_under_retry` — **a failed build over a topology leaves a session
  in step, and trying again changes nothing.**
-/

namespace StreamPlan

/-! ### Searching twice -/

namespace StageNames

theorem firstFree_of_free {s : StageNames} {stem : String} {n : Nat}
    (h : s.contains (numbered stem n) = false) (steps : Nat) : s.firstFree stem steps n = n := by
  cases steps with
  | zero => rfl
  | succ steps => rw [firstFree, h, if_neg Bool.false_ne_true]

/-- A second search ends where the first one did. -/
theorem fst_allocate_allocate (s : StageNames) (stem : String) :
    ((s.allocate stem).2.allocate stem).1 = (s.allocate stem).1 := by
  have hfloor := s.floor_allocate stem stem
  rw [if_pos rfl] at hfloor
  have hfree : (s.allocate stem).2.contains
      (numbered stem (s.firstFree stem s.size (s.floor stem))) = false := by
    rw [contains_allocate]
    exact s.contains_fst_allocate stem
  have hfirst := firstFree_of_free hfree (s.allocate stem).2.size
  rw [← hfloor] at hfirst
  exact congrArg (numbered stem) (hfirst.trans hfloor)

end StageNames

namespace BuildSession

section Again

variable {σ : Type}

theorem fst_resolveName_again (s : BuildSession σ) (n : Node) :
    (resolveName { s with names := (s.resolveName n).2 } n).1 = (s.resolveName n).1 := by
  unfold resolveName
  cases n.userName with
  | some given => rfl
  | none => exact s.names.fst_allocate_allocate n.family.label

theorem taken_resolveName (s : BuildSession σ) (n : Node) :
    (s.resolveName n).2.taken = s.names.taken := by
  unfold resolveName
  cases n.userName with
  | some given => rfl
  | none => rfl

/-- The second session is the first one, but for where searches for names start. -/
structure SameStages (s s' : BuildSession σ) : Prop where
  pipeline_eq : s'.pipeline = s.pipeline
  sink_eq : s'.sink = s.sink
  taken_eq : s'.names.taken = s.names.taken
  built_eq : s'.built = s.built

theorem sameStages_refl (s : BuildSession σ) : s.SameStages s := ⟨rfl, rfl, rfl, rfl⟩

theorem sameStages_searched (s : BuildSession σ) (n : Node) :
    s.SameStages { s with names := (s.resolveName n).2 } :=
  ⟨rfl, rfl, s.taken_resolveName n, rfl⟩

variable [PlanSink σ]

/-- A stage is not built again. -/
theorem Coherent.build_of_stage {g : Pipeline} {s : BuildSession σ} (h : s.Coherent g)
    (hwf : g.WellFormed) {t : NodeId} {name : String} (hname : s.stageName? t = some name) :
    s.build t = (.ok name, s) := by
  obtain ⟨n, hn, -⟩ := h.entry t name hname
  obtain ⟨m, hm, -⟩ := Pipeline.exists_of_described h.described_eq.symm hn
  exact build_of_built (hwf.of_described h.described_eq) hm hname

theorem Coherent.buildAll_of_stages {g : Pipeline} {s : BuildSession σ} (h : s.Coherent g)
    (hwf : g.WellFormed) {ids : List NodeId} (hids : ∀ i ∈ ids, s.built.contains i = true) :
    s.buildAll ids = (.ok (), s) := by
  induction ids with
  | nil => rfl
  | cons t ts ih =>
    obtain ⟨name, hname⟩ := contains_built_iff.mp (hids t List.mem_cons_self)
    rw [buildAll_cons, h.build_of_stage hwf hname, andThen_ok]
    exact ih fun i hi => hids i (List.mem_cons_of_mem t hi)

/-- A node that was refused before it was noted is refused again. -/
theorem Lowered.again {s s' : BuildSession σ} {i : NodeId} {r : Except PlanError String}
    {e : PlanError} (h : Lowered s i r s') (hr : r = .error e)
    (hnew : s'.built.contains i = false) :
    s'.built = s.built ∧ ∃ s'', s'.lower i = (.error e, s'') ∧ s'.SameStages s'' := by
  cases h with
  | unknown hnode =>
    cases hr
    exact ⟨rfl, s, Lowered.lower_eq (.unknown hnode), s.sameStages_refl⟩
  | unwired hnode hwiring =>
    cases hr
    exact ⟨rfl, s, Lowered.lower_eq (.unwired hnode hwiring), s.sameStages_refl⟩
  | @taken n w hnode hwiring htaken =>
    cases hr
    have hagain := s.fst_resolveName_again n
    have htaken' : StageNames.contains (s.resolveName n).2
        (resolveName { s with names := (s.resolveName n).2 } n).1 = true := by
      rw [hagain, contains_resolveName, htaken]
    refine ⟨rfl, _, ?_, sameStages_searched _ n⟩
    rw [Lowered.lower_eq (s := { s with names := (s.resolveName n).2 })
      (.taken hnode hwiring htaken'), hagain]
  | @disallowed n w hnode hwiring hfree hallows =>
    cases hr
    have hagain := s.fst_resolveName_again n
    have hfree' : StageNames.contains (s.resolveName n).2
        (resolveName { s with names := (s.resolveName n).2 } n).1 = false := by
      rw [hagain, contains_resolveName, hfree]
    refine ⟨rfl, _, ?_, sameStages_searched _ n⟩
    rw [Lowered.lower_eq (s := { s with names := (s.resolveName n).2 })
      (.disallowed hnode hwiring hfree' hallows), hagain]
  | @recorded n unit inputs =>
    have hself := s.getElem?_built_recorded i i n unit inputs
    rw [if_pos rfl] at hself
    rw [contains_built_iff.mpr ⟨_, hself⟩] at hnew
    cases hnew

end Again

/-! ### Trying again -/

section Retry

variable {g : Pipeline} {s s' : BuildSession Topology} {e : PlanError}

theorem Mirrored.build (h : s.Mirrored g) (t : NodeId) : (s.build t).2.Mirrored g :=
  build_invariant (P := fun s' => s'.Mirrored g) (fun _ _ hs hnew => hs.lower hnew) h t

/-- A topology takes the calls for a node, so a node that is refused is not noted. -/
theorem Mirrored.lower_again (h : s.Mirrored g) {i : NodeId} (hnew : s.built.contains i = false)
    (hlower : s.lower i = (.error e, s')) :
    s'.built = s.built ∧ ∃ s'', s'.lower i = (.error e, s'') ∧ s'.SameStages s'' := by
  obtain ⟨hs, nodes, hnodes⟩ := h
  have hlow := lowered_lower s i
  rw [hlower] at hlow
  generalize hr : (Except.error e, s').1 = r at hlow
  refine hlow.again hr.symm ?_
  cases hlow with
  | unknown => exact hnew
  | unwired => exact hnew
  | taken => exact hnew
  | disallowed => exact hnew
  | recorded hnode hwiring hfree hallows =>
    rw [hnodes.sink_recorded hs hwiring hfree hallows] at hr
    cases hr

/-- A build of a ready node that was refused comes to that node at once, and it is refused
again. -/
theorem Mirrored.build_again_of_lower (hwf : g.WellFormed) (h : s.Mirrored g) {i : NodeId}
    {n : Node} (hready : s.Ready i n) (hlower : s.lower i = (.error e, s')) :
    ∃ s'', s'.build i = (.error e, s'') ∧ s'.SameStages s'' := by
  obtain ⟨hbuilt, s'', hagain, hsame⟩ := h.lower_again hready.new hlower
  have hlast := h.lower hready.new
  have hdescribed := described_lower s i
  rw [hlower] at hlast hdescribed
  obtain ⟨m, hm, hnm⟩ := Pipeline.exists_of_described hdescribed.symm hready.node
  have hnew : s'.stageName? i = none := by
    rw [← contains_built_eq_false_iff, hbuilt, hready.new]
  have hparents : ∀ p ∈ m.parents, s'.built.contains p = true := by
    rw [hbuilt, ← Node.parents_eq_of_described hnm]
    exact hready.parents
  refine ⟨s'', ?_, hsame⟩
  rw [build_eq_andThen (hwf.of_described hlast.1.described_eq) hm hnew,
    hlast.1.buildAll_of_stages hwf hparents, andThen_ok]
  exact hagain

/-- Builds that have failed fail again, if each of them does. -/
theorem Mirrored.buildAll_again (hwf : g.WellFormed) {ids : List NodeId}
    (hids : ∀ i ∈ ids, ∀ s s' : BuildSession Topology, s.Mirrored g →
      s.build i = (.error e, s') → ∃ s'', s'.build i = (.error e, s'') ∧ s'.SameStages s'')
    (h : s.Mirrored g) (hbuild : s.buildAll ids = (.error e, s')) :
    ∃ s'', s'.buildAll ids = (.error e, s'') ∧ s'.SameStages s'' := by
  induction ids generalizing s with
  | nil => cases hbuild
  | cons t ts ih =>
    have hmirrored := h.build t
    rw [buildAll_cons] at hbuild
    rcases hfirst : s.build t with ⟨e' | name, s₁⟩
    · rw [hfirst, andThen_error] at hbuild
      cases hbuild
      obtain ⟨s'', hagain, hsame⟩ := hids t List.mem_cons_self s s' h hfirst
      refine ⟨s'', ?_, hsame⟩
      rw [buildAll_cons, hagain, andThen_error]
    · -- the first node is a stage by now, and stays one
      have hok : (s.build t).1 = .ok name := by rw [hfirst]
      have hname := built_of_build hok
      have hafter : s₁.After (s₁.buildAll ts).2 := After.refl.buildAll ts
      have hlast := hmirrored.buildAll ts
      rw [hfirst, andThen_ok] at hbuild
      rw [hfirst] at hmirrored hname hlast
      rw [hbuild] at hafter hlast
      obtain ⟨s'', hagain, hsame⟩ :=
        ih (fun i hi => hids i (List.mem_cons_of_mem t hi)) hmirrored hbuild
      refine ⟨s'', ?_, hsame⟩
      rw [buildAll_cons, hlast.1.build_of_stage hwf (hafter.stageName? hname), andThen_ok]
      exact hagain

/-- **A build that has failed fails again**, with the same error, and changes nothing but
where searches for names start.  The induction is on the position of the node, as a build
comes to the parents first. -/
theorem Mirrored.build_again (hwf : g.WellFormed) (t : Nat) :
    ∀ s s' : BuildSession Topology, s.Mirrored g → s.build t = (.error e, s') →
      ∃ s'', s'.build t = (.error e, s'') ∧ s'.SameStages s'' := by
  induction t using Nat.strong_induction_on with
  | _ t ih =>
    intro s s' h hbuild
    have hs : s.pipeline.WellFormed := hwf.of_described h.1.described_eq
    cases hnode : s.pipeline.nodes[t]? with
    | none =>
      rw [build_of_unknown hnode] at hbuild
      cases hbuild
      exact ⟨s, build_of_unknown hnode, s.sameStages_refl⟩
    | some n =>
      cases hname : s.stageName? t with
      | some name =>
        rw [h.1.build_of_stage hwf hname] at hbuild
        cases hbuild
      | none =>
        have hparents := (hs.node t n hnode).parents_lt
        have hstill := stageName?_buildAll_of_lt hs hparents
        have hmirrored := h.buildAll n.parents
        rw [build_eq_andThen hs hnode hname] at hbuild
        rcases hall : s.buildAll n.parents with ⟨e' | ⟨⟩, s₁⟩
        · -- a parent was refused, and the node is as far from being built as it was
          rw [hall, andThen_error] at hbuild
          cases hbuild
          rw [hall] at hstill hmirrored
          rw [hname] at hstill
          have hdescribed := hmirrored.1.described_eq.trans h.1.described_eq.symm
          obtain ⟨m, hm, hnm⟩ := Pipeline.exists_of_described hdescribed.symm hnode
          obtain ⟨s'', hagain, hsame⟩ :=
            h.buildAll_again hwf (fun p hp => ih p (hparents p hp)) hall
          refine ⟨s'', ?_, hsame⟩
          rw [build_eq_andThen (hwf.of_described hmirrored.1.described_eq) hm hstill,
            ← Node.parents_eq_of_described hnm, hagain, andThen_error]
        · rw [hall, andThen_ok] at hbuild
          rw [hall] at hmirrored
          obtain ⟨m, hready⟩ := ready_of_buildAll hs hnode hname hall
          exact hmirrored.build_again_of_lower hwf hready hbuild

end Retry

/-! ### A topology refuses nothing -/

/-- A session over a topology with a log that shows no refusal. -/
structure Unrefused (g : Pipeline) (s : BuildSession (Logged Topology)) : Prop where
  mirrored : s.withoutLog.Mirrored g
  accepted : ∀ entry ∈ s.sink.log, entry.2 = .ok ()

theorem unrefused_fresh (g : Pipeline) (config : Config) :
    (fresh g (Logged.new Topology.empty) config).Unrefused g where
  mirrored := mirrored_fresh g config
  accepted := by
    intro entry hentry
    cases hentry

/-- A lowering makes no call that a topology refuses. -/
theorem Unrefused.lower {g : Pipeline} {s : BuildSession (Logged Topology)} (h : s.Unrefused g)
    {i : NodeId} (hnew : s.built.contains i = false) : (s.lower i).2.Unrefused g where
  mirrored := by
    have hlower := h.mirrored.lower hnew
    rw [isView_withoutLog.lower_eq] at hlower
    exact hlower
  accepted := by
    obtain ⟨hs, nodes, hnodes⟩ := h.mirrored
    refine lower_preserves
      (P := fun s' : BuildSession (Logged Topology) => ∀ entry ∈ s'.sink.log, entry.2 = .ok ())
      h.accepted (fun _ => h.accepted) ?_
    intro n unit inputs _ hwiring hfree hallows entry hentry
    have htakes : PlanSink.acceptAll s.sink.sink
        (stageCalls (s.resolveName n).1 n.partitions unit inputs) = (.ok (), _) :=
      hnodes.sink_recorded hs hwiring hfree hallows
    rw [recorded] at hentry
    rcases s.sink.acceptAll_cases (stageCalls (s.resolveName n).1 n.partitions unit inputs) with
      ⟨sink, -, hlogged⟩ | ⟨_, _, _, _, _, -, hrefused, -⟩
    · rw [hlogged] at hentry
      rcases List.mem_append.mp hentry with hold | hnew
      · exact h.accepted entry hold
      · obtain ⟨call, -, rfl⟩ := List.mem_map.mp hnew
        rfl
    · cases htakes.symm.trans hrefused

/-! ### Whole sessions -/

/-- A session and its topology have the same stages, and each stage has an edge for every
parent of its node in the pipeline `g`. -/
structure InStep (g : Pipeline) (s : BuildSession Topology) : Prop where
  names_nodup : s.sink.names.Nodup
  stageName_inj : ∀ (i j : NodeId) (name : String),
    s.stageName? i = some name → s.stageName? j = some name → i = j
  mem_names_iff : ∀ name, name ∈ s.sink.names ↔ ∃ i, s.stageName? i = some name
  inputs_eq : ∀ (i : NodeId) (name : String), s.stageName? i = some name →
    ∃ n st, g.nodes[i]? = some n ∧ st ∈ s.sink.stages.toList ∧ st.name = name ∧
      n.parents.map s.stageName? = st.inputs.map fun e => some e.producer

theorem Mirrored.inStep {g : Pipeline} {s : BuildSession Topology} (h : s.Mirrored g) :
    s.InStep g := by
  obtain ⟨hs, nodes, hnodes⟩ := h
  have hmem : ∀ i name, s.stageName? i = some name → i ∈ nodes := by
    intro i name hi
    exact (hnodes.mem_iff i).mpr (contains_built_iff.mpr ⟨name, hi⟩)
  constructor
  case names_nodup => exact hnodes.names_nodup hs
  case stageName_inj => exact hs.built_inj
  case mem_names_iff =>
    intro name
    have hmap : name ∈ s.sink.names ↔ some name ∈ nodes.map s.stageName? := by
      rw [hnodes.map_stageName?]
      simp
    rw [hmap, List.mem_map]
    constructor
    · rintro ⟨i, -, hi⟩
      exact ⟨i, hi⟩
    · rintro ⟨i, hi⟩
      exact ⟨i, hmem i name hi, hi⟩
  case inputs_eq =>
    intro i name hi
    -- the stage stands where the node does
    obtain ⟨k, hk, rfl⟩ := List.getElem_of_mem (hmem i name hi)
    have hk' : k < s.sink.stages.toList.length := by
      rw [← hnodes.stages.length_eq]
      exact hk
    obtain ⟨hname, n, hn, hstage⟩ := hnodes.stages.get hk hk'
    refine ⟨n, _, hn, List.getElem_mem hk', ?_, hstage.realizes.map_producer⟩
    exact Option.some.inj (hname.symm.trans hi)

/-- **A failed build over a topology leaves a session in step, and trying again changes
nothing.**  After any builds, failed ones included, the topology has the stages that the
session knows of, with an edge for each parent, and it has refused no call.  If a build
fails, the same build fails again with the same error and leaves everything as it was. -/
theorem stable_under_retry {g : Pipeline} (hg : g.Reachable) {config : Config}
    {s₀ : BuildSession Topology} (hstart : start g Topology.empty config = .ok s₀)
    (ids : List NodeId) :
    (s₀.buildEach ids).InStep g ∧ (∀ entry ∈ s₀.history ids, entry.2 = .ok ()) ∧
      ∀ (t : NodeId) (e : PlanError) (s' : BuildSession Topology),
        (s₀.buildEach ids).build t = (.error e, s') →
          ∃ s'', s'.build t = (.error e, s'') ∧ s'.SameStages s'' := by
  obtain ⟨-, rfl⟩ := start_eq_ok_iff.mp hstart
  have hmirrored : ((fresh g Topology.empty config).buildEach ids).Mirrored g :=
    buildEach_preserves (fun _ _ hs hnew => hs.lower hnew) (mirrored_fresh g config) ids
  have hunrefused : ((fresh g (Logged.new Topology.empty) config).buildEach ids).Unrefused g :=
    buildEach_preserves (fun _ _ hs hnew => hs.lower hnew) (unrefused_fresh g config) ids
  exact ⟨hmirrored.inStep, hunrefused.accepted,
    fun t e s' hbuild => Mirrored.build_again hg.wellFormed t _ s' hmirrored hbuild⟩

end BuildSession

/-! ### Example -/

/-- A join of a source with a repartition that is too large for the usual settings. -/
def Pipeline.oversized : Pipeline where
  nodes := #[⟨0, none, none, 1, .source fun _ => none⟩,
    ⟨1, none, none, 5000, .transform 0 .repartition⟩,
    ⟨2, none, none, 1, .join 0 1 (.inner (.tumblingCount 1) .pair)⟩]
  sourcePartitions := 1

theorem Pipeline.reachable_oversized : oversized.Reachable := by
  have hsource : Reachable _ := .edit (.source fun _ => none) .empty rfl
  have hrepartition : Reachable _ := .edit (.repartition 0 5000) hsource rfl
  exact .edit (.join 0 1 (.inner (.tumblingCount 1) .pair)) hrepartition rfl

/-- The join of `Pipeline.oversized` is asked for three times, and in between a node that
does not exist. -/
theorem BuildSession.stable_under_retry_oversized :
    ∃ s₀ s', start .oversized Topology.empty default = .ok s₀ ∧
      (s₀.buildEach [2, 3]).build 2 = (.error (.invalidPartitions "repartition1" 5000), s') ∧
      (s₀.buildEach [2, 3]).InStep .oversized ∧
      (∀ entry ∈ s₀.history [2, 3], entry.2 = .ok ()) ∧
      ∃ s'', s'.build 2 = (.error (.invalidPartitions "repartition1" 5000), s'') ∧
        s'.SameStages s'' := by
  have hstart : start .oversized Topology.empty default = .ok (fresh .oversized .empty default) :=
    rfl
  have hfails : (((fresh .oversized Topology.empty default).buildEach [2, 3]).build 2).1 =
      .error (.invalidPartitions "repartition1" 5000) := by decide +kernel
  have hstable := stable_under_retry Pipeline.reachable_oversized hstart [2, 3]
  exact ⟨_, _, hstart, Prod.ext hfails rfl, hstable.1, hstable.2.1,
    hstable.2.2 2 _ _ (Prod.ext hfails rfl)⟩

end StreamPlan
