import StreamPlan.Proofs.Plan.TopologySessions

/-!
# End nodes that need not be asked for

A build that succeeds makes stages of everything upstream of its end node, and a stage is
never built again.  So an end node that is upstream of an earlier one, or is the same, comes
too late to do anything: when its turn comes it is a stage, or an earlier failure has ended
the build.  It may be left out, whatever the sink answers.

## Main definitions

* `Pipeline.Thins` — end nodes are left out that are upstream of earlier ones.

## Main results

* `Pipeline.Thins.buildAll_eq` — builds do the same without such nodes, from any session
  that has built what comes before.
* `buildPlan_redundant` — **an end node that is upstream of an earlier one makes no
  difference.**
-/

namespace StreamPlan

namespace Pipeline

/-- The nodes `kept` are the nodes `ts` without some that are upstream of ones before them.
The nodes `seen` come before all of `ts`. -/
inductive Thins (g : Pipeline) : List NodeId → List NodeId → List NodeId → Prop
  | nil (seen : List NodeId) : Thins g seen [] []
  /-- A node is kept. -/
  | keep {seen ts kept : List NodeId} (t : NodeId) (h : Thins g (t :: seen) ts kept) :
    Thins g seen (t :: ts) (t :: kept)
  /-- A node is left out, but others may still be upstream of it. -/
  | drop {seen ts kept : List NodeId} {t : NodeId} (ht : g.UpstreamOfAny seen t)
    (h : Thins g (t :: seen) ts kept) : Thins g seen (t :: ts) kept

section Thins

variable {g : Pipeline} {seen ts : List NodeId}

theorem thins_refl (g : Pipeline) (seen ts : List NodeId) : g.Thins seen ts ts := by
  induction ts generalizing seen with
  | nil => exact .nil seen
  | cons t ts ih => exact .keep t (ih (t :: seen))

/-- One node that is upstream of an earlier one is left out. -/
theorem thins_of_upstream {before after : List NodeId} {t : NodeId}
    (ht : g.UpstreamOfAny (before.reverse ++ seen) t) :
    g.Thins seen (before ++ t :: after) (before ++ after) := by
  induction before generalizing seen with
  | nil => exact .drop ht (g.thins_refl (t :: seen) after)
  | cons t' before ih =>
    refine .keep t' (ih ?_)
    rw [List.reverse_cons, List.append_assoc, List.singleton_append] at ht
    exact ht

/-- **Builds do the same without nodes that are upstream of earlier ones**, from any session
that has built the earlier ones. -/
theorem Thins.buildAll_eq {σ : Type} [PlanSink σ] (hg : g.WellFormed) {kept : List NodeId}
    (h : g.Thins seen ts kept) {s : BuildSession σ} (hs : s.Coherent g)
    (hseen : ∀ i ∈ seen, s.built.contains i = true) : s.buildAll ts = s.buildAll kept := by
  induction h generalizing s with
  | nil => rfl
  | @keep seen ts kept t _ ih =>
    have hcoherent := hs.after (.build t .refl)
    have hafter : s.After (s.build t).2 := .build t .refl
    rw [BuildSession.buildAll_cons, BuildSession.buildAll_cons]
    rcases hbuild : s.build t with ⟨e | name, s'⟩
    · rfl
    · have hok : (s.build t).1 = .ok name := by rw [hbuild]
      have hname := BuildSession.built_of_build hok
      rw [hbuild] at hcoherent hafter hname
      refine ih hcoherent fun i hi => ?_
      rcases List.mem_cons.mp hi with rfl | hi
      · exact BuildSession.contains_built_iff.mpr ⟨name, hname⟩
      · obtain ⟨stage, hstage⟩ := BuildSession.contains_built_iff.mp (hseen i hi)
        exact BuildSession.contains_built_iff.mpr ⟨stage, hafter.stageName? hstage⟩
  | @drop seen ts kept t ht _ ih =>
    -- an earlier node is a stage, and so is everything upstream of it
    obtain ⟨root, hroot, hup⟩ := ht
    have hbuilt : s.built.contains t = true := hs.contains_built_of_upstream hup (hseen root hroot)
    obtain ⟨name, hname⟩ := BuildSession.contains_built_iff.mp hbuilt
    rw [BuildSession.buildAll_cons, hs.build_of_stage hg hname]
    refine ih hs fun i hi => ?_
    rcases List.mem_cons.mp hi with rfl | hi
    · exact hbuilt
    · exact hseen i hi

/-- Whole builds, too, do the same without such nodes. -/
theorem Thins.run_eq {σ : Type} [PlanSink σ] (hg : g.WellFormed) {kept : List NodeId}
    (h : g.Thins [] ts kept) (sink : σ) (config : Config) :
    g.run ts sink config = g.run kept sink config := by
  unfold run
  cases config.validate with
  | error e => rfl
  | ok u =>
    refine h.buildAll_eq hg (BuildSession.coherent_fresh g sink config) ?_
    intro i hi
    cases hi

end Thins

end Pipeline

/-- **An end node that is upstream of an earlier one makes no difference.**  With it and
without it a build makes the same calls and gets the same answers, whatever its sink; it
succeeds with the same sink or fails with the same error; and the pipeline comes back with
the same names. -/
theorem buildPlan_redundant {g : Pipeline} (hg : g.Reachable) {before : List NodeId} {t : NodeId}
    (ht : g.UpstreamOfAny before t) (after : List NodeId) {σ : Type} [PlanSink σ] (sink : σ)
    (config : Config) :
    g.dialogue (before ++ t :: after) sink config = g.dialogue (before ++ after) sink config ∧
      g.buildPlan (before ++ t :: after) sink config =
        g.buildPlan (before ++ after) sink config := by
  have hthins : g.Thins [] (before ++ t :: after) (before ++ after) := by
    apply Pipeline.thins_of_upstream
    obtain ⟨root, hroot, hup⟩ := ht
    exact ⟨root, by simpa using hroot, hup⟩
  constructor
  · rw [Pipeline.dialogue, Pipeline.dialogue, hthins.run_eq hg.wellFormed]
  · rw [Pipeline.buildPlan_eq_run, Pipeline.buildPlan_eq_run, hthins.run_eq hg.wellFormed]

/-- A sink that takes no joins. -/
def joinless : Transcript :=
  .new fun call => match call with
    | .register name _ (.join _) => some (.duplicateName name)
    | _ => none

/-- The source of `Pipeline.diamond` is asked for after the map that reads it and before the
join, which is refused. -/
theorem buildPlan_redundant_diamond :
    Pipeline.diamond.Reachable ∧ Pipeline.diamond.UpstreamOfAny [1] 0 ∧
      (Pipeline.diamond.dialogue [1, 0, 2] joinless default).map Prod.snd =
        [.ok (), .ok (), .ok (), .error (.duplicateName "join1")] ∧
      Pipeline.diamond.dialogue [1, 0, 2] joinless default =
        Pipeline.diamond.dialogue [1, 2] joinless default ∧
      Pipeline.diamond.buildPlan [1, 0, 2] joinless default =
        Pipeline.diamond.buildPlan [1, 2] joinless default := by
  have hup : Pipeline.diamond.UpstreamOfAny [1] 0 :=
    ⟨1, List.mem_cons_self, .single ⟨_, rfl, List.mem_cons_self⟩⟩
  have hanswers : (Pipeline.diamond.dialogue [1, 0, 2] joinless default).map Prod.snd =
      [.ok (), .ok (), .ok (), .error (.duplicateName "join1")] := by
    decide +kernel
  have hsame := buildPlan_redundant Pipeline.reachable_diamond hup [2] joinless default
  exact ⟨Pipeline.reachable_diamond, hup, hanswers, hsame.1, hsame.2⟩

end StreamPlan
