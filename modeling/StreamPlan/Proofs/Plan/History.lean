import StreamPlan.Proofs.Plan.Dialogue

/-!
# Builds in a row

A session can be asked for one node after another, and a failed build does not end it.
This file follows such builds together with everything the sink was asked and what it
answered.

The answers are read off the same builds over a sink with a log.  That the log changes
nothing is a case of a more general fact: the planner looks at a session through the
pipeline, the names and the stages, so a change of session that lowerings do not notice
is not noticed by builds either.

## Main definitions

* `BuildSession.recast` — a session over another sink and with other settings.
* `BuildSession.IsView` — a change of session that lowerings do not notice.
* `BuildSession.buildEach` — builds in a row, whether or not they fail.
* `BuildSession.history` — what the sink was asked in such builds, and its answers.

## Main results

* `BuildSession.IsView.build`, `BuildSession.IsView.buildAll` — **what lowerings do not
  notice, builds do not notice.**
* `BuildSession.withoutLog_buildEach` — the log changes nothing.
-/

namespace StreamPlan

namespace PlanSink

variable {σ τ : Type} [PlanSink σ] [PlanSink τ]

theorem acceptAll_map {φ : τ → σ}
    (hφ : ∀ sink call, accept (φ sink) call = Prod.map id φ (accept sink call))
    (sink : τ) (calls : List PlanCall) :
    acceptAll (φ sink) calls = Prod.map id φ (acceptAll sink calls) := by
  induction calls generalizing sink with
  | nil => rfl
  | cons call calls ih =>
    rw [acceptAll, acceptAll, hφ]
    rcases accept sink call with ⟨e | u, sink'⟩
    · rfl
    · exact ih sink'

end PlanSink

namespace BuildSession

variable {σ τ α β : Type}

/-! ### Changes that are not noticed -/

/-- The session over another sink and with other settings. -/
def recast (φ : τ → σ) (κ : Config → Config) (s : BuildSession τ) : BuildSession σ where
  pipeline := s.pipeline
  sink := φ s.sink
  config := κ s.config
  names := s.names
  built := s.built

theorem andThen_map {view : BuildSession τ → BuildSession σ}
    {out : Except PlanError α × BuildSession τ}
    {next : α → BuildSession τ → Except PlanError β × BuildSession τ}
    {next' : α → BuildSession σ → Except PlanError β × BuildSession σ}
    (hnext : ∀ a s, next' a (view s) = Prod.map id view (next a s)) :
    andThen (Prod.map id view out) next' = Prod.map id view (andThen out next) := by
  rcases out with ⟨e | a, s⟩
  · rfl
  · exact hnext a s

variable [PlanSink σ] [PlanSink τ]

/-- A change of session that keeps what the walk looks at and that lowerings do not
notice. -/
structure IsView (view : BuildSession τ → BuildSession σ) : Prop where
  pipeline_eq : ∀ s, (view s).pipeline = s.pipeline
  built_eq : ∀ s, (view s).built = s.built
  lower_eq : ∀ s i, (view s).lower i = Prod.map id view (s.lower i)

/-- A sink that answers alike is not noticed, nor are settings with the same seed and the
same limit. -/
theorem isView_recast {φ : τ → σ} {κ : Config → Config}
    (hφ : ∀ sink call, PlanSink.accept (φ sink) call = Prod.map id φ (PlanSink.accept sink call))
    (hseed : ∀ config, (κ config).routingSeed = config.routingSeed)
    (hmax : ∀ config, (κ config).maxPartitions = config.maxPartitions) :
    IsView (recast φ κ) where
  pipeline_eq := fun _ => rfl
  built_eq := fun _ => rfl
  lower_eq := by
    intro s i
    have hwire : ∀ n, (s.recast φ κ).wiring i n = s.wiring i n := by
      intro n
      simp only [wiring, recast, hseed]
      rfl
    have hallow : ∀ partitions, (s.recast φ κ).allows partitions = s.allows partitions := by
      intro partitions
      simp only [allows, recast, hmax]
    have hlow := lowered_lower s i
    have hpair : s.lower i = ((s.lower i).1, (s.lower i).2) := rfl
    rw [hpair]
    generalize (s.lower i).1 = r at hlow
    generalize (s.lower i).2 = s' at hlow
    cases hlow with
    | unknown hnode => exact Lowered.lower_eq (s := s.recast φ κ) (.unknown hnode)
    | unwired hnode hwiring =>
      exact Lowered.lower_eq (s := s.recast φ κ) (.unwired hnode ((hwire _).trans hwiring))
    | taken hnode hwiring htaken =>
      exact Lowered.lower_eq (s := s.recast φ κ) (.taken hnode ((hwire _).trans hwiring) htaken)
    | disallowed hnode hwiring hfree hallows =>
      exact Lowered.lower_eq (s := s.recast φ κ)
        (.disallowed hnode ((hwire _).trans hwiring) hfree ((hallow _).trans hallows))
    | @recorded n unit inputs hnode hwiring hfree hallows =>
      have hsent := PlanSink.acceptAll_map hφ s.sink
        (stageCalls (s.resolveName n).1 n.partitions unit inputs)
      rw [Lowered.lower_eq (s := s.recast φ κ)
        (.recorded hnode ((hwire _).trans hwiring) hfree ((hallow _).trans hallows))]
      exact congrArg (fun answer : Except PlanError Unit × σ =>
        (answer.1.map fun _ => (s.resolveName n).1,
          { (s.recorded i n unit inputs).recast φ κ with sink := answer.2 })) hsent

section IsView

variable {view : BuildSession τ → BuildSession σ}

theorem IsView.step (h : IsView view) (s : BuildSession τ) (f : Frame) :
    (view s).step f = Prod.map id view (s.step f) := by
  cases hbuilt : s.built.contains f.node with
  | true =>
    have hother : (view s).built.contains f.node = true := by rw [h.built_eq, hbuilt]
    rw [step_of_built hbuilt, step_of_built hother]
    rfl
  | false =>
    have hother : (view s).built.contains f.node = false := by rw [h.built_eq, hbuilt]
    cases f with
    | visit i =>
      rw [Frame.node] at hbuilt hother
      have hexpand : (view s).expand i = s.expand i := by
        simp only [expand, h.pipeline_eq, h.built_eq]
      rw [step_visit hbuilt, step_visit hother, hexpand]
      rfl
    | finish i =>
      rw [Frame.node] at hbuilt hother
      rw [step_finish_eq_andThen hbuilt, step_finish_eq_andThen hother, h.lower_eq]
      exact andThen_map fun _ _ => rfl

theorem IsView.walk (h : IsView view) (steps : Nat) (frames : List Frame) (s : BuildSession τ) :
    BuildSession.walk steps frames (view s) =
      Prod.map id view (BuildSession.walk steps frames s) := by
  induction steps generalizing frames s with
  | zero => rfl
  | succ steps ih =>
    cases frames with
    | nil => rfl
    | cons f frames =>
      rw [walk_cons, walk_cons, h.step]
      exact andThen_map fun pushed s' => ih (pushed ++ frames) s'

/-- **What lowerings do not notice, a build does not notice.** -/
theorem IsView.build (h : IsView view) (s : BuildSession τ) (t : NodeId) :
    (view s).build t = Prod.map id view (s.build t) := by
  cases hnode : s.pipeline.nodes[t]? with
  | none =>
    have hother : (view s).pipeline.nodes[t]? = none := by rw [h.pipeline_eq, hnode]
    rw [build_of_unknown hnode, build_of_unknown hother]
    rfl
  | some n =>
    have hother : (view s).pipeline.nodes[t]? = some n := by rw [h.pipeline_eq, hnode]
    have hstage : ∀ s' : BuildSession τ, (view s').stageOf t t = s'.stageOf t t := by
      intro s'
      simp only [stageOf, h.built_eq]
    rw [build_eq_visit hnode, build_eq_visit hother, visit_eq_andThen, visit_eq_andThen,
      h.pipeline_eq, h.walk]
    refine andThen_map fun _ s' => ?_
    rw [hstage]
    rfl

theorem IsView.buildAll (h : IsView view) (s : BuildSession τ) (ts : List NodeId) :
    (view s).buildAll ts = Prod.map id view (s.buildAll ts) := by
  induction ts generalizing s with
  | nil => rfl
  | cons t ts ih =>
    rw [buildAll_cons, buildAll_cons, h.build]
    exact andThen_map fun _ s' => ih s'

end IsView

/-! ### Builds in a row -/

/-- Builds nodes one after another, whether or not builds fail. -/
def buildEach (s : BuildSession σ) : List NodeId → BuildSession σ
  | [] => s
  | t :: ts => (s.build t).2.buildEach ts

theorem buildEach_append (s : BuildSession σ) (ids more : List NodeId) :
    s.buildEach (ids ++ more) = (s.buildEach ids).buildEach more := by
  induction ids generalizing s with
  | nil => rfl
  | cons t ts ih => exact ih (s.build t).2

theorem After.buildEach {s₀ s : BuildSession σ} (h : s₀.After s) (ids : List NodeId) :
    s₀.After (s.buildEach ids) := by
  induction ids generalizing s with
  | nil => exact h
  | cons t ts ih => exact ih (h.build t)

/-- What lowerings keep, builds in a row keep. -/
theorem buildEach_preserves {P : BuildSession σ → Prop}
    (hlower : ∀ s i, P s → s.built.contains i = false → P (s.lower i).2) {s : BuildSession σ}
    (hs : P s) (ids : List NodeId) : P (s.buildEach ids) :=
  (After.refl.buildEach ids).invariant hlower hs

/-! ### What the sink was told -/

/-- The session over the sink below its log. -/
def withoutLog (s : BuildSession (Logged σ)) : BuildSession σ := s.recast Logged.sink id

theorem isView_withoutLog : IsView (withoutLog (σ := σ)) := by
  refine isView_recast (fun l call => ?_) (fun _ => rfl) (fun _ => rfl)
  rw [Logged.accept_eq]
  rfl

/-- The log changes nothing. -/
theorem withoutLog_buildEach (s : BuildSession (Logged σ)) (ids : List NodeId) :
    (s.buildEach ids).withoutLog = s.withoutLog.buildEach ids := by
  induction ids generalizing s with
  | nil => rfl
  | cons t ts ih =>
    rw [buildEach, buildEach, isView_withoutLog.build]
    exact ih (s.build t).2

/-- What the sink was asked in builds in a row, and its answers. -/
def history (s : BuildSession σ) (ids : List NodeId) : List (PlanCall × Except PlanError Unit) :=
  (s.logged.buildEach ids).sink.log

theorem withoutLog_logged_buildEach (s : BuildSession σ) (ids : List NodeId) :
    (s.logged.buildEach ids).withoutLog = s.buildEach ids :=
  withoutLog_buildEach s.logged ids

end BuildSession
end StreamPlan
