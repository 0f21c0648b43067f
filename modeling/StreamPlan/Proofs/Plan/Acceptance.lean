import StreamPlan.Proofs.Plan.History
import StreamPlan.Proofs.Plan.PlannedCalls
import StreamPlan.Proofs.Plan.Sessions

/-!
# What a sink has accepted when a build succeeds

A node is noted as a stage before the sink is told of it, and nothing is undone when the
sink refuses.  A later build then finds the node as a stage and goes on from there, so a
build may succeed although the sink has refused one of the stages below it
(`refused_stage_reused`).

That is all that can go wrong.  The calls for a stage are made once, right after the node
has been noted, and they are made up to the first refusal.  So each stage that a session
knows of has its calls in the history of the session: all of them, accepted, or those up
to one that was refused.

## Main definitions

* `PlanCall.stage` — the stage a call is about.
* `refuses` — some call about a stage was refused.
* `BuildSession.Answered` — every stage has its calls in the log.

## Main results

* `BuildSession.build_accepted` — **what was built and not refused has been accepted**,
  by every sink and after any builds.
-/

namespace StreamPlan

/-- The stage a call is about: the one that is added, or the one that gets an edge. -/
def PlanCall.stage : PlanCall → String
  | .register name _ _ => name
  | .wire consumer _ _ => consumer

/-- Some call about a stage was refused. -/
def refuses (log : List (PlanCall × Except PlanError Unit)) (stage : String) : Bool :=
  log.any fun entry => !entry.2.isOk && entry.1.stage == stage

theorem refuses_of_mem {log : List (PlanCall × Except PlanError Unit)} {call : PlanCall}
    {e : PlanError} (h : (call, .error e) ∈ log) : refuses log call.stage = true := by
  refine List.any_eq_true.mpr ⟨_, h, ?_⟩
  simp [Except.isOk, Except.toBool]

/-- Accepted calls are no refusals. -/
theorem refuses_append_accepted (log : List (PlanCall × Except PlanError Unit))
    (calls : List PlanCall) (stage : String) :
    refuses (log ++ calls.map fun call => (call, .ok ())) stage = refuses log stage := by
  simp [refuses, Except.isOk, Except.toBool]

/-- The calls that tell of a stage are about that stage. -/
theorem Pipeline.Announced.stage_eq {g : Pipeline} {stageName : NodeId → Option String}
    {seed : UInt64} {i : NodeId} {calls : List PlanCall} {stage : String}
    (h : g.Announced stageName seed i calls) (hstage : stageName i = some stage)
    {call : PlanCall} (hcall : call ∈ calls) : call.stage = stage := by
  obtain ⟨n, name, unit, inputs, -, hname, -, -, rfl⟩ := h
  cases hname.symm.trans hstage
  rcases List.mem_cons.mp hcall with rfl | hcall
  · rfl
  · obtain ⟨e, -, rfl⟩ := List.mem_map.mp hcall
    rfl

/-- A sink is asked until it refuses. -/
theorem Logged.exists_follows {σ : Type} [PlanSink σ] (l : Logged σ) (calls : List PlanCall) :
    ∃ part, (PlanSink.acceptAll l calls).2.log = l.log ++ part ∧
      Follows calls (.ok ()) part (PlanSink.acceptAll l calls).1 := by
  rcases l.acceptAll_cases calls with
    ⟨sink, -, hlogged⟩ | ⟨before, after, call, e, sink, hcalls, -, hlogged⟩
  · rw [hlogged]
    exact ⟨_, rfl, .accepted⟩
  · rw [hlogged]
    exact ⟨_, rfl, .refused hcalls⟩

namespace BuildSession

variable {σ : Type}

/-! ### The calls for each stage -/

/-- A session in which every stage has its calls in the log, up to a refusal. -/
structure Answered (g : Pipeline) (config : Config) (s : BuildSession (Logged σ)) : Prop where
  coherent : s.Coherent g
  config_eq : s.config = config
  calls : ∀ (i : NodeId) (stage : String), s.stageName? i = some stage →
    ∃ calls part answer, g.Announced s.stageName? config.routingSeed i calls ∧
      Follows calls (.ok ()) part answer ∧ part <:+: s.sink.log

theorem answered_fresh (g : Pipeline) (sink : σ) (config : Config) :
    (fresh g (Logged.new sink) config).Answered g config where
  coherent := coherent_fresh g (Logged.new sink) config
  config_eq := rfl
  calls := by simp [fresh, stageName?]

variable [PlanSink σ]

/-- Lowering a node adds its calls to the log, if it makes any. -/
theorem Answered.lower {g : Pipeline} {config : Config} {s : BuildSession (Logged σ)}
    (h : s.Answered g config) {id : NodeId} (hnew : s.built.contains id = false) :
    (s.lower id).2.Answered g config where
  coherent := h.coherent.lower hnew
  config_eq := by rw [config_lower, h.config_eq]
  calls := by
    refine lower_preserves
      (P := fun s' : BuildSession (Logged σ) => ∀ (i : NodeId) (stage : String),
        s'.stageName? i = some stage →
          ∃ calls part answer, g.Announced s'.stageName? config.routingSeed i calls ∧
            Follows calls (.ok ()) part answer ∧ part <:+: s'.sink.log)
      h.calls (fun _ => h.calls) ?_
    intro n unit inputs hnode hwiring _ _ i stage hi
    obtain ⟨part, hlog, hfollows⟩ :=
      s.sink.exists_follows (stageCalls (s.resolveName n).1 n.partitions unit inputs)
    have hgrown : (s.recorded id n unit inputs).sink.log = s.sink.log ++ part := hlog
    rw [hgrown, ← h.config_eq]
    rcases built_recorded_cases hi with ⟨rfl, -⟩ | ⟨-, hold⟩
    · exact ⟨_, part, _, h.coherent.announced_recorded hnode hwiring hnew, hfollows,
        (List.suffix_append _ _).isInfix⟩
    · obtain ⟨calls, part', answer, hcalls, hfollows', hpart⟩ := h.calls i stage hold
      rw [← h.config_eq] at hcalls
      refine ⟨calls, part', answer, ?_, hfollows', hpart.trans (List.prefix_append _ _).isInfix⟩
      exact hcalls.mono fun j name hj => built_recorded_of_built hnew hj

/-! ### Builds that succeed -/

/-- A build that succeeds has met no refusal. -/
theorem exists_log_of_build {s : BuildSession (Logged σ)} {t : NodeId} {name : String}
    (h : (s.build t).1 = .ok name) :
    ∃ calls : List PlanCall,
      (s.build t).2.sink.log = s.sink.log ++ calls.map fun call => (call, .ok ()) := by
  obtain ⟨calls, -, hdelivered⟩ := s.obeys_build [] t
  rcases s.sink.acceptAll_cases calls with ⟨sink, -, hlogged⟩ | ⟨_, _, _, e, _, -, -, hlogged⟩
  · rw [hdelivered.eq_of_ok hlogged]
    exact ⟨calls, rfl⟩
  · rw [(hdelivered.eq_of_error hlogged).1] at h
    cases h

/-- After a build that succeeds, a stage upstream of its node has its calls in the log,
and if none of them was refused before the build, then all are there. -/
theorem Answered.accepted_of_build {g : Pipeline} {config : Config} {s : BuildSession (Logged σ)}
    {t : NodeId} {name : String} (hok : (s.build t).1 = .ok name)
    (h : (s.build t).2.Answered g config) {i : NodeId} (hi : g.Upstream t i) :
    ∃ stage calls, (s.build t).2.stageName? i = some stage ∧
      g.Announced (s.build t).2.stageName? config.routingSeed i calls ∧
      (refuses s.sink.log stage = false →
        (calls.map fun call => (call, .ok ())) <:+: (s.build t).2.sink.log) := by
  have hbuilt : (s.build t).2.built.contains i = true :=
    h.coherent.contains_built_of_upstream hi (contains_built_iff.mpr ⟨name, built_of_build hok⟩)
  obtain ⟨stage, hstage⟩ := contains_built_iff.mp hbuilt
  obtain ⟨calls, part, answer, hcalls, hfollows, hpart⟩ := h.calls i stage hstage
  refine ⟨stage, calls, hstage, hcalls, fun hunrefused => ?_⟩
  cases hfollows with
  | accepted => exact hpart
  | @refused before after call e heq =>
    -- the refusal is in the log, and the build has not added it
    have hmem : (call, .error e) ∈ (s.build t).2.sink.log := hpart.subset (by simp)
    have hstage' : call.stage = stage := hcalls.stage_eq hstage (by simp [heq])
    have hrefused := refuses_of_mem hmem
    obtain ⟨more, hlog⟩ := exists_log_of_build hok
    rw [hlog, refuses_append_accepted, hstage', hunrefused] at hrefused
    cases hrefused

/-- **What was built and not refused has been accepted.**  Over every sink and after any
builds, failed ones included, a build that succeeds has a stage for everything upstream of
its node.  Unless a call about that stage was refused in an earlier build, the sink has
accepted all calls for it: its registration and one edge for each parent. -/
theorem build_accepted {g : Pipeline} {sink : σ} {config : Config} {s₀ : BuildSession σ}
    (hstart : start g sink config = .ok s₀) (ids : List NodeId) {t : NodeId} {name : String}
    (hok : ((s₀.buildEach ids).build t).1 = .ok name) :
    (s₀.buildEach (ids ++ [t])).stageName? t = some name ∧
      ∀ i, g.Upstream t i → ∃ stage calls,
        (s₀.buildEach (ids ++ [t])).stageName? i = some stage ∧
        g.Announced (s₀.buildEach (ids ++ [t])).stageName? config.routingSeed i calls ∧
        (refuses (s₀.history ids) stage = false →
          (calls.map fun call => (call, .ok ())) <:+: s₀.history (ids ++ [t])) := by
  obtain ⟨-, rfl⟩ := start_eq_ok_iff.mp hstart
  -- the same builds over a sink with a log
  have hanswered : ((fresh g (Logged.new sink) config).buildEach (ids ++ [t])).Answered g config :=
    buildEach_preserves (fun _ _ hs hnew => hs.lower hnew) (answered_fresh g sink config) _
  have hplain := withoutLog_logged_buildEach (fresh g sink config) ids
  rw [← hplain, isView_withoutLog.build] at hok
  rw [← withoutLog_logged_buildEach, history, history]
  rw [buildEach_append] at hanswered ⊢
  exact ⟨built_of_build hok, fun i hi => hanswered.accepted_of_build hok hi⟩

end BuildSession

/-! ### A refused stage -/

/-- A sink that refuses to register some names. -/
def refusing (names : List String) : Transcript :=
  .new fun call => match call with
    | .register name _ _ => if name ∈ names then some (.duplicateName name) else none
    | .wire _ _ _ => none

/-- The calls that were accepted. -/
def acceptedCalls (log : List (PlanCall × Except PlanError Unit)) : List PlanCall :=
  (log.filter fun entry => entry.2.isOk).map Prod.fst

namespace BuildSession

/-- The sink refuses the source of `Pipeline.diamond`, and a second build of the join
succeeds all the same. -/
theorem refused_stage_reused :
    Pipeline.diamond.Reachable ∧
    ∃ s₀ : BuildSession Transcript, start .diamond (refusing ["source1"]) default = .ok s₀ ∧
      (s₀.build 2).1 = .error (.duplicateName "source1") ∧
      ((s₀.buildEach [2]).build 2).1 = .ok "join1" ∧
      Pipeline.diamond.Upstream 2 0 ∧
      (s₀.buildEach [2, 2]).stageName? 0 = some "source1" ∧
      "source1" ∉ registeredNames (acceptedCalls (s₀.history [2, 2])) := by
  have hparent : Pipeline.diamond.HasParent 2 0 := ⟨_, rfl, by decide⟩
  refine ⟨Pipeline.reachable_diamond, fresh .diamond (refusing ["source1"]) default, rfl, ?_, ?_,
    .single hparent, ?_, ?_⟩
  · decide +kernel
  · decide +kernel
  · decide +kernel
  · decide +kernel

/-- In the same two builds, the sink has accepted the join. -/
theorem build_accepted_join :
    ∃ s₀ : BuildSession Transcript, start .diamond (refusing ["source1"]) default = .ok s₀ ∧
      ((s₀.buildEach [2]).build 2).1 = .ok "join1" ∧
      refuses (s₀.history [2]) "join1" = false ∧
      ∃ calls, Pipeline.diamond.Announced (s₀.buildEach [2, 2]).stageName? 0 2 calls ∧
        (calls.map fun call => (call, .ok ())) <:+: s₀.history [2, 2] := by
  have hstart : start .diamond (refusing ["source1"]) default =
      .ok (fresh .diamond (refusing ["source1"]) default) := rfl
  have hok : (((fresh .diamond (refusing ["source1"]) default).buildEach [2]).build 2).1 =
      .ok "join1" := by decide +kernel
  have hunrefused : refuses ((fresh .diamond (refusing ["source1"]) default).history [2]) "join1" =
      false := by decide +kernel
  obtain ⟨hname, hall⟩ := build_accepted hstart [2] hok
  obtain ⟨stage, calls, hstage, hcalls, haccepted⟩ := hall 2 .refl
  cases hname.symm.trans hstage
  exact ⟨_, hstart, hok, hunrefused, calls, hcalls, haccepted hunrefused⟩

end BuildSession
end StreamPlan
