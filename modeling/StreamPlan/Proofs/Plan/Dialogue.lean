import StreamPlan.Plan.Compile
import StreamPlan.Proofs.Plan.Builds

/-!
# What a build tells its sink

A build talks to its sink call by call, and a refused call ends it.  Apart from that
the planner pays no attention to the answers: the calls are fixed by the pipeline, the
end nodes and the settings, and the sink only decides how many of them it gets to see.

To show this, a run over any sink is compared with a run over a sink that takes
everything, `heard`.  The two runs go through the same sessions, but for the sink, up
to the first refusal; the calls that the second run has noted are sent to the sink of
the first by `acceptAll`, which stops at a refusal as well.

## Main definitions

* `Pipeline.run`, `Pipeline.dialogue` — a build up to its end, and its calls with the
  answers.
* `BuildSession.Obeys` — a run over a sink next to a run over one that takes everything.
* `Follows` — a dialogue that goes through given calls up to the first refusal.

## Main results

* `Pipeline.buildPlan_fst_eq_acceptAll` — **the sink that comes back is the one that the
  planned calls lead to.**
* `Pipeline.follows_dialogue` — **a build makes the planned calls up to the first
  refusal**, whatever its sink.
-/

namespace StreamPlan

/-! ### Sinks -/

/-- A transcript that refuses nothing, after some calls. -/
def heard (calls : List PlanCall) : Transcript := ⟨fun _ => none, calls.toArray⟩

theorem accept_heard (before : List PlanCall) (call : PlanCall) :
    PlanSink.accept (heard before) call = (.ok (), heard (before ++ [call])) := by
  have hpush : before.toArray.push call = (before ++ [call]).toArray := by simp
  cases call with
  | register name partitions unit =>
    simp only [PlanSink.accept, PlanSink.register, Transcript.note, heard, hpush]
    rfl
  | wire consumer producer grouping =>
    simp only [PlanSink.accept, PlanSink.wire, Transcript.note, heard, hpush]

theorem acceptAll_heard (before calls : List PlanCall) :
    PlanSink.acceptAll (heard before) calls = (.ok (), heard (before ++ calls)) := by
  induction calls generalizing before with
  | nil => rw [List.append_nil]; rfl
  | cons call calls ih =>
    rw [PlanSink.acceptAll, accept_heard]
    dsimp only
    rw [ih, List.append_assoc, List.singleton_append]

/-- What a dialogue and its end look like, when the calls of an undisturbed build are
`calls` and its answer is `answer`. -/
inductive Follows (calls : List PlanCall) (answer : Except PlanError Unit) :
    List (PlanCall × Except PlanError Unit) → Except PlanError Unit → Prop
  /-- All calls are made and accepted. -/
  | accepted : Follows calls answer (calls.map fun call => (call, .ok ())) answer
  /-- A call is refused: it is the last one, and its error is the answer. -/
  | refused {before after : List PlanCall} {call : PlanCall} {e : PlanError}
    (h : calls = before ++ call :: after) :
    Follows calls answer (before.map (fun call => (call, .ok ())) ++ [(call, .error e)]) (.error e)

/-- A log shows the calls that were accepted and the one that was refused, if any.  The
sink below it gets the same calls. -/
theorem Logged.acceptAll_cases {σ : Type} [PlanSink σ] (l : Logged σ) (calls : List PlanCall) :
    (∃ sink, PlanSink.acceptAll l.sink calls = (.ok (), sink) ∧
      PlanSink.acceptAll l calls = (.ok (), ⟨sink, l.log ++ calls.map fun call => (call, .ok ())⟩)) ∨
    ∃ before after call e sink, calls = before ++ call :: after ∧
      PlanSink.acceptAll l.sink calls = (.error e, sink) ∧
      PlanSink.acceptAll l calls = (.error e,
        ⟨sink, l.log ++ (before.map (fun call => (call, .ok ())) ++ [(call, .error e)])⟩) := by
  induction calls generalizing l with
  | nil =>
    refine Or.inl ⟨l.sink, rfl, ?_⟩
    rw [PlanSink.acceptAll_nil, List.map_nil, List.append_nil]
  | cons call calls ih =>
    rw [PlanSink.acceptAll, PlanSink.acceptAll, Logged.accept_eq]
    rcases hcall : PlanSink.accept l.sink call with ⟨e | ⟨⟩, sink⟩
    · exact Or.inr ⟨[], calls, call, e, sink, rfl, rfl, rfl⟩
    · dsimp only
      rcases ih ⟨sink, l.log ++ [(call, .ok ())]⟩ with
        ⟨sink', hplain, hlogged⟩ | ⟨before, after, call', e, sink', rfl, hplain, hlogged⟩
      · refine Or.inl ⟨sink', hplain, ?_⟩
        rw [hlogged, List.map_cons, List.append_assoc, List.singleton_append]
      · refine Or.inr ⟨call :: before, after, call', e, sink', rfl, hplain, ?_⟩
        rw [hlogged, List.map_cons, List.cons_append, List.append_assoc, List.singleton_append]

namespace BuildSession

variable {σ τ α β : Type}

/-! ### Two runs in step -/

/-- The same session over another sink. -/
def withSink (s : BuildSession τ) (sink : σ) : BuildSession σ where
  pipeline := s.pipeline
  sink := sink
  config := s.config
  names := s.names
  built := s.built

variable [PlanSink σ]

/-- What a run over `sink` comes to, when a run over a sink that takes everything makes
the calls `calls` and comes to `out`.  It is the same, unless a call is refused. -/
inductive Delivered (sink : σ) (calls : List PlanCall)
    (out : Except PlanError α × BuildSession Transcript) :
    Except PlanError α × BuildSession σ → Prop
  | accepted {sink' : σ} (h : PlanSink.acceptAll sink calls = (.ok (), sink')) :
    Delivered sink calls out (out.1, out.2.withSink sink')
  | refused {e : PlanError} {s' : BuildSession σ}
    (h : PlanSink.acceptAll sink calls = (.error e, s'.sink)) :
    Delivered sink calls out (.error e, s')

theorem Delivered.of_acceptAll_eq {sink sink' : σ} {calls calls' : List PlanCall}
    {out : Except PlanError α × BuildSession Transcript}
    {run : Except PlanError α × BuildSession σ} (h : Delivered sink' calls' out run)
    (heq : PlanSink.acceptAll sink calls = PlanSink.acceptAll sink' calls') :
    Delivered sink calls out run := by
  cases h with
  | accepted h => exact .accepted (heq.trans h)
  | refused h => exact .refused (heq.trans h)

/-- A run from `s` comes to `run`, and the same run over a sink that takes everything and
has heard `before` comes to `out`. -/
def Obeys (s : BuildSession σ) (before : List PlanCall)
    (out : Except PlanError α × BuildSession Transcript)
    (run : Except PlanError α × BuildSession σ) : Prop :=
  ∃ calls, out.2.sink = heard (before ++ calls) ∧ Delivered s.sink calls out run

/-- A run without calls. -/
theorem obeys_of_sink_eq {s s' : BuildSession σ} (h : s'.sink = s.sink) (before : List PlanCall)
    (r : Except PlanError α) : Obeys s before (r, s'.withSink (heard before)) (r, s') := by
  refine ⟨[], ?_, ?_⟩
  · rw [List.append_nil]
    rfl
  · have hsame : s' = (s'.withSink (heard before)).withSink s.sink := by
      rw [← h]
      rfl
    nth_rewrite 2 [hsame]
    exact .accepted rfl

theorem Obeys.andThen {s : BuildSession σ} {before : List PlanCall}
    {out : Except PlanError α × BuildSession Transcript} {run : Except PlanError α × BuildSession σ}
    (h : Obeys s before out run)
    {next : α → BuildSession Transcript → Except PlanError β × BuildSession Transcript}
    {next' : α → BuildSession σ → Except PlanError β × BuildSession σ}
    (hnext : ∀ a s' before', Obeys s' before' (next a (s'.withSink (heard before'))) (next' a s')) :
    Obeys s before (BuildSession.andThen out next) (BuildSession.andThen run next') := by
  obtain ⟨calls, hsink, hdelivered⟩ := h
  rcases out with ⟨e | a, t⟩
  · -- the planner has failed by itself, at a point that the other run may not reach
    cases hdelivered with
    | accepted h => exact ⟨calls, hsink, .accepted h⟩
    | refused h => exact ⟨calls, hsink, .refused h⟩
  · -- the next run goes on from the session `t`, over either sink
    have hback : ∀ sink : σ, (t.withSink sink).withSink (heard (before ++ calls)) = t := by
      intro sink
      rw [← hsink]
      rfl
    cases hdelivered with
    | @accepted sink h =>
      obtain ⟨more, hsink', hdelivered'⟩ := hnext a (t.withSink sink) (before ++ calls)
      rw [hback] at hsink' hdelivered'
      refine ⟨calls ++ more, ?_, hdelivered'.of_acceptAll_eq ?_⟩
      · rw [← List.append_assoc]
        exact hsink'
      · rw [PlanSink.acceptAll_append, h]
        rfl
    | @refused e s' h =>
      obtain ⟨more, hsink', -⟩ := hnext a (t.withSink s'.sink) (before ++ calls)
      rw [hback] at hsink'
      refine ⟨calls ++ more, ?_, .refused ?_⟩
      · rw [← List.append_assoc]
        exact hsink'
      · rw [PlanSink.acceptAll_append, h]

/-- A search for a name makes no calls. -/
theorem obeys_searched (s : BuildSession σ) (n : Node) (before : List PlanCall)
    (r : Except PlanError α) :
    Obeys s before (r, withSink { s with names := (s.resolveName n).2 } (heard before))
      (r, { s with names := (s.resolveName n).2 }) := by
  have hsink : BuildSession.sink { s with names := (s.resolveName n).2 } = s.sink := rfl
  exact obeys_of_sink_eq hsink before r

/-- Lowering decides by the session alone what to tell the sink. -/
theorem Lowered.obeys {s s' : BuildSession σ} {id : NodeId} {r : Except PlanError String}
    (h : Lowered s id r s') (before : List PlanCall) :
    Obeys s before ((s.withSink (heard before)).lower id) (r, s') := by
  cases h with
  | unknown hnode =>
    rw [Lowered.lower_eq (s := s.withSink (heard before)) (.unknown hnode)]
    exact obeys_of_sink_eq rfl before _
  | unwired hnode hwiring =>
    rw [Lowered.lower_eq (s := s.withSink (heard before)) (.unwired hnode hwiring)]
    exact obeys_of_sink_eq rfl before _
  | @taken n w hnode hwiring htaken =>
    rw [Lowered.lower_eq (s := s.withSink (heard before)) (.taken hnode hwiring htaken)]
    exact s.obeys_searched n before _
  | @disallowed n w hnode hwiring hfree hallows =>
    rw [Lowered.lower_eq (s := s.withSink (heard before)) (.disallowed hnode hwiring hfree hallows)]
    exact s.obeys_searched n before _
  | @recorded n unit inputs hnode hwiring hfree hallows =>
    set calls := stageCalls (s.resolveName n).1 n.partitions unit inputs
    set s' := s.recorded id n unit inputs
    have hheard := acceptAll_heard before calls
    have hlower : (s.withSink (heard before)).lower id =
        (.ok (s.resolveName n).1, s'.withSink (heard (before ++ calls))) := by
      rw [Lowered.lower_eq (s := s.withSink (heard before)) (.recorded hnode hwiring hfree hallows)]
      exact congrArg (fun answer : Except PlanError Unit × Transcript =>
        (answer.1.map fun _ => (s.resolveName n).1, s'.withSink answer.2)) hheard
    rw [hlower]
    refine ⟨calls, rfl, ?_⟩
    rcases hreal : PlanSink.acceptAll s.sink calls with ⟨e | u, sink⟩
    · have hsink : s'.sink = sink := congrArg Prod.snd hreal
      rw [← hsink] at hreal
      exact .refused hreal
    · have hsink : s'.sink = sink := congrArg Prod.snd hreal
      rw [← hsink] at hreal
      exact .accepted hreal

theorem obeys_lower (s : BuildSession σ) (before : List PlanCall) (id : NodeId) :
    Obeys s before ((s.withSink (heard before)).lower id) (s.lower id) :=
  (lowered_lower s id).obeys before

theorem obeys_step (s : BuildSession σ) (before : List PlanCall) (f : Frame) :
    Obeys s before ((s.withSink (heard before)).step f) (s.step f) := by
  cases hbuilt : s.built.contains f.node with
  | true =>
    have hother : (s.withSink (heard before)).step f = _ := step_of_built hbuilt
    rw [hother, step_of_built hbuilt]
    exact obeys_of_sink_eq rfl before _
  | false =>
    cases f with
    | visit id =>
      have hother : (s.withSink (heard before)).step (.visit id) = _ := step_visit hbuilt
      rw [hother, step_visit (show s.built.contains id = false from hbuilt)]
      exact obeys_of_sink_eq rfl before _
    | finish id =>
      have hother : (s.withSink (heard before)).step (.finish id) = _ :=
        step_finish_eq_andThen hbuilt
      rw [hother, step_finish_eq_andThen (show s.built.contains id = false from hbuilt)]
      exact (obeys_lower s before id).andThen fun _ _ before' => obeys_of_sink_eq rfl before' _

theorem obeys_walk (steps : Nat) (frames : List Frame) (s : BuildSession σ)
    (before : List PlanCall) :
    Obeys s before (walk steps frames (s.withSink (heard before))) (walk steps frames s) := by
  induction steps generalizing frames s before with
  | zero => exact obeys_of_sink_eq rfl before _
  | succ steps ih =>
    cases frames with
    | nil => exact obeys_of_sink_eq rfl before _
    | cons f frames =>
      rw [walk_cons, walk_cons]
      exact (obeys_step s before f).andThen fun pushed s' before' => ih (pushed ++ frames) s' before'

theorem obeys_build (s : BuildSession σ) (before : List PlanCall) (t : NodeId) :
    Obeys s before ((s.withSink (heard before)).build t) (s.build t) := by
  cases hnode : s.pipeline.nodes[t]? with
  | none =>
    have hother : (s.withSink (heard before)).build t = _ := build_of_unknown hnode
    rw [hother, build_of_unknown hnode]
    exact obeys_of_sink_eq rfl before _
  | some n =>
    have hother : (s.withSink (heard before)).build t = _ := build_eq_visit hnode
    rw [hother, build_eq_visit hnode, visit_eq_andThen, visit_eq_andThen]
    exact (obeys_walk _ _ s before).andThen fun _ _ before' => obeys_of_sink_eq rfl before' _

/-- **A run over any sink keeps step with a run over a sink that takes everything**, up
to the first refusal. -/
theorem obeys_buildAll (s : BuildSession σ) (before : List PlanCall) (ts : List NodeId) :
    Obeys s before ((s.withSink (heard before)).buildAll ts) (s.buildAll ts) := by
  induction ts generalizing s before with
  | nil => exact obeys_of_sink_eq rfl before _
  | cons t ts ih =>
    rw [buildAll_cons, buildAll_cons]
    exact (obeys_build s before t).andThen fun _ s' before' => ih s' before'

theorem Delivered.eq_of_ok {sink sink' : σ} {calls : List PlanCall}
    {out : Except PlanError α × BuildSession Transcript}
    {run : Except PlanError α × BuildSession σ} (h : Delivered sink calls out run)
    (hok : PlanSink.acceptAll sink calls = (.ok (), sink')) :
    run = (out.1, out.2.withSink sink') := by
  cases h with
  | accepted h =>
    cases h.symm.trans hok
    rfl
  | refused h => cases h.symm.trans hok

theorem Delivered.eq_of_error {sink sink' : σ} {calls : List PlanCall} {e : PlanError}
    {out : Except PlanError α × BuildSession Transcript}
    {run : Except PlanError α × BuildSession σ} (h : Delivered sink calls out run)
    (herror : PlanSink.acceptAll sink calls = (.error e, sink')) :
    run.1 = .error e ∧ run.2.sink = sink' := by
  cases h with
  | accepted h => cases h.symm.trans herror
  | refused h =>
    cases h.symm.trans herror
    exact ⟨rfl, rfl⟩

end BuildSession

/-! ### Whole builds -/

namespace Pipeline

variable {σ : Type} [PlanSink σ]

/-- A build up to its end: its answer and its session.  A build that cannot start has a
session without stages. -/
def run (g : Pipeline) (terminals : List NodeId) (sink : σ) (config : Config) :
    Except PlanError Unit × BuildSession σ :=
  match config.validate with
  | .ok _ => (BuildSession.fresh g sink config).buildAll terminals
  | .error e => (.error e, BuildSession.fresh g sink config)

theorem run_preserves {P : BuildSession σ → Prop} {g : Pipeline} {terminals : List NodeId}
    {sink : σ} {config : Config} (hfresh : P (.fresh g sink config))
    (hbuild : P ((BuildSession.fresh g sink config).buildAll terminals).2) :
    P (g.run terminals sink config).2 := by
  unfold run
  cases config.validate with
  | error e => exact hfresh
  | ok u => exact hbuild

/-- What lowerings of any new nodes keep, a run keeps. -/
theorem run_invariant {P : BuildSession σ → Prop}
    (hlower : ∀ s id, P s → s.built.contains id = false → P (s.lower id).2) {g : Pipeline}
    {sink : σ} {config : Config} (hfresh : P (.fresh g sink config)) (terminals : List NodeId) :
    P (g.run terminals sink config).2 :=
  run_preserves hfresh (BuildSession.buildAll_invariant hlower hfresh terminals)

theorem config_run (g : Pipeline) (terminals : List NodeId) (sink : σ) (config : Config) :
    (g.run terminals sink config).2.config = config := by
  refine run_invariant (P := fun s => s.config = config) ?_ rfl terminals
  intro s id hs _
  rw [BuildSession.config_lower, hs]

/-- A run that succeeds has started, and its builds have succeeded. -/
theorem buildAll_of_run {g : Pipeline} {terminals : List NodeId} {sink : σ} {config : Config}
    (h : (g.run terminals sink config).1 = .ok ()) :
    config.validate = .ok () ∧ (BuildSession.fresh g sink config).buildAll terminals =
      (.ok (), (g.run terminals sink config).2) := by
  unfold run at h ⊢
  cases hvalid : config.validate with
  | error e =>
    rw [hvalid] at h
    cases h
  | ok u =>
    rw [hvalid] at h
    exact ⟨rfl, Prod.ext h rfl⟩

theorem buildPlan_eq_run (g : Pipeline) (terminals : List NodeId) (sink : σ) (config : Config) :
    g.buildPlan terminals sink config =
      ((g.run terminals sink config).1.map fun _ => (g.run terminals sink config).2.sink,
        (g.run terminals sink config).2.pipeline) := by
  unfold buildPlan run
  cases hvalid : config.validate with
  | error e =>
    have hstart : BuildSession.start g sink config = .error e := by
      rw [BuildSession.start, hvalid]
      rfl
    rw [hstart]
    rfl
  | ok u =>
    have hstart : BuildSession.start g sink config = .ok (.fresh g sink config) :=
      BuildSession.start_eq_ok_iff.mpr ⟨hvalid, rfl⟩
    rw [hstart]
    dsimp only
    rcases (BuildSession.fresh g sink config).buildAll terminals with ⟨_ | _, _⟩ <;> rfl

/-- A topology is checked after it has been compiled. -/
theorem buildTopology_fst (g : Pipeline) (terminals : List NodeId) (config : Config) :
    (g.buildTopology terminals config).1 =
      (g.buildPlan terminals Topology.empty config).1 >>= verified config := by
  unfold buildTopology
  rcases g.buildPlan terminals Topology.empty config with ⟨_ | _, _⟩ <;> rfl

/-- What a build tells its sink, call by call, with the answers. -/
def dialogue (g : Pipeline) (terminals : List NodeId) (sink : σ) (config : Config) :
    List (PlanCall × Except PlanError Unit) :=
  (g.run terminals (Logged.new sink) config).2.sink.log

/-- What a build tells a sink that takes everything. -/
def plannedCalls (g : Pipeline) (terminals : List NodeId) (config : Config) : List PlanCall :=
  (g.run terminals (heard []) config).2.sink.calls.toList

theorem obeys_run (g : Pipeline) (terminals : List NodeId) (sink : σ) (config : Config) :
    BuildSession.Obeys (.fresh g sink config) [] (g.run terminals (heard []) config)
      (g.run terminals sink config) := by
  unfold run
  cases config.validate with
  | error e => exact BuildSession.obeys_of_sink_eq rfl [] _
  | ok u => exact BuildSession.obeys_buildAll (.fresh g sink config) [] terminals

/-- A run over a sink is the run over one that takes everything, with the planned calls
delivered to the sink. -/
theorem delivered_run (g : Pipeline) (terminals : List NodeId) (sink : σ) (config : Config) :
    BuildSession.Delivered sink (g.plannedCalls terminals config)
      (g.run terminals (heard []) config) (g.run terminals sink config) := by
  obtain ⟨calls, hsink, hdelivered⟩ := g.obeys_run terminals sink config
  have hcalls : g.plannedCalls terminals config = calls := by
    rw [plannedCalls, hsink]
    simp [heard]
  rw [hcalls]
  exact hdelivered

theorem buildPlan_fst_of_accepted {g : Pipeline} {terminals : List NodeId} {sink sink' : σ}
    {config : Config}
    (h : PlanSink.acceptAll sink (g.plannedCalls terminals config) = (.ok (), sink')) :
    (g.buildPlan terminals sink config).1 =
      (g.run terminals (heard []) config).1.map fun _ => sink' := by
  rw [buildPlan_eq_run, (g.delivered_run terminals sink config).eq_of_ok h]
  rfl

theorem buildPlan_fst_of_refused {g : Pipeline} {terminals : List NodeId} {sink sink' : σ}
    {config : Config} {e : PlanError}
    (h : PlanSink.acceptAll sink (g.plannedCalls terminals config) = (.error e, sink')) :
    (g.buildPlan terminals sink config).1 = .error e := by
  rw [buildPlan_eq_run, ((g.delivered_run terminals sink config).eq_of_error h).1]
  rfl

/-- **The sink that comes back is the one that the planned calls lead to**, and it comes back
unless one of them is refused or the build fails over a sink that takes everything. -/
theorem buildPlan_fst_eq_acceptAll (g : Pipeline) (terminals : List NodeId) (sink : σ)
    (config : Config) :
    (g.buildPlan terminals sink config).1 =
      (PlanSink.acceptAll sink (g.plannedCalls terminals config)).1 >>= fun _ =>
        (g.buildPlan terminals (heard []) config).1.map fun _ =>
          (PlanSink.acceptAll sink (g.plannedCalls terminals config)).2 := by
  rcases hcalls : PlanSink.acceptAll sink (g.plannedCalls terminals config) with ⟨e | ⟨⟩, sink'⟩
  · exact buildPlan_fst_of_refused hcalls
  · rw [buildPlan_fst_of_accepted hcalls, buildPlan_eq_run g terminals (heard []) config]
    cases (g.run terminals (heard []) config).1 <;> rfl

/-- **A build makes the planned calls up to the first refusal**, whatever its sink.  The
sink ends as it does below a log, so the dialogue is its own. -/
theorem follows_dialogue (g : Pipeline) (terminals : List NodeId) (sink : σ) (config : Config) :
    Follows (g.plannedCalls terminals config) (g.run terminals (heard []) config).1
        (g.dialogue terminals sink config) (g.run terminals sink config).1 ∧
      (g.run terminals (Logged.new sink) config).2.sink.sink =
        (g.run terminals sink config).2.sink := by
  have hplain := g.delivered_run terminals sink config
  have hlogged := g.delivered_run terminals (Logged.new sink) config
  unfold dialogue
  rcases (Logged.new sink).acceptAll_cases (g.plannedCalls terminals config) with
    ⟨sink', hsink, hlog⟩ | ⟨before, after, call, e, sink', hcalls, hsink, hlog⟩
  · rw [hplain.eq_of_ok hsink, hlogged.eq_of_ok hlog]
    exact ⟨.accepted, rfl⟩
  · obtain ⟨hanswer, hend⟩ := hplain.eq_of_error hsink
    rw [hanswer, hend, (hlogged.eq_of_error hlog).2]
    exact ⟨.refused hcalls, rfl⟩

end Pipeline
end StreamPlan
