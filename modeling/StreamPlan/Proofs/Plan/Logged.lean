import StreamPlan.Plan.Session

/-!
# Sinks that keep a log

`Logged σ` passes every call on to a sink of type `σ` and notes the call with its
answer.  What a session tells its sink is the log of the session over a logged
sink.

## Main definitions

* `Logged`, `BuildSession.logged`.

## Main results

* `Logged.accept_eq` — a call is passed on and noted with its answer.
-/

namespace StreamPlan

/-- A sink with the calls made so far and their answers. -/
structure Logged (σ : Type) where
  sink : σ
  log : List (PlanCall × Except PlanError Unit)

instance {σ : Type} [PlanSink σ] : PlanSink (Logged σ) where
  register l name partitions unit :=
    let answer := PlanSink.register l.sink name partitions unit
    (answer.1, ⟨answer.2, l.log ++ [(.register name partitions unit, answer.1.map fun _ => ())]⟩)
  wire l consumer producer grouping :=
    let answer := PlanSink.wire l.sink consumer producer grouping
    (answer.1, ⟨answer.2, l.log ++ [(.wire consumer producer grouping, answer.1)]⟩)

/-- A sink whose log begins now. -/
def Logged.new {σ : Type} (sink : σ) : Logged σ := ⟨sink, []⟩

/-- A call is passed on and noted with its answer. -/
theorem Logged.accept_eq {σ : Type} [PlanSink σ] (l : Logged σ) (call : PlanCall) :
    PlanSink.accept l call = ((PlanSink.accept l.sink call).1,
      ⟨(PlanSink.accept l.sink call).2, l.log ++ [(call, (PlanSink.accept l.sink call).1)]⟩) := by
  cases call with
  | register name partitions unit => rfl
  | wire consumer producer grouping => rfl

/-- The same session, from now on with a log. -/
def BuildSession.logged {σ : Type} (s : BuildSession σ) : BuildSession (Logged σ) where
  pipeline := s.pipeline
  sink := ⟨s.sink, []⟩
  config := s.config
  names := s.names
  built := s.built

end StreamPlan
