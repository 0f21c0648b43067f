import StreamPlan.Plan.Session
import StreamPlan.Topology.Check

/-!
# Compiling a pipeline

Whole builds: a session from start to end.  The pipeline comes back in any case,
since the names a build gave stay even if it failed.

## Main definitions

* `Pipeline.buildPlan` — compiles end nodes into any sink.
* `Pipeline.buildTopology` — compiles end nodes into a new topology, checked if
  the settings ask for it.
-/

namespace StreamPlan
namespace Pipeline

/-- Compiles end nodes into a sink. -/
def buildPlan {σ : Type} [PlanSink σ] (g : Pipeline) (terminals : List NodeId) (sink : σ)
    (config : Config) : Except PlanError σ × Pipeline :=
  match BuildSession.start g sink config with
  | .error e => (.error e, g)
  | .ok s =>
    match s.buildAll terminals with
    | (.ok _, s) => (.ok s.sink, s.pipeline)
    | (.error e, s) => (.error e, s.pipeline)

/-- Checks a topology if the settings ask for it. -/
def verified (config : Config) (t : Topology) : Except PlanError Topology := do
  if config.verify then
    t.checkUniqueNames
    t.checkDependencyOrder
  return t

/-- Compiles end nodes into a new topology. -/
def buildTopology (g : Pipeline) (terminals : List NodeId) (config : Config) :
    Except PlanError Topology × Pipeline :=
  match g.buildPlan terminals Topology.empty config with
  | (.ok t, g) => (verified config t, g)
  | (.error e, g) => (.error e, g)

end Pipeline
end StreamPlan
