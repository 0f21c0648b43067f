import Std.Data.TreeSet
import StreamPlan.Topology.Basic

/-!
# Checks of a topology

Two properties that every compiled topology has, checked in one pass each.

## Main definitions

* `Topology.checkUniqueNames` — no name occurs twice.
* `Topology.checkDependencyOrder` — every edge comes from a stage that was
  registered earlier.
-/

namespace StreamPlan
namespace Topology

/-- No name of the stages occurs among those seen, or twice. -/
def uniqueNamesFrom (seen : Std.TreeSet String) : List Stage → Except PlanError Unit
  | [] => .ok ()
  | s :: rest =>
    if seen.contains s.name then .error (.duplicateName s.name)
    else uniqueNamesFrom (seen.insert s.name) rest

/-- No name occurs twice. -/
def checkUniqueNames (t : Topology) : Except PlanError Unit :=
  uniqueNamesFrom ∅ t.stages.toList

/-- Every edge of the stages comes from one of those seen or from an earlier one. -/
def dependencyOrderFrom (seen : Std.TreeSet String) : List Stage → Except PlanError Unit
  | [] => .ok ()
  | s :: rest =>
    match s.inputs.find? fun e => !seen.contains e.producer with
    | some e =>
      .error (.invariant ("stage " ++ s.name ++ " reads from " ++ e.producer ++
        " before it is registered"))
    | none => dependencyOrderFrom (seen.insert s.name) rest

/-- Every edge comes from a stage that was registered earlier. -/
def checkDependencyOrder (t : Topology) : Except PlanError Unit :=
  dependencyOrderFrom ∅ t.stages.toList

end Topology
end StreamPlan
