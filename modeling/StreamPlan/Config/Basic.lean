import StreamPlan.Error

/-!
# Settings of the planner

## Main definitions

* `Config` — the settings; `Config.default` holds where nothing is said.
* `Config.validate` — refuses settings under which no build can succeed.
-/

namespace StreamPlan

/-- The settings of the planner. -/
structure Config where
  /-- The number of partitions of a source that is not given one. -/
  defaultSourcePartitions : UInt64
  /-- The largest number of partitions of any stage. -/
  maxPartitions : UInt64
  /-- The seed under which keys are hashed on every edge of a plan. -/
  routingSeed : UInt64
  /-- Whether a compiled topology is checked. -/
  verify : Bool
  deriving DecidableEq, Repr

namespace Config

/-- The settings that hold where nothing is said. -/
protected def default : Config := ⟨1, 1024, 0, true⟩

instance : Inhabited Config := ⟨Config.default⟩

/-- Refuses settings under which no build can succeed. -/
def validate (c : Config) : Except PlanError Unit :=
  if c.defaultSourcePartitions = 0 then
    .error (.config "default_source_partitions must be at least 1")
  else if c.maxPartitions = 0 then
    .error (.config "max_partitions must be at least 1")
  else if c.maxPartitions < c.defaultSourcePartitions then
    .error (.config ("default_source_partitions (" ++ toString c.defaultSourcePartitions ++
      ") exceeds max_partitions (" ++ toString c.maxPartitions ++ ")"))
  else .ok ()

end Config

end StreamPlan
