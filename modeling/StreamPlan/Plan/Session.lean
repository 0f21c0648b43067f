import StreamPlan.Pipeline.Basic
import StreamPlan.Plan.Sink
import StreamPlan.Plan.StageNames

/-!
# Build sessions

A session compiles nodes of a pipeline into a sink, one end node after another.
It remembers which nodes have become stages, so that a node shared by several
others becomes one stage, and which names are taken, so that names stay unique.

A node is lowered after its parents, the left parent first.  Lowering gives it a
name, checks its number of partitions, notes both in the session and in the
pipeline, and then tells the sink.  Nothing is undone when a later step fails.

The walk over the parents keeps its own stack.  A node is visited by putting it
back, marked as finished, under those of its parents that are not stages yet; by
the time it comes up again they are.  Each node is put back at most once and has
at most two parents, so a walk takes at most `3 * n + 1` steps in a pipeline of
`n` nodes.

## Main definitions

* `BuildSession`, `BuildSession.start` — a session.
* `BuildSession.lower` — one node whose parents are stages.
* `BuildSession.step`, `BuildSession.walk`, `BuildSession.visit` — the walk.
* `BuildSession.build` — one end node and everything above it.
-/

namespace StreamPlan

/-- A session that compiles a pipeline into a sink. -/
structure BuildSession (σ : Type) where
  /-- Where nodes are looked up and names are written back. -/
  pipeline : Pipeline
  /-- What the plan is written into, as the calls so far have left it. -/
  sink : σ
  /-- Says how many partitions a stage may have and under which seed keys are hashed. -/
  config : Config
  /-- The names that no further stage may have. -/
  names : StageNames
  /-- Under which name each node has become a stage, so that it does so only once. -/
  built : Std.TreeMap NodeId String

namespace BuildSession

variable {σ : Type}

/-- A new session, if the settings are acceptable. -/
def start (pipeline : Pipeline) (sink : σ) (config : Config) :
    Except PlanError (BuildSession σ) := do
  config.validate
  return ⟨pipeline, sink, config, .empty, ∅⟩

/-- The stage of a node, if it has one. -/
def stageName? (s : BuildSession σ) (id : NodeId) : Option String := s.built[id]?

/-! ### Lowering a node -/

/-- The stage of a parent. -/
def stageOf (s : BuildSession σ) (node parent : NodeId) : Except PlanError String :=
  match s.built[parent]? with
  | some name => .ok name
  | none => .error (.missingDependency node parent)

/-- What the stage of a node runs, and the edges on which its records arrive. -/
def wiring (s : BuildSession σ) (id : NodeId) (n : Node) :
    Except PlanError (StageUnit × List InputEdge) :=
  match n.kind with
  | .source next => .ok (.source next, [])
  | .transform parent op => do
    let producer ← s.stageOf id parent
    return (.transform op, [⟨producer, .shuffle⟩])
  | .join left right spec => do
    let leftStage ← s.stageOf id left
    let rightStage ← s.stageOf id right
    let seed := s.config.routingSeed
    return (.join ⟨leftStage, rightStage, spec.window, spec.joinType, spec.combine⟩,
      [⟨leftStage, .key ⟨spec.leftKey, seed⟩⟩, ⟨rightStage, .key ⟨spec.rightKey, seed⟩⟩])

/-- The name of a node: the user's, or else the first free one of its family. -/
def resolveName (s : BuildSession σ) (n : Node) : String × StageNames :=
  match n.userName with
  | some name => (name, s.names)
  | none => s.names.allocate n.family.label

/-- The number of partitions is acceptable. -/
def allows (s : BuildSession σ) (partitions : UInt64) : Bool :=
  decide (partitions ≠ 0 ∧ partitions ≤ s.config.maxPartitions)

/-- Notes that a node has become a stage. -/
def record (s : BuildSession σ) (id : NodeId) (name : String) : BuildSession σ :=
  { s with
    pipeline := s.pipeline.assignName id name
    names := s.names.insert name
    built := s.built.insert id name }

/-- What the sink is told of a stage. -/
def stageCalls (name : String) (partitions : UInt64) (unit : StageUnit) (inputs : List InputEdge) :
    List PlanCall :=
  .register name partitions unit :: inputs.map fun e => .wire name e.producer e.grouping

/-! ### Entries of the walk -/

/-- An entry of the walk's stack. -/
inductive Frame where
  /-- Compile a node and everything above it. -/
  | visit (id : NodeId)
  /-- Compile a node after its parents. -/
  | finish (id : NodeId)

/-- The node of an entry. -/
def Frame.node : Frame → NodeId
  | .visit id => id
  | .finish id => id

/-- The entries that take the place of a visited node: its parents that are not
stages yet, the left one first, and then the node itself. -/
def expand (s : BuildSession σ) (id : NodeId) : Except PlanError (List Frame) :=
  match s.pipeline.node id with
  | .error e => .error e
  | .ok n =>
    match n.parents.reverse.find? fun p => !s.pipeline.has p with
    | some p => .error (.missingDependency id p)
    | none =>
      .ok ((n.parents.filter fun p => !s.built.contains p).map Frame.visit ++ [.finish id])

/-! ### Telling the sink -/

variable [PlanSink σ]

/-- Tells the sink of a stage that has been noted. -/
def announce (s : BuildSession σ) (name : String) (calls : List PlanCall) :
    Except PlanError String × BuildSession σ :=
  match PlanSink.acceptAll s.sink calls with
  | (.ok _, sink) => (.ok name, { s with sink := sink })
  | (.error e, sink) => (.error e, { s with sink := sink })

/-- Makes a stage of a node, given what it runs and its edges. -/
def lowerNode (s : BuildSession σ) (id : NodeId) (n : Node) (unit : StageUnit)
    (inputs : List InputEdge) : Except PlanError String × BuildSession σ :=
  let (name, names) := s.resolveName n
  let s := { s with names := names }
  if names.contains name then (.error (.duplicateName name), s)
  else if s.allows n.partitions then
    (s.record id name).announce name (stageCalls name n.partitions unit inputs)
  else (.error (.invalidPartitions name n.partitions), s)

/-- Makes a stage of a node whose parents are stages. -/
def lower (s : BuildSession σ) (id : NodeId) : Except PlanError String × BuildSession σ :=
  match s.pipeline.node id with
  | .error e => (.error e, s)
  | .ok n =>
    match s.wiring id n with
    | .error e => (.error e, s)
    | .ok (unit, inputs) => s.lowerNode id n unit inputs

/-! ### The walk -/

/-- Treats one entry, and returns the entries that take its place. -/
def step (s : BuildSession σ) (f : Frame) : Except PlanError (List Frame) × BuildSession σ :=
  if s.built.contains f.node then (.ok [], s)
  else match f with
    | .visit id => (s.expand id, s)
    | .finish id =>
      match s.lower id with
      | (.ok _, s) => (.ok [], s)
      | (.error e, s) => (.error e, s)

/-- Treats entries until none is left or one fails, for a number of steps. -/
def walk : Nat → List Frame → BuildSession σ → Except PlanError Unit × BuildSession σ
  | 0, _, s => (.ok (), s)
  | _ + 1, [], s => (.ok (), s)
  | steps + 1, f :: frames, s =>
    match s.step f with
    | (.ok pushed, s) => walk steps (pushed ++ frames) s
    | (.error e, s) => (.error e, s)

/-- Compiles a node and everything above it, and returns its stage. -/
def visit (s : BuildSession σ) (root : NodeId) : Except PlanError String × BuildSession σ :=
  match walk (3 * s.pipeline.size + 1) [.visit root] s with
  | (.ok _, s) => (s.stageOf root root, s)
  | (.error e, s) => (.error e, s)

/-- Compiles an end node and everything above it, and returns its stage. -/
def build (s : BuildSession σ) (terminal : NodeId) : Except PlanError String × BuildSession σ :=
  match s.pipeline.node terminal with
  | .error e => (.error e, s)
  | .ok _ => s.visit terminal

/-- Compiles end nodes one after another until one fails. -/
def buildAll (s : BuildSession σ) : List NodeId → Except PlanError Unit × BuildSession σ
  | [] => (.ok (), s)
  | t :: ts =>
    match s.build t with
    | (.ok _, s) => s.buildAll ts
    | (.error e, s) => (.error e, s)

end BuildSession

end StreamPlan
