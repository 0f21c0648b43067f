import Std.Data.TreeSet
import StreamPlan.Config.Basic
import StreamPlan.Pipeline.Family

/-!
# Pipelines

A pipeline is a list of nodes that only grows.  A node names its parents by their
positions, and a node can only be made over nodes that are there already, so
parents stand before their children and several children may share a parent.

The number of partitions of a node is fixed when the node is made: a transform
takes it from its parent and a join from its left parent.  A later change to the
parent does not reach them.

Every operation that can fail returns the new pipeline only when it succeeds.

## Main definitions

* `Node`, `Node.name`, `Node.family`, `Node.parents`.
* `Pipeline`, `Pipeline.node` — a pipeline and its nodes.
* `Pipeline.source`, `Pipeline.map`, `Pipeline.flatMap`, `Pipeline.filter`,
  `Pipeline.repartition`, `Pipeline.join` — making nodes.
* `Pipeline.setName`, `Pipeline.setPartitions`, `Pipeline.assignName` — changing
  them.
* `Pipeline.terminals` — the nodes that no other node consumes.
-/

namespace StreamPlan

/-! ### Nodes -/

/-- What a node is. -/
inductive NodeKind where
  /-- Produces records. -/
  | source (next : SourceFn)
  /-- Has one parent. -/
  | transform (parent : NodeId) (op : Transform)
  /-- Has two parents. -/
  | join (left right : NodeId) (spec : JoinSpec)

/-- A node of a pipeline. -/
structure Node where
  /-- Where the node stands in its pipeline. -/
  id : NodeId
  /-- The name a user gave it, which holds for every build. -/
  userName : Option String
  /-- The name it got from the latest build that reached it. -/
  assignedName : Option String
  /-- How many instances its stage is to have. -/
  partitions : UInt64
  /-- What the node is. -/
  kind : NodeKind

namespace Node

/-- The user's name, or else the one a build wrote back. -/
def name (n : Node) : Option String := n.userName.or n.assignedName

/-- The family of the node. -/
def family (n : Node) : Family :=
  match n.kind with
  | .source _ => .source
  | .transform _ op => op.family
  | .join _ _ _ => .join

/-- The parents, the left one first. -/
def parents (n : Node) : List NodeId :=
  match n.kind with
  | .source _ => []
  | .transform parent _ => [parent]
  | .join left right _ => [left, right]

/-- The text of a node. -/
def inspect (n : Node) : String :=
  Inspect.record "StreamletNode" [("id", NodeId.text n.id),
    ("name", Inspect.optional (n.name.map Inspect.quoted)),
    ("partitions", toString n.partitions), ("family", Inspect.quoted n.family.label),
    ("parents", Inspect.list (n.parents.map NodeId.text))]

end Node

/-! ### Pipelines -/

/-- A pipeline. -/
structure Pipeline where
  /-- The nodes in the order they were made. -/
  nodes : Array Node
  /-- The number of partitions of a new source. -/
  sourcePartitions : UInt64

namespace Pipeline

/-- A pipeline without nodes, whose sources have one partition. -/
def empty : Pipeline := ⟨#[], 1⟩

instance : Inhabited Pipeline := ⟨empty⟩

/-- A pipeline without nodes, whose sources are sized by the settings. -/
def ofConfig (c : Config) : Pipeline :=
  ⟨#[], if c.defaultSourcePartitions = 0 then 1 else c.defaultSourcePartitions⟩

/-- The number of nodes. -/
def size (g : Pipeline) : Nat := g.nodes.size

/-- The node at a position. -/
def node (g : Pipeline) (id : NodeId) : Except PlanError Node :=
  match g.nodes[id]? with
  | some n => .ok n
  | none => .error (.unknownNode id)

theorem node_eq_ok_iff {g : Pipeline} {id : NodeId} {n : Node} :
    g.node id = .ok n ↔ g.nodes[id]? = some n := by
  unfold node
  split <;> simp_all

/-- There is a node at a position. -/
def has (g : Pipeline) (id : NodeId) : Bool := decide (id < g.nodes.size)

/-- The name of a node, if there is such a node and it has one. -/
def nameOf? (g : Pipeline) (id : NodeId) : Option String := g.nodes[id]?.bind Node.name

/-! ### Making nodes -/

/-- Adds a node without a name. -/
def push (g : Pipeline) (partitions : UInt64) (kind : NodeKind) : NodeId × Pipeline :=
  (g.nodes.size, { g with nodes := g.nodes.push ⟨g.nodes.size, none, none, partitions, kind⟩ })

@[simp] theorem size_push (g : Pipeline) (partitions : UInt64) (kind : NodeKind) :
    (g.push partitions kind).2.size = g.size + 1 := by
  simp [push, size]

/-- Adds a source. -/
def source (g : Pipeline) (next : SourceFn) : NodeId × Pipeline :=
  g.push g.sourcePartitions (.source next)

/-- Adds a node over one parent, with as many partitions. -/
@[inline] def transform (g : Pipeline) (parent : NodeId) (op : Transform) :
    Except PlanError (NodeId × Pipeline) := do
  let n ← g.node parent
  return g.push n.partitions (.transform parent op)

/-- Adds a node that makes one record of each record. -/
@[inline] def map (g : Pipeline) (parent : NodeId) (f : Scalar → Scalar) :
    Except PlanError (NodeId × Pipeline) :=
  g.transform parent (.map f)

/-- Adds a node that makes any number of records of each record. -/
@[inline] def flatMap (g : Pipeline) (parent : NodeId) (f : Scalar → List Scalar) :
    Except PlanError (NodeId × Pipeline) :=
  g.transform parent (.flatMap f)

/-- Adds a node that keeps some of the records. -/
@[inline] def filter (g : Pipeline) (parent : NodeId) (keep : Scalar → Bool) :
    Except PlanError (NodeId × Pipeline) :=
  g.transform parent (.filter keep)

/-- Refuses a node without partitions. -/
def checkPartitions (id : NodeId) (partitions : UInt64) : Except PlanError Unit :=
  if partitions = 0 then .error (.invalidPartitions (NodeId.text id) partitions) else .ok ()

/-- Adds a node that spreads the records of its parent over another number of
partitions. -/
@[inline] def repartition (g : Pipeline) (parent : NodeId) (partitions : UInt64) :
    Except PlanError (NodeId × Pipeline) := do
  let _ ← g.node parent
  checkPartitions parent partitions
  return g.push partitions (.transform parent .repartition)

/-- Adds a join, with as many partitions as its left parent. -/
@[inline] def join (g : Pipeline) (left right : NodeId) (spec : JoinSpec) :
    Except PlanError (NodeId × Pipeline) := do
  let n ← g.node left
  let _ ← g.node right
  spec.window.validate
  return g.push n.partitions (.join left right spec)

/-! ### Changing nodes -/

/-- Changes the node at a position. -/
def update (g : Pipeline) (id : NodeId) (f : Node → Node) : Pipeline :=
  { g with nodes := g.nodes.modify id f }

@[simp] theorem size_update (g : Pipeline) (id : NodeId) (f : Node → Node) :
    (g.update id f).size = g.size := by
  simp [update, size]

theorem getElem?_nodes_update (g : Pipeline) (id other : NodeId) (f : Node → Node) :
    (g.update id f).nodes[other]? = if id = other then g.nodes[other]?.map f else g.nodes[other]? := by
  simp [update, Array.getElem?_modify]

/-- Gives a node a name that holds for every build.  Whether names are unique is
only asked by a build. -/
def setName (g : Pipeline) (id : NodeId) (name : String) : Except PlanError Pipeline := do
  if name.isEmpty then throw (.config ("empty name for " ++ NodeId.text id))
  let _ ← g.node id
  return g.update id fun n => { n with userName := some name, assignedName := none }

/-- Gives a node another number of partitions.  Nodes that were made over it keep
theirs. -/
def setPartitions (g : Pipeline) (id : NodeId) (partitions : UInt64) :
    Except PlanError Pipeline := do
  checkPartitions id partitions
  let _ ← g.node id
  return g.update id fun n => { n with partitions := partitions }

/-- Notes the name a build gave to a node, unless the user has named it. -/
def assignName (g : Pipeline) (id : NodeId) (name : String) : Pipeline :=
  g.update id fun n => if n.userName.isNone then { n with assignedName := some name } else n

/-! ### Ends -/

/-- The positions that some node has as a parent. -/
def consumed (g : Pipeline) : Std.TreeSet NodeId :=
  g.nodes.foldl (fun seen n => n.parents.foldl (fun seen p => seen.insert p) seen) ∅

/-- The nodes that no other node consumes, in the order they were made. -/
def terminals (g : Pipeline) : List NodeId :=
  let seen := g.consumed
  (g.nodes.toList.filter fun n => !seen.contains n.id).map Node.id

/-- The text of a pipeline. -/
def inspect (g : Pipeline) : String :=
  Inspect.record "StreamletGraph" [("nodes", Inspect.list (g.nodes.toList.map Node.inspect)),
    ("default_source_partitions", toString g.sourcePartitions)]

end Pipeline

end StreamPlan
