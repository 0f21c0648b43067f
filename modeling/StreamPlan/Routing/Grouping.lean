import StreamPlan.Scalar.Key
import StreamPlan.Text.Inspect

/-!
# Groupings

An edge of a topology sends each record of its producer to one instance of its
consumer.  A shuffle deals records out in turn; a key grouping sends all records
with one key to the same instance, whichever producer they come from.

## Main definitions

* `shuffleTarget`, `keyTarget` — the two rules.
* `KeyRouter`, `Grouping`, `Grouping.target` — an edge's rule.
* `GroupingKind` — what is said of a grouping in a description.
* `GroupingKind.toJson`, `GroupingKind.ofJson?`.

## Main results

* `shuffleTarget_lt`, `keyTarget_lt` — a target is one of the instances.
* `keyTarget_eq_of_equals` — keys that compare equal go to the same instance.
-/

namespace StreamPlan

/-! ### Targets -/

/-- The number of instances records are dealt to: at least one. -/
def instances (partitions : UInt64) : UInt64 := if partitions = 0 then 1 else partitions

theorem toNat_instances (partitions : UInt64) :
    (instances partitions).toNat = max partitions.toNat 1 := by
  unfold instances
  split
  · simp_all
  · rename_i h
    have pos : partitions.toNat ≠ 0 := fun zero => h (UInt64.toNat_inj.mp zero)
    omega

theorem instances_pos (partitions : UInt64) : 0 < instances partitions := by
  rw [UInt64.lt_iff_toNat_lt, toNat_instances]
  exact Nat.lt_of_lt_of_le Nat.zero_lt_one (Nat.le_max_right ..)

/-- The instance for the record with a running number. -/
def shuffleTarget (sequence partitions : UInt64) : UInt64 := sequence % instances partitions

/-- The instance that owns a key.  It depends only on the key's hash and on the
number of instances, so that producers agree on it. -/
def keyTarget (key : Scalar) (partitions seed : UInt64) : UInt64 :=
  key.keyHash seed % instances partitions

/-- A shuffle deals to one of the instances. -/
theorem shuffleTarget_lt (sequence partitions : UInt64) :
    shuffleTarget sequence partitions < instances partitions :=
  UInt64.mod_lt _ (instances_pos partitions)

/-- One of the instances owns a key. -/
theorem keyTarget_lt (key : Scalar) (partitions seed : UInt64) :
    keyTarget key partitions seed < instances partitions :=
  UInt64.mod_lt _ (instances_pos partitions)

/-- Keys that compare equal go to the same instance. -/
theorem keyTarget_eq_of_equals {a b : Scalar} (h : a.equals b = true) (partitions seed : UInt64) :
    keyTarget a partitions seed = keyTarget b partitions seed := by
  unfold keyTarget Scalar.keyHash Scalar.seededBytes
  rw [Scalar.keyBytes_eq_of_equals h]

/-! ### Groupings -/

/-- A key grouping: how a record's key is found, and the seed it is hashed with. -/
structure KeyRouter where
  /-- The key of a record. -/
  keyOf : Scalar → Scalar
  /-- Hashed with every key; edges on which equal keys are to meet have the same one. -/
  seed : UInt64

/-- The instance for a record. -/
def KeyRouter.target (r : KeyRouter) (record : Scalar) (partitions : UInt64) : UInt64 :=
  keyTarget (r.keyOf record) partitions r.seed

/-- How an edge distributes records. -/
inductive Grouping where
  /-- In turn. -/
  | shuffle
  /-- By key. -/
  | key (router : KeyRouter)

/-- What is said of a grouping in a description: everything but how keys are
found. -/
inductive GroupingKind where
  /-- In turn. -/
  | shuffle
  /-- By key, with a seed. -/
  | key (seed : UInt64)
  deriving DecidableEq, Repr

namespace Grouping

/-- The description of a grouping. -/
def kind : Grouping → GroupingKind
  | .shuffle => .shuffle
  | .key router => .key router.seed

/-- The instance for a record that has a running number among those of its
producer. -/
def target (g : Grouping) (record : Scalar) (sequence partitions : UInt64) : UInt64 :=
  match g with
  | .shuffle => shuffleTarget sequence partitions
  | .key router => router.target record partitions

end Grouping

/-! ### Text -/

/-- The short text of a grouping. -/
def GroupingKind.label : GroupingKind → String
  | .shuffle => "shuffle"
  | .key _ => "key"

/-- The text of a key grouping, which does not show how keys are found. -/
def KeyRouter.inspect (r : KeyRouter) : String :=
  "KeyRouter \x7b seed: " ++ toString r.seed ++ ", .. \x7d"

/-- The text of a grouping. -/
def Grouping.inspect : Grouping → String
  | .shuffle => "Shuffle"
  | .key router => "Custom(" ++ router.inspect ++ ")"

/-! ### JSON -/

namespace GroupingKind

/-- The record of a description, its kind first. -/
def toJson : GroupingKind → Json
  | .shuffle => .obj [("type", .str "shuffle")]
  | .key seed => .obj [("type", .str "key"), ("seed", .ofUInt64 seed)]

/-- Reads a description with at most `depth` arrays and objects one inside
another.  The kind may stand anywhere in the object, so the other fields are kept
until it is known and have to be readable even if they are not needed. -/
def ofJsonWithin? (depth : Nat) (v : Json) : Option GroupingKind :=
  if v.fits depth then
    match v with
    | .obj fields =>
      match Json.field? fields "type" with
      | some (some (.str "shuffle")) => some .shuffle
      | some (some (.str "key")) =>
        match Json.field? fields "seed" with
        | some (some seed) => seed.toUInt64?.map .key
        | _ => none
      | _ => none
    | .arr [.str "shuffle"] => some .shuffle
    | .arr [.str "key", seed] => seed.toUInt64?.map .key
    | _ => none
  else none

/-- Reads a description. -/
def ofJson? (v : Json) : Option GroupingKind := ofJsonWithin? Json.maxDepth v

end GroupingKind

end StreamPlan
