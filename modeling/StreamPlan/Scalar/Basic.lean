import StreamPlan.Binary.Bytes
import StreamPlan.Ieee.Basic

/-!
# Record values

The values that travel through a pipeline.  A keyed record is a pair of a key and
a value; every other value is its own key and its own value.

## Main definitions

* `Scalar` — a record value.
* `Scalar.key`, `Scalar.value` — the two halves of a record.
* `==` on scalars — comparison, by IEEE rules wherever a fraction stands.
-/

namespace StreamPlan

/-- A record value. -/
inductive Scalar where
  /-- No value. -/
  | null
  /-- A truth value. -/
  | bool (b : Bool)
  /-- A signed 32-bit integer. -/
  | i32 (n : Int32)
  /-- A signed 64-bit integer. -/
  | i64 (n : Int64)
  /-- A single-precision fraction. -/
  | f32 (x : Binary32)
  /-- A double-precision fraction. -/
  | f64 (x : Binary64)
  /-- A text. -/
  | str (s : String)
  /-- A byte string. -/
  | bin (bytes : Bytes)
  /-- A keyed record. -/
  | pair (key value : Scalar)
  deriving DecidableEq, Inhabited

namespace Scalar

/-- The key of a record. -/
def key : Scalar → Scalar
  | .pair k _ => k
  | s => s

/-- The value of a record. -/
def value : Scalar → Scalar
  | .pair _ v => v
  | s => s

/-- There is no value. -/
def isNull : Scalar → Bool
  | .null => true
  | _ => false

/-- Comparison of values.  Values of different types differ, a NaN differs from
itself, and the two zeros of a format are equal. -/
def equals : Scalar → Scalar → Bool
  | .null, .null => true
  | .bool a, .bool b => a == b
  | .i32 a, .i32 b => a == b
  | .i64 a, .i64 b => a == b
  | .f32 a, .f32 b => a.ieeeEq b
  | .f64 a, .f64 b => a.ieeeEq b
  | .str a, .str b => a == b
  | .bin a, .bin b => a == b
  | .pair k v, .pair k' v' => equals k k' && equals v v'
  | _, _ => false

instance : BEq Scalar := ⟨equals⟩

end Scalar

end StreamPlan
