import StreamPlan.Json.Basic

/-!
# Reading typed values out of JSON

The rules by which a JSON value is taken for a value of another type.

* An integer has to be written as one, and has to be in range.
* A fraction may be written as an integer.
* A record is written as an object, whose unknown fields are skipped and whose
  known fields may not be repeated, or as an array of its fields in order.
* A value of a type with several cases is written as the name of the case, or as
  an object whose only key is that name and whose value is its data.

## Main definitions

* `Json.toUInt64?` and its companions — basic types.
* `Json.record?` — the fields of a record.
* `Json.case?` — the name and the data of a case.
* `Json.maxDepth` — how deeply a value that is used may be nested.
-/

namespace StreamPlan
namespace Json

/-- How many arrays and objects may stand one inside another in a value that is
used; a field that is skipped has no such limit. -/
def maxDepth : Nat := 127

/-! ### Basic types -/

/-- A truth value. -/
def toBool? : Json → Option Bool
  | .bool b => some b
  | _ => none

/-- A text. -/
def toText? : Json → Option String
  | .str s => some s
  | _ => none

/-- An integer between two bounds, both included. -/
def toIntBetween? (lo hi : Int) : Json → Option Int
  | .num (.int n) => if lo ≤ n ∧ n ≤ hi then some n else none
  | _ => none

/-- A byte. -/
def toUInt8? (v : Json) : Option UInt8 :=
  (v.toIntBetween? 0 255).map fun n => UInt8.ofNat n.toNat

/-- A 32-bit word. -/
def toUInt32? (v : Json) : Option UInt32 :=
  (v.toIntBetween? 0 4294967295).map fun n => UInt32.ofNat n.toNat

/-- A 64-bit word. -/
def toUInt64? (v : Json) : Option UInt64 :=
  (v.toIntBetween? 0 18446744073709551615).map fun n => UInt64.ofNat n.toNat

/-- A signed 32-bit word. -/
def toInt32? (v : Json) : Option Int32 :=
  (v.toIntBetween? (-2147483648) 2147483647).map Int32.ofInt

/-- A signed 64-bit word. -/
def toInt64? (v : Json) : Option Int64 :=
  (v.toIntBetween? (-9223372036854775808) 9223372036854775807).map Int64.ofInt

/-- A double-precision value. -/
def toBinary64? : Json → Option Binary64
  | .num (.int n) => some (Binary64.ofInt n)
  | .num (.double x) => some x
  | _ => none

/-- A single-precision value.  A fraction is rounded to double precision first. -/
def toBinary32? : Json → Option Binary32
  | .num (.int n) => some (Binary32.ofInt n)
  | .num (.double x) => some (Binary32.ofBinary64 x)
  | _ => none

/-- The items of an array. -/
def toItems? : Json → Option (List Json)
  | .arr items => some items
  | _ => none

/-! ### Records and cases -/

/-- The value of a field that may be absent; none if it is repeated. -/
def field? (fields : List (String × Json)) (name : String) : Option (Option Json) :=
  match fields.filter fun f => f.1 == name with
  | [] => some none
  | [(_, value)] => some (some value)
  | _ => none

/-- The values of the named fields of a record, in the order of the names. -/
def record? (names : List String) : Json → Option (List (Option Json))
  | .obj fields => names.mapM (field? fields)
  | .arr items =>
    if items.length ≤ names.length then
      some (items.map some ++ List.replicate (names.length - items.length) none)
    else none
  | _ => none

/-- The name of a case, and its data if there is any. -/
def case? : Json → Option (String × Option Json)
  | .str name => some (name, none)
  | .obj [(name, value)] => some (name, some value)
  | _ => none

/-- A case without data: the data is absent or null. -/
def isBare : Option Json → Bool
  | none => true
  | some .null => true
  | some _ => false

end Json
end StreamPlan
