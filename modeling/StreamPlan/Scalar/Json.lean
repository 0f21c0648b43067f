import StreamPlan.Json.Decode
import StreamPlan.Scalar.Basic

/-!
# Record values as JSON

A value is written as a case: the name of its type with its data.

## Main definitions

* `Scalar.toJson` — the JSON form of a value.
* `Scalar.ofJson?` — reads it back, pairs nested as deeply as JSON allows.
-/

namespace StreamPlan
namespace Scalar

/-- The JSON form of a value. -/
def toJson : Scalar → Json
  | .null => .str "Null"
  | .bool b => .obj [("Bool", .bool b)]
  | .i32 n => .obj [("I32", .ofInt n.toInt)]
  | .i64 n => .obj [("I64", .ofInt n.toInt)]
  | .f32 x => .obj [("F32", .ofBinary32 x)]
  | .f64 x => .obj [("F64", .ofBinary64 x)]
  | .str s => .obj [("Str", .str s)]
  | .bin bytes => .obj [("Bin", .arr (bytes.map fun b => .ofNat b.toNat))]
  | .pair k v => .obj [("Pair", .arr [k.toJson, v.toJson])]

/-- A value that is written as an object and is not itself made of items. -/
def leafOfJson? (name : String) (data : Json) : Option Scalar :=
  match name with
  | "Null" => if Json.isBare (some data) then some .null else none
  | "Bool" => data.toBool?.map .bool
  | "I32" => data.toInt32?.map .i32
  | "I64" => data.toInt64?.map .i64
  | "F32" => data.toBinary32?.map .f32
  | "F64" => data.toBinary64?.map .f64
  | "Str" => data.toText?.map .str
  | _ => none

/-- Reads a value with at most `depth` arrays and objects one inside another. -/
def ofJsonWithin? : Nat → Json → Option Scalar
  | _, .str "Null" => some .null
  | depth + 2, .obj [("Pair", .arr [k, v])] =>
    match ofJsonWithin? depth k, ofJsonWithin? depth v with
    | some key, some value => some (.pair key value)
    | _, _ => none
  | _ + 2, .obj [("Bin", .arr items)] => (items.mapM Json.toUInt8?).map .bin
  | _ + 1, .obj [(name, data)] => leafOfJson? name data
  | _, _ => none

/-- Reads a value. -/
def ofJson? (v : Json) : Option Scalar := ofJsonWithin? Json.maxDepth v

end Scalar
end StreamPlan
