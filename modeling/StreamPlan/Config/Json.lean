import StreamPlan.Config.Basic
import StreamPlan.Json.Decode

/-!
# Settings as JSON

## Main definitions

* `Config.toJson` — the record of the settings.
* `Config.ofJson?` — reads it back; a setting that is absent has its default.
-/

namespace StreamPlan
namespace Config

/-- The record of the settings. -/
def toJson (c : Config) : Json :=
  .obj [("default_source_partitions", .ofUInt64 c.defaultSourcePartitions),
    ("max_partitions", .ofUInt64 c.maxPartitions), ("routing_seed", .ofUInt64 c.routingSeed),
    ("verify", .bool c.verify)]

/-- A setting that may be absent. -/
def orDefault {α : Type} (read : Json → Option α) (standard : α) : Option Json → Option α
  | none => some standard
  | some v => read v

/-- Reads the settings. -/
def ofJson? (v : Json) : Option Config :=
  match v.record? ["default_source_partitions", "max_partitions", "routing_seed", "verify"] with
  | some [sources, largest, seed, verify] => do
    let sources ← orDefault Json.toUInt64? Config.default.defaultSourcePartitions sources
    let largest ← orDefault Json.toUInt64? Config.default.maxPartitions largest
    let seed ← orDefault Json.toUInt64? Config.default.routingSeed seed
    let verify ← orDefault Json.toBool? Config.default.verify verify
    return ⟨sources, largest, seed, verify⟩
  | _ => none

end Config
end StreamPlan
