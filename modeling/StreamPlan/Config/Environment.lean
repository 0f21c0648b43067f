import StreamPlan.Config.Basic
import StreamPlan.Text.Blank

/-!
# Settings from the environment

Each setting may be given by a variable.  A variable that is not set, or whose
text cannot be read, leaves the setting at its default.

## Main definitions

* `readWord?`, `readFlag?` — the texts a variable may have.
* `Config.ofEnvironment` — the settings an environment gives.
-/

namespace StreamPlan

/-- Reads a decimal number that fits a 64-bit word.  A plus sign and leading zeros are
allowed, blanks are not. -/
def readWord? (text : String) : Option UInt64 :=
  let ds := match text.toList with
    | '+' :: rest => rest
    | cs => cs
  let n := Nat.ofDigitChars 10 ds 0
  if ds ≠ [] ∧ ds.all Char.isDigit ∧ n < UInt64.size then some (UInt64.ofNat n) else none

/-- Reads a truth value in one of four spellings, in either case and with blanks
around it. -/
def readFlag? (text : String) : Option Bool :=
  let word := String.ofList ((trimBlanks text.toList).map Char.toLower)
  if word ∈ ["1", "true", "yes", "on"] then some true
  else if word ∈ ["0", "false", "no", "off"] then some false
  else none

/-- The settings an environment gives; `lookup` is the text of a variable that is
set. -/
def Config.ofEnvironment (lookup : String → Option String) : Config where
  defaultSourcePartitions :=
    ((lookup "STREAMLET_DEFAULT_SOURCE_PARTITIONS").bind readWord?).getD
      Config.default.defaultSourcePartitions
  maxPartitions :=
    ((lookup "STREAMLET_MAX_PARTITIONS").bind readWord?).getD Config.default.maxPartitions
  routingSeed :=
    ((lookup "STREAMLET_ROUTING_SEED").bind readWord?).getD Config.default.routingSeed
  verify := ((lookup "STREAMLET_VERIFY").bind readFlag?).getD Config.default.verify

end StreamPlan
