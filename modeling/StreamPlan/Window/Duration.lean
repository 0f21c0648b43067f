import StreamPlan.Json.Decode

/-!
# Spans of time

A span of time is a number of seconds and a number of nanoseconds below one
second.

## Main definitions

* `Duration`, `Duration.toNanos` — a span and its length.
* `Duration.ofParts?` — whole seconds of the nanoseconds carry into the seconds.
* `Duration.millis` — whole milliseconds.
* `Duration.inspect` — the text in the largest unit that is not a fraction.
* `Duration.toJson`, `Duration.ofJson?`.
-/

namespace StreamPlan

/-- A span of time. -/
structure Duration where
  /-- Whole seconds. -/
  secs : UInt64
  /-- The nanoseconds beyond them. -/
  nanos : UInt32
  /-- There is less than a second of them. -/
  nanos_lt : nanos.toNat < 1000000000
  deriving DecidableEq

namespace Duration

/-- The empty span. -/
def zero : Duration := ⟨0, 0, by decide⟩

instance : Inhabited Duration := ⟨zero⟩

/-- The length in nanoseconds. -/
def toNanos (d : Duration) : Nat := 1000000000 * d.secs.toNat + d.nanos.toNat

/-- A span of seconds and nanoseconds.  There is none when the seconds overflow. -/
def ofParts? (secs : UInt64) (nanos : UInt32) : Option Duration :=
  let total := secs.toNat + nanos.toNat / 1000000000
  if total < UInt64.size then
    some ⟨UInt64.ofNat total, UInt32.ofNat (nanos.toNat % 1000000000), by
      have h : nanos.toNat % 1000000000 < 1000000000 := Nat.mod_lt _ (by decide)
      rw [UInt32.toNat_ofNat_of_lt' (Nat.lt_trans h (by decide))]
      exact h⟩
  else none

/-- Whole milliseconds. -/
def millis (d : Duration) : Nat := 1000 * d.secs.toNat + d.nanos.toNat / 1000000

/-! ### Text -/

/-- The digits of `n / 10 ^ places` after the point, without zeros at the end. -/
def fraction (n places : Nat) : List Char :=
  let ds := Nat.toDigits 10 n
  let padded := List.replicate (places - ds.length) '0' ++ ds
  (padded.reverse.dropWhile (· == '0')).reverse

/-- A whole number of units and a decimal fraction of one. -/
def inUnit (whole rest places : Nat) (unit : String) : String :=
  let digits := fraction rest places
  toString whole ++ (if digits.isEmpty then "" else "." ++ String.ofList digits) ++ unit

/-- The span in the largest unit of which there is at least one. -/
def inspect (d : Duration) : String :=
  let n := d.nanos.toNat
  if 0 < d.secs then inUnit d.secs.toNat n 9 "s"
  else if 1000000 ≤ n then inUnit (n / 1000000) (n % 1000000) 6 "ms"
  else if 1000 ≤ n then inUnit (n / 1000) (n % 1000) 3 "µs"
  else inUnit n 0 0 "ns"

/-! ### JSON -/

/-- The record of both parts. -/
def toJson (d : Duration) : Json :=
  .obj [("secs", .ofUInt64 d.secs), ("nanos", .ofNat d.nanos.toNat)]

/-- Every field of an object is one of the two parts. -/
def onlyParts : Json → Bool
  | .obj fields => fields.all fun f => f.1 == "secs" || f.1 == "nanos"
  | _ => true

/-- Reads a span.  Unlike other records it may have no further fields. -/
def ofJson? (v : Json) : Option Duration :=
  match onlyParts v, v.record? ["secs", "nanos"] with
  | true, some [some secs, some nanos] => do ofParts? (← secs.toUInt64?) (← nanos.toUInt32?)
  | _, _ => none

end Duration

end StreamPlan
