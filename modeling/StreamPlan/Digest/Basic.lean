import StreamPlan.Binary.Bytes
import StreamPlan.Digest.Blake3
import StreamPlan.Json.Decode
import StreamPlan.Json.Writer

/-!
# Digests

A digest is the 32-byte BLAKE3 hash of a byte string, a text, or the compact text
of a JSON value.

## Main definitions

* `Digest`, `Digest.hex` — a digest and its text.
* `Digest.ofBytes`, `Digest.ofText`, `Digest.ofJson` — what is hashed.
* `Digest.toJson`, `Digest.ofJson?` — the array of its bytes.
-/

namespace StreamPlan

/-- A 32-byte digest. -/
structure Digest where
  /-- In the order in which the hash puts them out. -/
  bytes : Vector UInt8 32
  deriving DecidableEq

namespace Digest

/-- The hexadecimal text, 64 digits in lower case. -/
def hex (d : Digest) : String := Bytes.hex d.bytes.toList

/-- The digest of a byte string. -/
def ofBytes (bytes : ByteArray) : Digest := ⟨Blake3.hash bytes⟩

/-- The first eight bytes, read as a little-endian word. -/
def word (d : Digest) : UInt64 := UInt64.ofNat (Bytes.toNat (d.bytes.toList.take 8))

/-- The array of the bytes. -/
def toJson (d : Digest) : Json := .arr (d.bytes.toList.map fun b => .ofNat b.toNat)

/-- Reads an array of exactly 32 bytes. -/
def ofJson? (v : Json) : Option Digest := do
  let bytes ← (← v.toItems?).mapM Json.toUInt8?
  if h : bytes.toArray.size = 32 then some ⟨⟨bytes.toArray, h⟩⟩ else none

end Digest

end StreamPlan
