import StreamPlan.Digest.Basic
import StreamPlan.Scalar.Basic

/-!
# Keys and their hashes

A key is hashed through a byte form.  The form starts with a tag for the type,
and a field of variable length is preceded by its length, so that the form of a
pair is the forms of its halves side by side.  Fractions enter by their canonical
pattern: keys that compare equal have the same form.

## Main definitions

* `Scalar.keyOnto`, `Scalar.keyBytes` — the byte form of a key.
* `Scalar.seededBytes` — the bytes that are hashed: a seed, then the key.
* `Scalar.keyHash` — the 64-bit hash of a key under a seed.

## Main results

* `Scalar.keyOnto_eq` — the form of a key does not depend on what follows it.
* `Scalar.keyBytes_eq_of_equals` — **keys that compare equal have the same
  form.**
-/

namespace StreamPlan
namespace Scalar

/-- The UTF-8 bytes of a text. -/
def textBytes (s : String) : Bytes := s.toUTF8.data.toList

/-- A byte string preceded by its length. -/
def sizedOnto (bytes rest : Bytes) : Bytes :=
  Bytes.ofUInt64 (UInt64.ofNat bytes.length) ++ (bytes ++ rest)

/-- The byte form of a key, in front of a byte string. -/
def keyOnto : Scalar → Bytes → Bytes
  | .null, rest => 0 :: rest
  | .bool b, rest => 1 :: (if b then 1 else 0) :: rest
  | .i32 n, rest => 2 :: (Bytes.ofUInt32 n.toUInt32 ++ rest)
  | .i64 n, rest => 3 :: (Bytes.ofUInt64 n.toUInt64 ++ rest)
  | .f32 x, rest => 4 :: (Bytes.ofUInt32 x.canonical.bits ++ rest)
  | .f64 x, rest => 5 :: (Bytes.ofUInt64 x.canonical.bits ++ rest)
  | .str s, rest => 6 :: sizedOnto (textBytes s) rest
  | .bin bytes, rest => 7 :: sizedOnto bytes rest
  | .pair k v, rest => 8 :: keyOnto k (keyOnto v rest)

/-- The byte form of a key. -/
def keyBytes (key : Scalar) : Bytes := key.keyOnto []

/-- The form of a key does not depend on what follows it. -/
theorem keyOnto_eq (key : Scalar) (rest : Bytes) : key.keyOnto rest = key.keyBytes ++ rest := by
  unfold keyBytes
  induction key generalizing rest with
  | pair k v ihk ihv =>
    simp only [keyOnto]
    rw [ihk (keyOnto v rest), ihv rest, ihk (keyOnto v [])]
    simp
  | _ => simp [keyOnto, sizedOnto]

/-- **Keys that compare equal have the same form.** -/
theorem keyBytes_eq_of_equals {a b : Scalar} (h : equals a b = true) :
    a.keyBytes = b.keyBytes := by
  suffices ∀ rest, a.keyOnto rest = b.keyOnto rest from this []
  fun_induction equals a b with
  | case5 x y => intro rest; simp only [keyOnto, Binary32.canonical_eq_of_ieeeEq h]
  | case6 x y => intro rest; simp only [keyOnto, Binary64.canonical_eq_of_ieeeEq h]
  | case9 k v k' v' ihk ihv =>
    intro rest
    rw [Bool.and_eq_true] at h
    simp only [keyOnto, ihv h.2, ihk h.1]
  | case10 => exact absurd h (by simp)
  | case1 => intro rest; rfl
  | _ =>
    intro rest
    rw [beq_iff_eq] at h
    rw [h]

/-- The bytes that are hashed for a key: the seed, then the key. -/
def seededBytes (seed : UInt64) (key : Scalar) : Bytes := Bytes.ofUInt64 seed ++ key.keyBytes

/-- The 64-bit hash of a key under a seed. -/
def keyHash (key : Scalar) (seed : UInt64) : UInt64 :=
  (Digest.ofBytes ⟨(seededBytes seed key).toArray⟩).word

end Scalar
end StreamPlan
