/-!
# Byte strings

Byte strings are lists of bytes: they are built by appending fields and compared
field by field, which is what the key encoding needs.

## Main definitions

* `Bytes` — a byte string.
* `Bytes.littleEndian` — the low bytes of a number, least significant first;
  `Bytes.toNat` reads them back.
* `Bytes.hex`, `Bytes.ofHex?` — two hexadecimal digits a byte.
-/

namespace StreamPlan

/-- A byte string. -/
abbrev Bytes := List UInt8

namespace Bytes

/-! ### Little-endian fields -/

/-- The low `width` bytes of `n`, least significant first. -/
def littleEndian : Nat → Nat → Bytes
  | 0, _ => []
  | width + 1, n => UInt8.ofNat n :: littleEndian width (n / 256)

/-- The number whose little-endian bytes are given. -/
def toNat : Bytes → Nat
  | [] => 0
  | b :: bs => b.toNat + 256 * toNat bs

/-- How many numbers a field of a width can hold. -/
def capacity : Nat → Nat
  | 0 => 1
  | width + 1 => 256 * capacity width

@[simp] theorem littleEndian_zero (n : Nat) : littleEndian 0 n = [] := rfl

@[simp] theorem length_littleEndian (width n : Nat) : (littleEndian width n).length = width := by
  induction width generalizing n with
  | zero => rfl
  | succ width ih => simp [littleEndian, ih]

/-- A number that fits its field is read back from it. -/
theorem toNat_littleEndian {width n : Nat} (h : n < capacity width) :
    toNat (littleEndian width n) = n := by
  induction width generalizing n with
  | zero =>
    have hn : n = 0 := Nat.lt_one_iff.mp h
    rw [hn]
    rfl
  | succ width ih =>
    have hq : n / 256 < capacity width := Nat.div_lt_of_lt_mul h
    rw [littleEndian, toNat, ih hq, UInt8.toNat_ofNat']
    exact Nat.mod_add_div n 256

/-- The four bytes of a 32-bit word. -/
def ofUInt32 (w : UInt32) : Bytes := littleEndian 4 w.toNat

/-- The eight bytes of a 64-bit word. -/
def ofUInt64 (w : UInt64) : Bytes := littleEndian 8 w.toNat

@[simp] theorem length_ofUInt32 (w : UInt32) : (ofUInt32 w).length = 4 :=
  length_littleEndian 4 _

@[simp] theorem length_ofUInt64 (w : UInt64) : (ofUInt64 w).length = 8 :=
  length_littleEndian 8 _

theorem ofUInt32_injective {v w : UInt32} (h : ofUInt32 v = ofUInt32 w) : v = w := by
  have hv := @toNat_littleEndian 4 v.toNat v.toNat_lt
  have hw := @toNat_littleEndian 4 w.toNat w.toNat_lt
  unfold ofUInt32 at h
  rw [h, hw] at hv
  exact (UInt32.toNat_inj.mp hv).symm

theorem ofUInt64_injective {v w : UInt64} (h : ofUInt64 v = ofUInt64 w) : v = w := by
  have hv := @toNat_littleEndian 8 v.toNat v.toNat_lt
  have hw := @toNat_littleEndian 8 w.toNat w.toNat_lt
  unfold ofUInt64 at h
  rw [h, hw] at hv
  exact (UInt64.toNat_inj.mp hv).symm

/-! ### Hexadecimal text -/

/-- The hexadecimal digit of a number below sixteen, in lower case. -/
def hexDigit (n : Nat) : Char :=
  if n < 10 then Char.ofNat (48 + n) else Char.ofNat (87 + n)

/-- The value of a hexadecimal digit of either case. -/
def hexValue? (c : Char) : Option Nat :=
  if '0' ≤ c ∧ c ≤ '9' then some (c.toNat - 48)
  else if 'a' ≤ c ∧ c ≤ 'f' then some (c.toNat - 87)
  else if 'A' ≤ c ∧ c ≤ 'F' then some (c.toNat - 55)
  else none

/-- The two digits of a byte. -/
def hexPair (b : UInt8) : List Char := [hexDigit (b.toNat / 16), hexDigit (b.toNat % 16)]

/-- The hexadecimal text of a byte string. -/
def hex (bs : Bytes) : String := String.ofList (bs.flatMap hexPair)

/-- The byte string a run of hexadecimal digits stands for, after the bytes read
so far, latest first. -/
def ofHexChars? (done : Bytes) : List Char → Option Bytes
  | [] => some done.reverse
  | [_] => none
  | a :: b :: rest =>
    match hexValue? a, hexValue? b with
    | some x, some y => ofHexChars? (UInt8.ofNat (16 * x + y) :: done) rest
    | _, _ => none

/-- The byte string a hexadecimal text stands for. -/
def ofHex? (text : String) : Option Bytes := ofHexChars? [] text.toList

/-- The number a big-endian run of hexadecimal digits stands for. -/
def hexNat? (cs : List Char) : Option Nat :=
  cs.foldl (fun acc c => match acc, hexValue? c with
    | some n, some d => some (16 * n + d)
    | _, _ => none) (some 0)

end Bytes

end StreamPlan
