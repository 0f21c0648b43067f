/-!
# IEEE floating-point values as bit patterns

A floating-point value is kept as its bits, so that a record travels unchanged,
the payload of a NaN included.  Two questions are asked of the bits: whether two
values compare equal, and which pattern stands for a value when it is hashed.

## Main definitions

* `Binary32`, `Binary64` — the two formats.
* `Binary32.ieeeEq`, `Binary64.ieeeEq` — comparison: a NaN differs from
  everything, and the two zeros are equal.
* `Binary32.canonical`, `Binary64.canonical` — one pattern for all NaNs and one
  for both zeros; every other value is its own pattern.
-/

namespace StreamPlan

/-- A single-precision value. -/
structure Binary32 where
  /-- The sign bit, eight exponent bits and 23 fraction bits. -/
  bits : UInt32
  deriving DecidableEq, Repr, Inhabited

/-- A double-precision value. -/
structure Binary64 where
  /-- The sign bit, eleven exponent bits and 52 fraction bits. -/
  bits : UInt64
  deriving DecidableEq, Repr, Inhabited

/-- Let a pattern stand for all NaNs and another one for all zeros.  Values that are no NaNs
and are the same, or both zeros, then have one pattern. -/
theorem ite_pattern_eq_of_beq {α : Type} [DecidableEq α] {isNaN isZero : α → Bool} {x y : α}
    (h : (!isNaN x && !isNaN y && (x == y || (isZero x && isZero y))) = true) (nan zero : α) :
    (if isNaN x then nan else if isZero x then zero else x) =
      if isNaN y then nan else if isZero y then zero else y := by
  simp only [Bool.and_eq_true, Bool.not_eq_true', Bool.or_eq_true, beq_iff_eq] at h
  obtain ⟨⟨hx, hy⟩, rfl | ⟨zx, zy⟩⟩ := h
  · rfl
  · simp [hx, hy, zx, zy]

namespace Binary32

/-- The bits without the sign. -/
def magnitude (x : Binary32) : UInt32 := x.bits &&& 0x7fffffff

/-- The value is not a number. -/
def isNaN (x : Binary32) : Bool := decide (0x7f800000 < x.magnitude)

/-- The value is a zero of either sign. -/
def isZero (x : Binary32) : Bool := x.magnitude == 0

/-- The value is neither infinite nor a NaN. -/
def isFinite (x : Binary32) : Bool := decide (x.magnitude < 0x7f800000)

/-- The sign bit is set. -/
def isNegative (x : Binary32) : Bool := decide (0x80000000 ≤ x.bits)

/-- The quiet NaN that stands for all of them. -/
def nan : Binary32 := ⟨0x7fc00000⟩

/-- The positive zero. -/
def zero : Binary32 := ⟨0⟩

/-- The pattern that stands for a value. -/
def canonical (x : Binary32) : Binary32 :=
  if x.isNaN then nan else if x.isZero then zero else x

/-- Comparison of values. -/
def ieeeEq (x y : Binary32) : Bool :=
  !x.isNaN && !y.isNaN && (x == y || (x.isZero && y.isZero))

/-- Values that compare equal have one pattern. -/
theorem canonical_eq_of_ieeeEq {x y : Binary32} (h : ieeeEq x y = true) :
    x.canonical = y.canonical :=
  ite_pattern_eq_of_beq h nan zero

end Binary32

namespace Binary64

/-- The bits without the sign. -/
def magnitude (x : Binary64) : UInt64 := x.bits &&& 0x7fffffffffffffff

/-- The value is not a number. -/
def isNaN (x : Binary64) : Bool := decide (0x7ff0000000000000 < x.magnitude)

/-- The value is a zero of either sign. -/
def isZero (x : Binary64) : Bool := x.magnitude == 0

/-- The value is neither infinite nor a NaN. -/
def isFinite (x : Binary64) : Bool := decide (x.magnitude < 0x7ff0000000000000)

/-- The sign bit is set. -/
def isNegative (x : Binary64) : Bool := decide (0x8000000000000000 ≤ x.bits)

/-- The quiet NaN that stands for all of them. -/
def nan : Binary64 := ⟨0x7ff8000000000000⟩

/-- The positive zero. -/
def zero : Binary64 := ⟨0⟩

/-- The pattern that stands for a value. -/
def canonical (x : Binary64) : Binary64 :=
  if x.isNaN then nan else if x.isZero then zero else x

/-- Comparison of values. -/
def ieeeEq (x y : Binary64) : Bool :=
  !x.isNaN && !y.isNaN && (x == y || (x.isZero && y.isZero))

/-- Values that compare equal have one pattern. -/
theorem canonical_eq_of_ieeeEq {x y : Binary64} (h : ieeeEq x y = true) :
    x.canonical = y.canonical :=
  ite_pattern_eq_of_beq h nan zero

/-! ### Decimal literals

A literal is a significand of at most 64 bits times a power of ten.  Its value
is the significand, rounded, then scaled by one correctly rounded power; powers
beyond the format are applied in steps of `10 ^ 308`. -/

/-- The value of a machine number. -/
def ofFloat (f : Float) : Binary64 := ⟨f.toBits⟩

/-- The machine number of a value. -/
def toFloat (x : Binary64) : Float := Float.ofBits x.bits

/-- A power of ten, correctly rounded. -/
def powerOfTen (n : Nat) : Float := Float.ofScientific 1 false n

/-- Division by `10 ^ n`.  The first argument bounds the steps: a 64-bit number
divided three times by `10 ^ 308` is zero. -/
def divideByPower : Nat → Float → Nat → Float
  | 0, f, _ => f
  | steps + 1, f, n =>
    if n ≤ 308 then f / powerOfTen n
    else if f == 0 then f
    else divideByPower steps (f / powerOfTen 308) (n - 308)

/-- The magnitude `significand * 10 ^ exponent`, unless it is too large. -/
def scale? (significand : UInt64) : Int → Option Float
  | .ofNat n =>
    let f := significand.toFloat
    if n ≤ 308 then
      let g := f * powerOfTen n
      if g.isInf then none else some g
    else if f == 0 then some f
    else none
  | .negSucc n => some (divideByPower 4 significand.toFloat (n + 1))

/-- The value of a decimal literal, unless it is too large. -/
def ofDecimal? (negative : Bool) (significand : UInt64) (exponent : Int) : Option Binary64 :=
  (scale? significand exponent).map fun f => ofFloat (if negative then -f else f)

/-- The value nearest to an integer in the range of 64-bit words of either sign. -/
def ofInt : Int → Binary64
  | .ofNat n => ofFloat (UInt64.ofNat n).toFloat
  | .negSucc n => ofFloat (Int64.ofInt (.negSucc n)).toFloat

end Binary64

/-- The single-precision value nearest to an integer in the range of 64-bit
words of either sign. -/
def Binary32.ofInt : Int → Binary32
  | .ofNat n => ⟨(UInt64.ofNat n).toFloat32.toBits⟩
  | .negSucc n => ⟨(Int64.ofInt (.negSucc n)).toFloat32.toBits⟩

/-- The single-precision value nearest to a double-precision one. -/
def Binary32.ofBinary64 (x : Binary64) : Binary32 := ⟨x.toFloat.toFloat32.toBits⟩

end StreamPlan
