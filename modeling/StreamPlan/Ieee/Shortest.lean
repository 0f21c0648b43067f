import StreamPlan.Ieee.Basic

/-!
# Shortest decimal text of a floating-point value

The text of a finite value has the fewest digits that read back as the same
value.  The value is `m * 2 ^ q`; the reals that round to it form an interval
around it, closed when `m` is even.  Powers of ten are tried from above: the
first one with a multiple inside the interval gives the digits, the multiple
nearest to the value is taken, and a tie goes to the even one.

## Main definitions

* `Dyadic` — a positive value with the width of its rounding interval.
* `Dyadic.shortest` — the digits and the power of ten.
* `FloatFormat`, `FloatFormat.render` — a format, and where its positional
  notation ends.
* `Binary32.text`, `Binary64.text` — the text of a finite value.
-/

namespace StreamPlan

/-! ### The rounding interval -/

/-- A value `m * 2 ^ q` together with the shape of its rounding interval. -/
structure Dyadic where
  /-- The significand. -/
  m : Nat
  /-- The binary exponent. -/
  q : Int
  /-- The neighbour below is only half as far away as the one above. -/
  narrowBelow : Bool

namespace Dyadic

/-- A power as a fraction. -/
def power (base : Nat) : Int → Nat × Nat
  | .ofNat k => (Nat.pow base k, 1)
  | .negSucc k => (1, Nat.pow base (k + 1))

/-- Whether `c * 10 ^ e` rounds to the value. -/
def holds (d : Dyadic) (c : Nat) (e : Int) : Bool :=
  -- A quarter of the unit in the last place, and the power of ten.
  let (num, den) := power 2 (d.q - 2)
  let (up, down) := power 10 e
  -- All three are measured in the unit `1 / (den * down)`.
  let x := c * up * den
  let lo := (4 * d.m - (if d.narrowBelow then 1 else 2)) * num * down
  let hi := (4 * d.m + 2) * num * down
  if d.m % 2 = 0 then decide (lo ≤ x ∧ x ≤ hi) else decide (lo < x ∧ x < hi)

/-- The multiple of `10 ^ e` nearest to the value among its two neighbours that
round to it. -/
def nearest? (d : Dyadic) (e : Int) : Option Nat :=
  let (num, den) := power 2 (d.q - 2)
  let (up, down) := power 10 e
  let value := 4 * d.m * num * down
  let unit := up * den
  let c := value / unit
  let below := value - c * unit
  let above := unit - below
  let first := if below < above ∨ (below = above ∧ c % 2 = 0) then c else c + 1
  let second := if first = c then c + 1 else c
  if d.holds first e then some first
  else if d.holds second e then some second
  else none

/-- Tries powers of ten downwards from `10 ^ e`. -/
def search (d : Dyadic) : Nat → Int → Nat × Int
  | 0, e => (d.m, e)
  | steps + 1, e =>
    match d.nearest? e with
    | some c => if c = 0 then search d steps (e - 1) else (c, e)
    | none => search d steps (e - 1)

/-- The digits and the power of ten of the shortest decimal.  The search starts
above the value, whose binary logarithm is about `b`, and less than a hundred
powers below it there is one with a multiple in the interval. -/
def shortest (d : Dyadic) : Nat × Int :=
  let b : Int := d.q + (Nat.log2 d.m : Int) + 1
  d.search 128 ((if 0 ≤ b then b / 3 else b / 4) + 2)

end Dyadic

/-! ### Notation -/

/-- A binary format and its decimal notation. -/
structure FloatFormat where
  /-- One more than the largest fraction: the place of the hidden bit. -/
  hiddenBit : Nat
  /-- The binary exponent of the smallest positive value. -/
  lowest : Int
  /-- The largest number of digits before the point in positional notation. -/
  maxBefore : Int
  /-- The largest number of zeros between the point and the first other digit in
  positional notation. -/
  maxZeros : Int

/-- The text of `digits * 10 ^ exponent`: positional in range, with a fraction
even when it is zero, and otherwise with an exponent mark. -/
def FloatFormat.render (f : FloatFormat) (digits : Nat) (exponent : Int) : List Char :=
  let ds := Nat.toDigits 10 digits
  -- The point stands after this many digits.
  let point : Int := ds.length + exponent
  if 0 ≤ exponent ∧ point ≤ f.maxBefore then
    ds ++ List.replicate exponent.toNat '0' ++ ['.', '0']
  else if 0 < point ∧ point ≤ f.maxBefore then
    ds.take point.toNat ++ '.' :: ds.drop point.toNat
  else if -f.maxZeros ≤ point ∧ point ≤ 0 then
    '0' :: '.' :: List.replicate (-point).toNat '0' ++ ds
  else
    let mark := 'e' :: (toString (point - 1)).toList
    match ds with
    | d :: [] => d :: mark
    | d :: rest => d :: '.' :: rest ++ mark
    | [] => mark

/-- The positive value with given exponent and fraction bits. -/
def FloatFormat.dyadic (f : FloatFormat) (magnitude : Nat) : Dyadic :=
  let fraction := magnitude % f.hiddenBit
  let biased := magnitude / f.hiddenBit
  if biased = 0 then ⟨fraction, f.lowest, false⟩
  else ⟨f.hiddenBit + fraction, f.lowest + (biased - 1 : Nat), decide (fraction = 0 ∧ 1 < biased)⟩

/-- The text of a finite value, given its sign and its other bits. -/
def FloatFormat.text (f : FloatFormat) (negative : Bool) (magnitude : Nat) : List Char :=
  let body :=
    if magnitude = 0 then ['0', '.', '0']
    else
      let (digits, exponent) := (f.dyadic magnitude).shortest
      f.render digits exponent
  if negative then '-' :: body else body

/-- Double precision, positional from `1e-5` to below `1e16`. -/
def Binary64.format : FloatFormat := ⟨0x10000000000000, -1074, 16, 4⟩

/-- Single precision, positional from `1e-6` to below `1e13`. -/
def Binary32.format : FloatFormat := ⟨0x800000, -149, 13, 5⟩

/-- The text of a finite value. -/
def Binary64.text (x : Binary64) : List Char := format.text x.isNegative x.magnitude.toNat

/-- The text of a finite value. -/
def Binary32.text (x : Binary32) : List Char := format.text x.isNegative x.magnitude.toNat

end StreamPlan
