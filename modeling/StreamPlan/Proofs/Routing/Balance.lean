import Mathlib.Data.Int.CardIntervalMod
import StreamPlan.Routing.Grouping

/-!
# A shuffle is balanced

A shuffle deals records out in turn.  Over any stretch of consecutive running numbers, each
instance gets the same number of records up to one: the stretch consists of whole rounds, in
which every instance has its turn once, and of one round that is cut short.  Where the
stretch starts only decides which instances have a turn in the short round.

The running number must not wrap around inside the stretch.  A round would be cut short
there as well, unless the number of instances divides the number of words.

## Main definitions

* `Grouping.targets` — where records with consecutive running numbers go.

## Main results

* `Grouping.count_targets_shuffle` — how many records an instance gets.
* `Grouping.targets_shuffle_balanced` — **every instance gets the same share, rounded down
  or up.**
-/

namespace StreamPlan

/-! ### Turns -/

/-- The number of turns of one residue in a stretch of consecutive numbers: one for each
whole round, and one more if its place in a round from the start on is in the short round. -/
theorem count_add_modEq {r : Nat} (hr : 0 < r) (start v n : Nat) :
    Nat.count (fun k => start + k ≡ v [MOD r]) n =
      n / r + if (v + (r - start % r)) % r < n % r then 1 else 0 := by
  have hlt : start % r < r := Nat.mod_lt start hr
  -- from the start on, the first turn comes after `v + (r - start % r)` places
  have hround : start + (r - start % r) ≡ 0 [MOD r] := by
    have hdiv := Nat.div_add_mod start r
    have hmultiple : start + (r - start % r) = r * (start / r + 1) := by
      rw [Nat.mul_add, Nat.mul_one]
      omega
    rw [hmultiple]
    exact (Nat.modEq_zero_iff_dvd).mpr (Nat.dvd_mul_right r _)
  have hturn : ∀ k, start + k ≡ v [MOD r] ↔ k ≡ v + (r - start % r) [MOD r] := by
    intro k
    have hshift : start + k + (r - start % r) ≡ k [MOD r] := by
      have := hround.add_right k
      rwa [Nat.zero_add, Nat.add_right_comm] at this
    constructor
    · intro h
      exact hshift.symm.trans (h.add_right _)
    · intro h
      exact Nat.ModEq.add_right_cancel' (r - start % r) (hshift.trans h)
  simp only [hturn]
  exact Nat.count_modEq_card n hr (v + (r - start % r))

/-- A round that is cut short rounds the number of rounds up. -/
theorem div_add_one_eq_ceil {n r : Nat} (hr : 0 < r) (h : 0 < n % r) :
    n / r + 1 = (n + r - 1) / r := by
  have hlt : n % r < r := Nat.mod_lt n hr
  have hdiv := Nat.div_add_mod n r
  have hlow : (n / r + 1) * r = r * (n / r) + r := by
    rw [Nat.add_mul, Nat.one_mul, Nat.mul_comm]
  have hhigh : (n / r + 1 + 1) * r = r * (n / r) + r + r := by
    rw [Nat.add_mul, hlow, Nat.one_mul]
  symm
  apply Nat.div_eq_of_lt_le
  · omega
  · omega

/-! ### Shuffles -/

theorem toNat_instances_of_pos {partitions : UInt64} (hpos : 0 < partitions.toNat) :
    (instances partitions).toNat = partitions.toNat := by
  rw [toNat_instances]
  omega

/-- An instance has its turn once in a round. -/
theorem shuffleTarget_eq_iff {n : Nat} (hn : n < UInt64.size) {i partitions : UInt64}
    (hi : i < partitions) :
    shuffleTarget (UInt64.ofNat n) partitions = i ↔ n ≡ i.toNat [MOD partitions.toNat] := by
  have hlt : i.toNat < partitions.toNat := UInt64.lt_iff_toNat_lt.mp hi
  have htarget : (shuffleTarget (UInt64.ofNat n) partitions).toNat = n % partitions.toNat := by
    rw [shuffleTarget, UInt64.toNat_mod, UInt64.toNat_ofNat_of_lt' hn,
      toNat_instances_of_pos (Nat.zero_lt_of_lt hlt)]
  rw [← UInt64.toNat_inj, htarget, Nat.ModEq, Nat.mod_eq_of_lt hlt]

namespace Grouping

/-- The instances that records with consecutive running numbers go to. -/
def targets (g : Grouping) (start : Nat) (partitions : UInt64) (records : List Scalar) :
    List UInt64 :=
  (records.zipIdx start).map fun r => g.target r.1 (UInt64.ofNat r.2) partitions

/-- A shuffle looks at the running numbers only. -/
theorem targets_shuffle (start : Nat) (partitions : UInt64) (records : List Scalar) :
    shuffle.targets start partitions records =
      (List.range records.length).map fun k =>
        shuffleTarget (UInt64.ofNat (start + k)) partitions := by
  have hnumbers : (records.zipIdx start).map Prod.snd =
      (List.range records.length).map (start + ·) := by
    rw [List.zipIdx_map_snd, List.range'_eq_map_range]
  calc shuffle.targets start partitions records
      = ((records.zipIdx start).map Prod.snd).map fun k =>
          shuffleTarget (UInt64.ofNat k) partitions := by
        rw [List.map_map]
        rfl
    _ = _ := by
        rw [hnumbers, List.map_map]
        rfl

/-- **How many records an instance gets.**  Its place in a round is counted from the
instance that the first record goes to. -/
theorem count_targets_shuffle {partitions : UInt64} {start : Nat} {records : List Scalar}
    (hwrap : start + records.length ≤ UInt64.size) {i : UInt64} (hi : i < partitions) :
    (shuffle.targets start partitions records).count i =
      records.length / partitions.toNat +
        if (i.toNat + (partitions.toNat - start % partitions.toNat)) % partitions.toNat <
          records.length % partitions.toNat then 1 else 0 := by
  have hpos : 0 < partitions.toNat := Nat.zero_lt_of_lt (UInt64.lt_iff_toNat_lt.mp hi)
  rw [← count_add_modEq hpos start i.toNat records.length, targets_shuffle, List.count_eq_countP,
    List.countP_map, Nat.count]
  apply List.countP_congr
  intro k hk
  have hk : k < records.length := List.mem_range.mp hk
  have hturn := shuffleTarget_eq_iff (n := start + k) (by omega) hi
  simpa using hturn

/-- **Every instance gets the same share of the records**, rounded down or up, whatever the
records are and with whatever running number they start; and no record goes anywhere
else. -/
theorem targets_shuffle_balanced {partitions : UInt64} (hpos : 1 ≤ partitions) {start : Nat}
    {records : List Scalar} (hwrap : start + records.length ≤ UInt64.size) :
    (∀ target ∈ shuffle.targets start partitions records, target < partitions) ∧
      ∀ i < partitions,
        (shuffle.targets start partitions records).count i =
            records.length / partitions.toNat ∨
          (shuffle.targets start partitions records).count i =
            (records.length + partitions.toNat - 1) / partitions.toNat := by
  have hpos' : 0 < partitions.toNat := UInt64.le_iff_toNat_le.mp hpos
  constructor
  · intro target htarget
    rw [targets_shuffle] at htarget
    obtain ⟨k, -, rfl⟩ := List.mem_map.mp htarget
    rw [UInt64.lt_iff_toNat_lt, ← toNat_instances_of_pos hpos']
    exact UInt64.lt_iff_toNat_lt.mp (shuffleTarget_lt _ partitions)
  · intro i hi
    rw [count_targets_shuffle hwrap hi]
    split
    · next hshort =>
      exact .inr (div_add_one_eq_ceil hpos' (Nat.zero_lt_of_lt hshort))
    · exact .inl (Nat.add_zero _)

/-- Five records with the last running numbers, over three instances.  The middle instance
has its turn once and the others have it twice. -/
theorem targets_shuffle_balanced_last :
    (1 : UInt64) ≤ 3 ∧ (UInt64.size - 5) + (List.replicate 5 Scalar.null).length ≤ UInt64.size ∧
      shuffle.targets (UInt64.size - 5) 3 (List.replicate 5 .null) = [2, 0, 1, 2, 0] ∧
      ((∀ target ∈ shuffle.targets (UInt64.size - 5) 3 (List.replicate 5 .null), target < 3) ∧
        ∀ i < (3 : UInt64),
          (shuffle.targets (UInt64.size - 5) 3 (List.replicate 5 .null)).count i = 5 / 3 ∨
            (shuffle.targets (UInt64.size - 5) 3 (List.replicate 5 .null)).count i =
              (5 + 3 - 1) / 3) :=
  ⟨by decide, by decide, by decide, targets_shuffle_balanced (by decide) (by decide)⟩

end Grouping

end StreamPlan
