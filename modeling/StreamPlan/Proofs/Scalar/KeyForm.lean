import StreamPlan.Scalar.Key

/-!
# The byte form of a key can be read back

Forms of keys stand side by side, in a pair and behind a seed, with nothing between
them.  No two can be confused all the same: a form shows by its first byte of which
type the key is, and then where it ends.  So what is hashed determines the seed and
the key, the key up to the patterns that stand for one value.

## Main definitions

* `Binary32.Alike`, `Binary64.Alike`, `Scalar.Alike` — values with one pattern.
* `Scalar.Sized` — every length in a key fits its field.

## Main results

* `Scalar.keyOnto_eq_iff` — forms in front of byte strings are equal only if the keys
  and the byte strings are.
* `Scalar.seeded_append_eq_iff` — **what is hashed determines the seed and the key.**
-/

namespace StreamPlan

/-! ### Fields -/

namespace Bytes

theorem append_eq_iff_of_length {u v x y : Bytes} (h : u.length = v.length) :
    u ++ x = v ++ y ↔ u = v ∧ x = y := by
  constructor
  · intro happend
    exact List.append_inj happend h
  · rintro ⟨rfl, rfl⟩
    rfl

theorem ofUInt32_append_eq_iff {v w : UInt32} {x y : Bytes} :
    ofUInt32 v ++ x = ofUInt32 w ++ y ↔ v = w ∧ x = y := by
  rw [append_eq_iff_of_length (by simp)]
  exact and_congr_left fun _ => ⟨ofUInt32_injective, congrArg ofUInt32⟩

theorem ofUInt64_append_eq_iff {v w : UInt64} {x y : Bytes} :
    ofUInt64 v ++ x = ofUInt64 w ++ y ↔ v = w ∧ x = y := by
  rw [append_eq_iff_of_length (by simp)]
  exact and_congr_left fun _ => ⟨ofUInt64_injective, congrArg ofUInt64⟩

end Bytes

/-! ### Patterns of fractions -/

/-- Replacing some values by a common pattern, and others by a second one, makes two
values equal only if they were equal or were replaced by the same pattern. -/
theorem ite_pattern_eq_iff {α : Type} {isNaN isZero : α → Bool} {nan zero : α}
    (hnan : isNaN nan = true) (hzero : isZero zero = true)
    (hdisjoint : ∀ x, isZero x = true → isNaN x = false) (x y : α) :
    (if isNaN x then nan else if isZero x then zero else x) =
        (if isNaN y then nan else if isZero y then zero else y) ↔
      (isZero x = true ∧ isZero y = true) ∨ (isNaN x = true ∧ isNaN y = true) ∨ x = y := by
  constructor
  · intro h
    cases hnx : isNaN x <;> cases hny : isNaN y <;> cases hzx : isZero x <;>
      cases hzy : isZero y <;> simp_all
  · rintro (⟨hx, hy⟩ | ⟨hx, hy⟩ | rfl)
    · simp [hx, hy, hdisjoint]
    · simp [hx, hy]
    · rfl

/-- Both are zeros, both are NaNs, or the bits are the same. -/
def Binary32.Alike (x y : Binary32) : Prop :=
  (x.isZero = true ∧ y.isZero = true) ∨ (x.isNaN = true ∧ y.isNaN = true) ∨ x = y

/-- Both are zeros, both are NaNs, or the bits are the same. -/
def Binary64.Alike (x y : Binary64) : Prop :=
  (x.isZero = true ∧ y.isZero = true) ∨ (x.isNaN = true ∧ y.isNaN = true) ∨ x = y

theorem Binary32.canonical_bits_eq_iff {x y : Binary32} :
    x.canonical.bits = y.canonical.bits ↔ x.Alike y := by
  have hdisjoint : ∀ x : Binary32, x.isZero = true → x.isNaN = false := by
    intro x hx
    rw [isNaN, beq_iff_eq.mp hx]
    rfl
  rw [← Binary32.mk.injEq]
  exact ite_pattern_eq_iff (by decide) (by decide) hdisjoint x y

theorem Binary64.canonical_bits_eq_iff {x y : Binary64} :
    x.canonical.bits = y.canonical.bits ↔ x.Alike y := by
  have hdisjoint : ∀ x : Binary64, x.isZero = true → x.isNaN = false := by
    intro x hx
    rw [isNaN, beq_iff_eq.mp hx]
    rfl
  rw [← Binary64.mk.injEq]
  exact ite_pattern_eq_iff (by decide) (by decide) hdisjoint x y

namespace Scalar

/-- Keys of one type with the same contents, except that a fraction stands for all
that have its pattern. -/
def Alike : Scalar → Scalar → Prop
  | .null, .null => True
  | .bool b, .bool c => b = c
  | .i32 m, .i32 n => m = n
  | .i64 m, .i64 n => m = n
  | .f32 x, .f32 y => x.Alike y
  | .f64 x, .f64 y => x.Alike y
  | .str s, .str t => s = t
  | .bin u, .bin v => u = v
  | .pair k v, .pair k' v' => k.Alike k' ∧ v.Alike v'
  | _, _ => False

/-- Texts and byte strings are short enough for their length to be written. -/
def Sized : Scalar → Prop
  | .str s => s.utf8ByteSize < UInt64.size
  | .bin bytes => bytes.length < UInt64.size
  | .pair k v => k.Sized ∧ v.Sized
  | _ => True

theorem textBytes_inj {s t : String} : textBytes s = textBytes t ↔ s = t := by
  constructor
  · intro h
    rw [textBytes, textBytes, Array.toList_inj] at h
    exact String.toByteArray_inj.mp (ByteArray.ext h)
  · rintro rfl
    rfl

/-- The length in front of a byte string tells where it ends. -/
theorem sizedOnto_eq_iff {u v x y : Bytes} (hu : u.length < UInt64.size)
    (hv : v.length < UInt64.size) :
    sizedOnto u x = sizedOnto v y ↔ u = v ∧ x = y := by
  unfold sizedOnto
  rw [Bytes.ofUInt64_append_eq_iff]
  constructor
  · rintro ⟨hlength, h⟩
    have hnat := congrArg UInt64.toNat hlength
    rw [UInt64.toNat_ofNat_of_lt' hu, UInt64.toNat_ofNat_of_lt' hv] at hnat
    exact List.append_inj h hnat
  · rintro ⟨rfl, rfl⟩
    exact ⟨rfl, rfl⟩

/-- **Forms in front of byte strings are equal only if the keys are alike and the byte
strings equal.** -/
theorem keyOnto_eq_iff {a b : Scalar} (ha : a.Sized) (hb : b.Sized) {x y : Bytes} :
    a.keyOnto x = b.keyOnto y ↔ a.Alike b ∧ x = y := by
  -- The byte strings change: what follows a key in a pair is the form of the value.
  induction a generalizing b x y with
  | null => cases b <;> simp [keyOnto, Alike]
  | bool c =>
    cases b with
    | bool d => cases c <;> cases d <;> simp [keyOnto, Alike]
    | _ => simp [keyOnto, Alike]
  | i32 m =>
    cases b with
    | i32 n =>
      rw [keyOnto, keyOnto, List.cons_inj_right, Bytes.ofUInt32_append_eq_iff,
        ← Int32.ofUInt32.injEq]
      rfl
    | _ => simp [keyOnto, Alike]
  | i64 m =>
    cases b with
    | i64 n =>
      rw [keyOnto, keyOnto, List.cons_inj_right, Bytes.ofUInt64_append_eq_iff,
        ← Int64.ofUInt64.injEq]
      rfl
    | _ => simp [keyOnto, Alike]
  | f32 u =>
    cases b with
    | f32 v =>
      rw [keyOnto, keyOnto, List.cons_inj_right, Bytes.ofUInt32_append_eq_iff,
        Binary32.canonical_bits_eq_iff, Alike]
    | _ => simp [keyOnto, Alike]
  | f64 u =>
    cases b with
    | f64 v =>
      rw [keyOnto, keyOnto, List.cons_inj_right, Bytes.ofUInt64_append_eq_iff,
        Binary64.canonical_bits_eq_iff, Alike]
    | _ => simp [keyOnto, Alike]
  | str s =>
    cases b with
    | str t =>
      have hs : (textBytes s).length < UInt64.size := ha
      have ht : (textBytes t).length < UInt64.size := hb
      rw [keyOnto, keyOnto, List.cons_inj_right, sizedOnto_eq_iff hs ht, textBytes_inj, Alike]
    | _ => simp [keyOnto, Alike]
  | bin u =>
    cases b with
    | bin v => rw [keyOnto, keyOnto, List.cons_inj_right, sizedOnto_eq_iff ha hb, Alike]
    | _ => simp [keyOnto, Alike]
  | pair k v ihk ihv =>
    cases b with
    | pair k' v' =>
      rw [keyOnto, keyOnto, List.cons_inj_right, ihk ha.1 hb.1, ihv ha.2 hb.2, Alike, and_assoc]
    | _ => simp [keyOnto, Alike]

/-- **What is hashed determines the seed and the key**, and so does what is hashed
together with anything that follows it. -/
theorem seeded_append_eq_iff {a b : Scalar} (ha : a.Sized) (hb : b.Sized) (s t : UInt64) :
    (∀ x y : Bytes, Bytes.ofUInt64 s ++ a.keyBytes ++ x = Bytes.ofUInt64 t ++ b.keyBytes ++ y ↔
      s = t ∧ a.Alike b ∧ x = y) ∧
    (seededBytes s a = seededBytes t b ↔ s = t ∧ a.Alike b) := by
  constructor
  · intro x y
    rw [List.append_assoc, List.append_assoc, Bytes.ofUInt64_append_eq_iff, ← keyOnto_eq,
      ← keyOnto_eq, keyOnto_eq_iff ha hb]
  · unfold seededBytes keyBytes
    rw [Bytes.ofUInt64_append_eq_iff, keyOnto_eq_iff ha hb, eq_self, and_true]

/-- A pair with a zero of either sign, under one seed and under two. -/
theorem seeded_append_eq_iff_pair :
    (pair (f64 ⟨0⟩) (str "ab")).Sized ∧ (pair (f64 ⟨0x8000000000000000⟩) (str "ab")).Sized ∧
      seededBytes 7 (pair (f64 ⟨0⟩) (str "ab")) =
        seededBytes 7 (pair (f64 ⟨0x8000000000000000⟩) (str "ab")) ∧
      seededBytes 7 (pair (f64 ⟨0⟩) (str "ab")) ≠
        seededBytes 8 (pair (f64 ⟨0x8000000000000000⟩) (str "ab")) := by
  have hsize : "ab".utf8ByteSize < UInt64.size := by decide
  have ha : (pair (f64 ⟨0⟩) (str "ab")).Sized := ⟨trivial, hsize⟩
  have hb : (pair (f64 ⟨0x8000000000000000⟩) (str "ab")).Sized := ⟨trivial, hsize⟩
  refine ⟨ha, hb, (seeded_append_eq_iff ha hb 7 7).2.mpr ⟨rfl, ?_, rfl⟩, fun h => ?_⟩
  · exact Or.inl ⟨by decide, by decide⟩
  · exact absurd ((seeded_append_eq_iff ha hb 7 8).2.mp h).1 (by decide)

end Scalar

end StreamPlan
