import StreamPlan.Config.Json
import StreamPlan.Proofs.Json.TypedValues
import StreamPlan.Scalar.Json

/-!
# Values, windows and settings are read back

A record value, a window or settings that are written down without blanks are read back as
they were.  Record values with fractions are left out, since fractions go through decimal
text.  A pair is written as an object around an array, and a value that is used may be
nested only so deeply: a record value is read back if and only if its JSON form keeps to
that limit.

## Main definitions

* `Scalar.isFractionFree` — the record values without fractions.

## Main results

* `Scalar.ofJsonWithin?_toJson` — **a record value is read back from its JSON form within
  the limit, and refused beyond it.**
* `Window.ofJson?_toJson`, `Config.ofJson?_toJson` — so are windows and settings.
* `read_compact` — **the texts of record values, windows and settings are read back.**
-/

namespace StreamPlan

namespace Json

/-! ### Numbers -/

@[simp] theorem toUInt8?_ofNat (n : UInt8) : (ofNat n.toNat).toUInt8? = some n := by
  have hlt : n.toNat < 256 := n.toNat_lt
  have hread : (ofNat n.toNat).toIntBetween? 0 255 = some n.toNat :=
    toIntBetween?_ofInt (by omega) (by omega)
  simp [toUInt8?, hread]

@[simp] theorem toInt32?_ofInt (n : Int32) : (ofInt n.toInt).toInt32? = some n := by
  have hhigh : n.toInt < 2147483648 := n.toInt_lt
  have hread : (ofInt n.toInt).toIntBetween? (-2147483648) 2147483647 = some n.toInt :=
    toIntBetween?_ofInt n.le_toInt (by omega)
  simp [toInt32?, hread]

@[simp] theorem toInt64?_ofInt (n : Int64) : (ofInt n.toInt).toInt64? = some n := by
  have hhigh : n.toInt < 9223372036854775808 := n.toInt_lt
  have hread : (ofInt n.toInt).toIntBetween? (-9223372036854775808) 9223372036854775807 =
      some n.toInt :=
    toIntBetween?_ofInt n.le_toInt (by omega)
  simp [toInt64?, hread]

theorem fits_ofInt (depth : Nat) (n : Int) : (ofInt n).fits depth = true := rfl

/-- Signed words of at most 64 bits are exact. -/
theorem isExact_ofInt {n : Int} (hlow : -9223372036854775808 ≤ n) (hhigh : n < 9223372036854775808) :
    (ofInt n).isExact = true := by
  have hsize : ((UInt64.size : Nat) : Int) = 18446744073709551616 := rfl
  simp only [ofInt, isExact, decide_eq_true_eq]
  omega

theorem read?_compact {v : Json} (hv : v.isExact = true) : read? v.compact = some v :=
  read?_write Layout.isBlank_compact hv

end Json

/-! ### Record values -/

namespace Scalar

/-- There are no fractions in the value. -/
def isFractionFree : Scalar → Bool
  | .f32 _ => false
  | .f64 _ => false
  | .pair k v => k.isFractionFree && v.isFractionFree
  | _ => true

theorem isExact_toJson {x : Scalar} (h : x.isFractionFree = true) : x.toJson.isExact = true := by
  induction x with
  | null => rfl
  | bool b => rfl
  | i32 n =>
    have hlow : -2147483648 ≤ n.toInt := n.le_toInt
    have hhigh : n.toInt < 2147483648 := n.toInt_lt
    have hexact := Json.isExact_ofInt (n := n.toInt) (by omega) (by omega)
    simp [toJson, Json.isExact, Json.isExactFields, hexact]
  | i64 n =>
    have hexact := Json.isExact_ofInt n.le_toInt n.toInt_lt
    simp [toJson, Json.isExact, Json.isExactFields, hexact]
  | f32 x => cases h
  | f64 x => cases h
  | str s => rfl
  | bin bytes =>
    have hitems : Json.isExactItems (bytes.map fun b => .ofNat b.toNat) = true := by
      rw [Json.isExactItems_iff]
      intro item hitem
      obtain ⟨b, -, rfl⟩ := List.mem_map.mp hitem
      exact Json.isExact_ofNat (Nat.lt_trans b.toNat_lt (by decide))
    simp [toJson, Json.isExact, Json.isExactFields, hitems]
  | pair k v ihk ihv =>
    simp only [isFractionFree, Bool.and_eq_true] at h
    simp [toJson, Json.isExact, Json.isExactFields, Json.isExactItems, ihk h.1, ihv h.2]

/-- A value that is written as an object around no further one needs one level. -/
theorem ofJsonWithin?_leaf {name : String} (hpair : name ≠ "Pair") (hbin : name ≠ "Bin")
    (depth : Nat) (data : Json) :
    ofJsonWithin? depth (.obj [(name, data)]) =
      if 0 < depth then leafOfJson? name data else none := by
  cases depth with
  | zero => simp [ofJsonWithin?]
  | succ depth =>
    simp [ofJsonWithin?, hpair, hbin]

/-- A byte string is an array inside an object. -/
theorem ofJsonWithin?_bin (depth : Nat) (bytes : Bytes) :
    ofJsonWithin? depth (bin bytes).toJson =
      if (bin bytes).toJson.fits depth then some (bin bytes) else none := by
  have hitems : (bytes.map fun b => Json.ofNat b.toNat).mapM Json.toUInt8? = some bytes :=
    mapM_map_eq_some fun b _ => Json.toUInt8?_ofNat b
  have hfits : ∀ depth, Json.fitsItems depth (bytes.map fun b => .ofNat b.toNat) = true := by
    intro depth
    rw [Json.fitsItems_iff]
    intro item hitem
    obtain ⟨b, -, rfl⟩ := List.mem_map.mp hitem
    rfl
  rcases depth with _ | _ | depth
  · rfl
  · rfl
  · simp [toJson, ofJsonWithin?, hitems, Json.fits, Json.fitsFields, hfits]

/-- **A record value is read back from its JSON form if it is not nested too deeply, and
refused otherwise.** -/
theorem ofJsonWithin?_toJson {x : Scalar} (h : x.isFractionFree = true) (depth : Nat) :
    ofJsonWithin? depth x.toJson = if x.toJson.fits depth then some x else none := by
  induction x generalizing depth with
  | null => simp [toJson, ofJsonWithin?, Json.fits]
  | bool b =>
    rw [toJson, ofJsonWithin?_leaf (by decide) (by decide)]
    simp [leafOfJson?, Json.toBool?, Json.fits, Json.fitsFields]
  | i32 n =>
    rw [toJson, ofJsonWithin?_leaf (by decide) (by decide)]
    simp [leafOfJson?, Json.fits, Json.fitsFields, Json.fits_ofInt]
  | i64 n =>
    rw [toJson, ofJsonWithin?_leaf (by decide) (by decide)]
    simp [leafOfJson?, Json.fits, Json.fitsFields, Json.fits_ofInt]
  | f32 x => cases h
  | f64 x => cases h
  | str s =>
    rw [toJson, ofJsonWithin?_leaf (by decide) (by decide)]
    simp [leafOfJson?, Json.toText?, Json.fits, Json.fitsFields]
  | bin bytes => exact ofJsonWithin?_bin depth bytes
  | pair k v ihk ihv =>
    simp only [isFractionFree, Bool.and_eq_true] at h
    -- the halves are two levels below the pair
    rcases depth with _ | _ | depth
    · rfl
    · rfl
    · have hfits : (pair k v).toJson.fits (depth + 2) =
          (k.toJson.fits depth && v.toJson.fits depth) := by
        simp [toJson, Json.fits, Json.fitsFields, Json.fitsItems]
      rw [hfits, toJson, ofJsonWithin?, ihk h.1, ihv h.2]
      cases k.toJson.fits depth <;> cases v.toJson.fits depth <;> rfl

end Scalar

/-! ### Windows and settings -/

theorem Duration.ofJson?_toJson (d : Duration) : ofJson? d.toJson = some d := by
  apply ofJson?_of_record
  · simp [toJson, onlyParts]
  · simp [toJson, Json.record?, Json.field?]

theorem Window.ofJson?_toJson (w : Window) : ofJson? w.toJson = some w :=
  ofJson?_form Duration.ofJson?_toJson w

namespace Config

theorem isExact_toJson (c : Config) : c.toJson.isExact = true := by
  simp [toJson, Json.isExact, Json.isExactFields]

theorem ofJson?_toJson (c : Config) : ofJson? c.toJson = some c := by
  have hrecord : c.toJson.record?
      ["default_source_partitions", "max_partitions", "routing_seed", "verify"] =
      some [some (.ofUInt64 c.defaultSourcePartitions), some (.ofUInt64 c.maxPartitions),
        some (.ofUInt64 c.routingSeed), some (.bool c.verify)] := by
    simp [toJson, Json.record?, Json.field?]
  simp [ofJson?, hrecord, orDefault, Json.toBool?]

end Config

/-! ### Texts -/

/-- **The texts of record values, windows and settings are read back.**  A record value
without fractions comes back if its arrays and objects keep to the limit on how many may
stand one inside another, and is refused otherwise; a window need not be valid. -/
theorem read_compact :
    (∀ x : Scalar, x.isFractionFree = true →
      (Json.read? x.toJson.compact).bind Scalar.ofJson? =
        if x.toJson.fits Json.maxDepth then some x else none) ∧
    (∀ w : Window, (Json.read? w.toJson.compact).bind Window.ofJson? = some w) ∧
    ∀ c : Config, (Json.read? c.toJson.compact).bind Config.ofJson? = some c := by
  refine ⟨fun x hx => ?_, fun w => ?_, fun c => ?_⟩
  · rw [Json.read?_compact (Scalar.isExact_toJson hx), Option.bind_some]
    exact Scalar.ofJsonWithin?_toJson hx Json.maxDepth
  · rw [Json.read?_compact w.isExact_toJson, Option.bind_some, Window.ofJson?_toJson]
  · rw [Json.read?_compact c.isExact_toJson, Option.bind_some, Config.ofJson?_toJson]

/-- The least word inside as many pairs as may be read, with a control character beside it
in each, and inside one pair more. -/
theorem read_compact_deepest :
    ∃ x : Scalar, x = Nat.repeat (.pair (.str "\x00")) 63 (.i64 (-9223372036854775808)) ∧
      x.isFractionFree = true ∧ x.toJson.fits Json.maxDepth = true ∧
      (Json.read? x.toJson.compact).bind Scalar.ofJson? = some x ∧
      (Json.read? (Scalar.pair .null x).toJson.compact).bind Scalar.ofJson? = none := by
  refine ⟨_, rfl, by decide +kernel, by decide +kernel, ?_, ?_⟩
  · rw [read_compact.1 _ (by decide +kernel), if_pos (by decide +kernel)]
  · rw [read_compact.1 _ (by decide +kernel), if_neg (by decide +kernel)]

end StreamPlan
