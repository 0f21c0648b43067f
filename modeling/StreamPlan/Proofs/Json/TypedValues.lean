import StreamPlan.Proofs.Json.FreeForm
import StreamPlan.Window.Basic

/-!
# Numbers, spans and windows are read back

A value of another type is written as a JSON value, and the rules for reading it give the
value that was written.  A window inside a free-form value has its keys in another order
than one that is written by itself; it is read back all the same, since a record is read
by the names of its fields.

## Main results

* `Json.toUInt64?_ofUInt64`, `Json.toUInt32?_ofNat` — words are read back.
* `Window.isExact_toJson`, `Window.fits_toJson` — a window can be read back from its text.
* `Window.ofJson?_sorted` — **a window is read back from a free-form value.**
-/

namespace StreamPlan

namespace Json

/-! ### Words -/

theorem toIntBetween?_ofInt {lo hi n : Int} (hlo : lo ≤ n) (hhi : n ≤ hi) :
    (ofInt n).toIntBetween? lo hi = some n :=
  if_pos ⟨hlo, hhi⟩

@[simp] theorem toUInt64?_ofUInt64 (n : UInt64) : (ofUInt64 n).toUInt64? = some n := by
  have hlt : n.toNat < 18446744073709551616 := n.toNat_lt
  have hread : (ofUInt64 n).toIntBetween? 0 18446744073709551615 = some n.toNat :=
    toIntBetween?_ofInt (by omega) (by omega)
  simp [toUInt64?, hread]

@[simp] theorem toUInt32?_ofNat (n : UInt32) : (ofNat n.toNat).toUInt32? = some n := by
  have hlt : n.toNat < 4294967296 := n.toNat_lt
  have hread : (ofNat n.toNat).toIntBetween? 0 4294967295 = some n.toNat :=
    toIntBetween?_ofInt (by omega) (by omega)
  simp [toUInt32?, hread]

theorem isExact_ofNat {n : Nat} (h : n < UInt64.size) : (ofNat n).isExact = true := by
  simp only [ofNat, isExact, decide_eq_true_eq]
  exact ⟨by omega, Int.ofNat_lt.mpr h⟩

@[simp] theorem isExact_ofUInt64 (n : UInt64) : (ofUInt64 n).isExact = true :=
  isExact_ofNat n.toNat_lt

@[simp] theorem fits_ofUInt64 (depth : Nat) (n : UInt64) : (ofUInt64 n).fits depth = true := rfl

end Json

/-! ### Spans of time -/

namespace Duration

/-- The parts of a span make the span. -/
theorem ofParts?_eq_some (d : Duration) : ofParts? d.secs d.nanos = some d := by
  have hcarry : d.nanos.toNat / 1000000000 = 0 := Nat.div_eq_of_lt d.nanos_lt
  have hrest : d.nanos.toNat % 1000000000 = d.nanos.toNat := Nat.mod_eq_of_lt d.nanos_lt
  simp only [ofParts?, hcarry, hrest, Nat.add_zero, UInt64.ofNat_toNat, UInt32.ofNat_toNat]
  rw [if_pos d.secs.toNat_lt]

theorem isExact_toJson (d : Duration) : d.toJson.isExact = true := by
  have hnanos : d.nanos.toNat < UInt64.size := Nat.lt_trans d.nanos.toNat_lt (by decide)
  simp [toJson, Json.isExact, Json.isExactFields, Json.isExact_ofNat hnanos]

theorem fits_toJson (depth : Nat) (d : Duration) : d.toJson.fits (depth + 1) = true := by
  simp [toJson, Json.fits, Json.fitsFields, Json.ofNat]

/-- The form of a span in a free-form value. -/
theorem sorted_toJson (d : Duration) :
    d.toJson.sorted = .obj [("nanos", .ofNat d.nanos.toNat), ("secs", .ofUInt64 d.secs)] := by
  simp only [toJson, Json.ofUInt64, Json.ofNat, Json.sorted, Json.sortedFields, Json.putField,
    String.reduceLT, reduceIte]

/-- A span is read from its parts, in whatever order they stand. -/
theorem ofJson?_of_record {v : Json} {d : Duration} (honly : onlyParts v = true)
    (hrecord : v.record? ["secs", "nanos"] =
      some [some (.ofUInt64 d.secs), some (.ofNat d.nanos.toNat)]) : ofJson? v = some d := by
  simp [ofJson?, honly, hrecord, ofParts?_eq_some]

theorem ofJson?_sorted (d : Duration) : ofJson? d.toJson.sorted = some d := by
  rw [sorted_toJson]
  apply ofJson?_of_record
  · simp [onlyParts]
  · simp [Json.record?, Json.field?]

end Duration

/-! ### Windows -/

namespace Window

theorem isExact_toJson (w : Window) : w.toJson.isExact = true := by
  cases w <;> simp [toJson, form, Json.isExact, Json.isExactFields, Duration.isExact_toJson]

theorem fits_toJson (depth : Nat) (w : Window) : w.toJson.fits (depth + 3) = true := by
  cases w <;> simp [toJson, form, Json.fits, Json.fitsFields, Duration.fits_toJson]

/-- The form of a window in a free-form value. -/
theorem sorted_toJson (w : Window) : w.toJson.sorted = w.form fun d => d.toJson.sorted := by
  cases w <;>
    simp only [toJson, form, Json.ofUInt64, Json.ofNat, Json.sorted, Json.sortedFields,
      Json.putField, String.reduceLT, reduceIte]

/-- A window is read back if its spans are. -/
theorem ofJson?_form {span : Duration → Json} (h : ∀ d, Duration.ofJson? (span d) = some d)
    (w : Window) : ofJson? (w.form span) = some w := by
  cases w with
  | tumblingTime size => simp [form, ofJson?, Json.case?, sizeOf?, Json.record?, Json.field?, h]
  | slidingTime size slide =>
    simp [form, ofJson?, Json.case?, sizeAndSlideOf?, Json.record?, Json.field?, h]
  | tumblingCount size => simp [form, ofJson?, Json.case?, sizeOf?, Json.record?, Json.field?]
  | slidingCount size slide =>
    simp [form, ofJson?, Json.case?, sizeAndSlideOf?, Json.record?, Json.field?]

/-- **A window is read back from a free-form value.** -/
theorem ofJson?_sorted (w : Window) : ofJson? w.toJson.sorted = some w := by
  rw [sorted_toJson]
  exact ofJson?_form Duration.ofJson?_sorted w

end Window

end StreamPlan
