import StreamPlan.Json.Literal
import StreamPlan.Json.Writer

/-!
# Literals are read back

What the writer puts down for an integer or a string is split off again by the scanners,
and stands for the same integer or string.  Whatever follows is left as it is.  A string
ends at its closing quote, since a quote inside it is escaped; a number has no end of its
own, so what follows must not go on with it.

## Main definitions

* `endsNumber` — a text that does not go on with a number before it.

## Main results

* `NumberLiteral.scan_toDigits`, `NumberLiteral.value?_toDigits` and their companions for
  negative numbers — **an integer in the range of 64-bit words of either sign is read
  back.**
* `scanString_foldr_escapeOnto` — **every string is read back**, whatever its characters.
-/

namespace StreamPlan

/-! ### Digits -/

/-- Every number but zero is written with a first digit that is not zero. -/
theorem exists_toDigits_eq_cons {k : Nat} (hk : 0 < k) :
    ∃ c cs, Nat.toDigits 10 k = c :: cs ∧ c ≠ '0' := by
  induction k using Nat.strongRecOn with
  | ind k ih =>
    by_cases hlt : k < 10
    · refine ⟨k.digitChar, [], Nat.toDigits_of_lt_base hlt, ?_⟩
      rw [Ne, Nat.digitChar_eq_zero]
      omega
    · obtain ⟨c, cs, hcs, hc⟩ := ih (k / 10) (by omega) (by omega)
      refine ⟨c, cs ++ [(k % 10).digitChar], ?_, hc⟩
      rw [Nat.toDigits_of_base_le (by decide) (by omega), hcs, List.cons_append]

theorem isDigit_of_mem_toDigits {k : Nat} {c : Char} (hc : c ∈ Nat.toDigits 10 k) :
    c.isDigit = true :=
  Nat.isDigit_of_mem_toDigits (by decide) (by decide) hc

theorem exists_isDigit_toDigits (k : Nat) :
    ∃ c cs, Nat.toDigits 10 k = c :: cs ∧ c.isDigit = true := by
  obtain ⟨c, cs, hcs⟩ := List.exists_cons_of_ne_nil (Nat.toDigits_ne_nil (n := k) (b := 10))
  exact ⟨c, cs, hcs, isDigit_of_mem_toDigits (k := k) (by simp [hcs])⟩

/-- More digits make no smaller number. -/
theorem le_ofDigitChars (cs : List Char) (n : Nat) : n ≤ Nat.ofDigitChars 10 cs n := by
  induction cs generalizing n with
  | nil => exact Nat.le_refl n
  | cons c cs ih =>
    rw [Nat.ofDigitChars_cons]
    exact Nat.le_trans (by omega) (ih _)

/-- The text does not go on with a number that stands before it. -/
def endsNumber : List Char → Bool
  | [] => true
  | c :: _ => !c.isDigit && c != '.' && c != 'e' && c != 'E'

theorem endsNumber_cons {c : Char} {cs : List Char} (h : endsNumber (c :: cs) = true) :
    c.isDigit = false ∧ c ≠ '.' ∧ c ≠ 'e' ∧ c ≠ 'E' := by
  simpa [endsNumber, and_assoc] using h

namespace NumberLiteral

/-! ### Numbers -/

theorem digits_append {ds rest : List Char} (hds : ∀ c ∈ ds, c.isDigit = true)
    (hrest : endsNumber rest = true) : digits (ds ++ rest) = (ds, rest) := by
  unfold digits
  rw [List.takeWhile_append_of_pos hds, List.dropWhile_append_of_pos hds]
  cases rest with
  | nil => simp
  | cons c cs =>
    have hc := (endsNumber_cons hrest).1
    simp [hc]

theorem scanWhole_toDigits (k : Nat) {rest : List Char} (hrest : endsNumber rest = true) :
    scanWhole (Nat.toDigits 10 k ++ rest) = some (Nat.toDigits 10 k, rest) := by
  rcases Nat.eq_zero_or_pos k with rfl | hk
  · -- A zero stands alone.
    rw [Nat.toDigits_zero]
    rfl
  · obtain ⟨c, cs, hcs, hc⟩ := exists_toDigits_eq_cons hk
    have hdigits := digits_append (fun _ => isDigit_of_mem_toDigits (k := k)) hrest
    have hfirst : c.isDigit = true := isDigit_of_mem_toDigits (k := k) (by simp [hcs])
    rw [hcs] at hdigits ⊢
    rw [List.cons_append] at hdigits ⊢
    unfold scanWhole
    split
    · next heq =>
      cases heq
      exact absurd rfl hc
    · next heq =>
      cases heq
      rw [if_pos hfirst, hdigits]
    · next heq => cases heq

theorem scanFraction_of_endsNumber {rest : List Char} (h : endsNumber rest = true) :
    scanFraction rest = some (none, rest) := by
  unfold scanFraction
  split
  · exact absurd rfl (endsNumber_cons h).2.1
  · rfl

theorem scanExponent_of_endsNumber {rest : List Char} (h : endsNumber rest = true) :
    scanExponent rest = some (none, rest) := by
  unfold scanExponent
  split
  · exact absurd rfl (endsNumber_cons h).2.2.1
  · exact absurd rfl (endsNumber_cons h).2.2.2
  · rfl

theorem scanUnsigned_toDigits (negative : Bool) (k : Nat) {rest : List Char}
    (hrest : endsNumber rest = true) :
    scanUnsigned negative (Nat.toDigits 10 k ++ rest) =
      some (⟨negative, Nat.toDigits 10 k, none, none⟩, rest) := by
  simp [scanUnsigned, scanWhole_toDigits k hrest, scanFraction_of_endsNumber hrest,
    scanExponent_of_endsNumber hrest]

/-- The digits of a number are split off. -/
theorem scan_toDigits (k : Nat) {rest : List Char} (hrest : endsNumber rest = true) :
    scan (Nat.toDigits 10 k ++ rest) =
      some (⟨false, Nat.toDigits 10 k, none, none⟩, rest) := by
  have hunsigned := scanUnsigned_toDigits false k hrest
  unfold scan
  split
  · next tail heq =>
    -- The first digit is not a sign.
    obtain ⟨c, cs, hcs, hdigit⟩ := exists_isDigit_toDigits k
    rw [hcs] at heq
    cases heq
    exact absurd hdigit (by decide)
  · exact hunsigned

/-- The digits of a number after a sign are split off with the sign. -/
theorem scan_neg_toDigits (k : Nat) {rest : List Char} (hrest : endsNumber rest = true) :
    scan ('-' :: (Nat.toDigits 10 k ++ rest)) =
      some (⟨true, Nat.toDigits 10 k, none, none⟩, rest) :=
  scanUnsigned_toDigits true k hrest

/-- Digits go in as long as the number they make fits. -/
theorem absorb_eq_of_lt {cs : List Char} {n : Nat} (h : Nat.ofDigitChars 10 cs n < UInt64.size) :
    absorb n cs = (Nat.ofDigitChars 10 cs n, []) := by
  induction cs generalizing n with
  | nil => rfl
  | cons c cs ih =>
    rw [Nat.ofDigitChars_cons] at h ⊢
    have hnext : 10 * n + (c.toNat - 48) < UInt64.size :=
      Nat.lt_of_le_of_lt (le_ofDigitChars cs _) h
    simp only [absorb]
    rw [if_pos hnext]
    exact ih h

theorem absorb_toDigits {k : Nat} (h : k < UInt64.size) : absorb 0 (Nat.toDigits 10 k) = (k, []) := by
  have hread := Nat.ofDigitChars_ten_toDigits (n := k)
  rw [absorb_eq_of_lt (by rw [hread]; exact h), hread]

theorem value?_toDigits {k : Nat} (h : k < UInt64.size) :
    value? ⟨false, Nat.toDigits 10 k, none, none⟩ = some (.int (.ofNat k)) := by
  simp [value?, absorb_toDigits h]

theorem value?_neg_toDigits {k : Nat} (h : k < 0x8000000000000000) :
    value? ⟨true, Nat.toDigits 10 (k + 1), none, none⟩ = some (.int (.negSucc k)) := by
  have hfits : k + 1 < UInt64.size := Nat.lt_trans (Nat.succ_lt_succ h) (by decide)
  simp only [value?, absorb_toDigits hfits]
  rw [if_pos trivial, if_pos ⟨Nat.succ_pos k, h⟩]
  rfl

end NumberLiteral

/-! ### Strings -/

namespace Bytes

/-- The two lower digits of a small number, after two zeros, make the number. -/
theorem hexNat?_of_lt : ∀ n < 32,
    hexNat? ['0', '0', hexDigit (n / 16), hexDigit (n % 16)] = some n := by
  decide

end Bytes

theorem Utf16Text.addUnit_of_lt (done : List Char) {n : Nat} (h : n < 0xd800) :
    Utf16Text.addUnit ⟨some done, none⟩ n = ⟨some (Char.ofNat n :: done), none⟩ := by
  unfold Utf16Text.addUnit
  rw [if_neg (by omega), if_neg (by omega)]
  rfl

/-- A control character is read back from its number. -/
theorem scanString_control (done : List Char) {c : Char} (hc : c < ' ') (rest : List Char) :
    scanString ⟨some done, none⟩
        ('\\' :: 'u' :: '0' :: '0' :: Bytes.hexDigit (c.toNat / 16) ::
          Bytes.hexDigit (c.toNat % 16) :: rest) =
      scanString ⟨some (c :: done), none⟩ rest := by
  have hlt : c.toNat < 32 := hc
  rw [scanString, Bytes.hexNat?_of_lt c.toNat hlt]
  dsimp only
  rw [Utf16Text.addUnit_of_lt done (by omega), Char.ofNat_toNat]

/-- A character that stands for itself is read back. -/
theorem scanString_plain (done : List Char) {c : Char} (hquote : c ≠ '"') (hslash : c ≠ '\\')
    (hc : ¬ c < ' ') (rest : List Char) :
    scanString ⟨some done, none⟩ (c :: rest) = scanString ⟨some (c :: done), none⟩ rest := by
  rw [scanString]
  · rw [if_neg hc]
    rfl
  · exact fun heq => hquote heq
  · exact fun _ _ _ _ _ heq _ => hslash heq
  · exact fun _ _ heq _ => hslash heq

/-- **A character is read back**, escaped or not. -/
theorem scanString_escapeOnto (done : List Char) (c : Char) (rest : List Char) :
    scanString ⟨some done, none⟩ (Json.escapeOnto c rest) =
      scanString ⟨some (c :: done), none⟩ rest := by
  unfold Json.escapeOnto
  split
  case h_8 =>
    next hquote hslash _ _ _ _ _ =>
    split
    · next hcontrol => exact scanString_control done hcontrol rest
    · next hplain => exact scanString_plain done hquote hslash hplain rest
  -- the seven characters with an escape of one letter
  all_goals simp [scanString, escape?, Utf16Text.addChar]

/-- **A string is read back** up to its closing quote. -/
theorem scanString_foldr_escapeOnto (done cs rest : List Char) :
    scanString ⟨some done, none⟩ (cs.foldr Json.escapeOnto ('"' :: rest)) =
      some (some (String.ofList (done.reverse ++ cs)), rest) := by
  induction cs generalizing done with
  | nil => simp [scanString, Utf16Text.finish]
  | cons c cs ih =>
    rw [List.foldr_cons, scanString_escapeOnto, ih, List.reverse_cons, List.append_assoc,
      List.singleton_append]

end StreamPlan
