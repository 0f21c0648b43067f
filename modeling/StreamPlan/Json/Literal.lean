import StreamPlan.Binary.Bytes
import StreamPlan.Json.Basic

/-!
# Number and string literals

The two kinds of literal that need a scanner of their own.  Each scanner splits
a literal off the front of a text and returns the rest.

A string may be written in UTF-16 escapes, two of which make one character
beyond the basic plane.  `Utf16Text` collects such a string; it becomes
unreadable at a surrogate that has no partner, and the scan goes on, since only
the grammar decides where the string ends.

## Main definitions

* `NumberLiteral`, `NumberLiteral.value?` — a number as written, and its value.
* `NumberLiteral.scan`, `scanString` — the scanners.

## Main results

* `NumberLiteral.length_scan`, `length_scanString` — what is left over is
  shorter than the text, so a lexer that goes on with it comes to an end.
-/

namespace StreamPlan

/-! ### Numbers -/

/-- A number as written. -/
structure NumberLiteral where
  /-- There is a minus sign. -/
  negative : Bool
  /-- The digits before the point. -/
  whole : List Char
  /-- The digits after the point, if there is one. -/
  fraction : Option (List Char)
  /-- The exponent, if there is one. -/
  exponent : Option Int

namespace NumberLiteral

/-- Appends digits to a number as long as it fits a 64-bit word, and returns
the digits that did not go in. -/
def absorb (n : Nat) : List Char → Nat × List Char
  | [] => (n, [])
  | c :: cs =>
    let next := 10 * n + (c.toNat - 48)
    if next < UInt64.size then absorb next cs else (n, c :: cs)

/-- The value of a number.  An integer in the range of 64-bit words of either
sign is exact, and every other number is a fraction: so is the negative zero.
There is none when the number is too large for a fraction. -/
def value? (l : NumberLiteral) : Option JsonNumber :=
  let (n, left) := absorb 0 l.whole
  match l.fraction, l.exponent, left with
  | none, none, [] =>
    if l.negative then
      if 0 < n ∧ n ≤ 0x8000000000000000 then some (.int (-n))
      else (Binary64.ofDecimal? true (UInt64.ofNat n) 0).map .double
    else some (.int n)
  | fraction, exponent, left =>
    let digits := fraction.getD []
    let (m, dropped) := absorb n digits
    let shift : Int := left.length - (digits.length - dropped.length)
    (Binary64.ofDecimal? l.negative (UInt64.ofNat m) (shift + exponent.getD 0)).map .double

/-- Splits digits off a text. -/
def digits (cs : List Char) : List Char × List Char :=
  (cs.takeWhile Char.isDigit, cs.dropWhile Char.isDigit)

theorem length_digits (cs : List Char) : (digits cs).2.length ≤ cs.length :=
  (List.dropWhile_suffix Char.isDigit).length_le

/-- Splits the digits before the point off a text: a zero stands alone. -/
def scanWhole : List Char → Option (List Char × List Char)
  | '0' :: rest => some (['0'], rest)
  | c :: rest => if c.isDigit then some (digits (c :: rest)) else none
  | [] => none

/-- Splits a fraction off a text. -/
def scanFraction : List Char → Option (Option (List Char) × List Char)
  | '.' :: rest =>
    match digits rest with
    | ([], _) => none
    | (ds, left) => some (some ds, left)
  | rest => some (none, rest)

/-- Splits the digits of an exponent off a text. -/
def scanExponentDigits (negative : Bool) (cs : List Char) : Option (Option Int × List Char) :=
  match digits cs with
  | ([], _) => none
  | (ds, left) =>
    let n : Int := Nat.ofDigitChars 10 ds 0
    some (some (if negative then -n else n), left)

/-- Splits what follows the exponent mark off a text. -/
def scanExponentSign : List Char → Option (Option Int × List Char)
  | '+' :: rest => scanExponentDigits false rest
  | '-' :: rest => scanExponentDigits true rest
  | rest => scanExponentDigits false rest

/-- Splits an exponent off a text. -/
def scanExponent : List Char → Option (Option Int × List Char)
  | 'e' :: rest => scanExponentSign rest
  | 'E' :: rest => scanExponentSign rest
  | rest => some (none, rest)

/-- Splits a number without its sign off a text. -/
def scanUnsigned (negative : Bool) (cs : List Char) : Option (NumberLiteral × List Char) := do
  let (whole, rest) ← scanWhole cs
  let (fraction, rest) ← scanFraction rest
  let (exponent, rest) ← scanExponent rest
  return (⟨negative, whole, fraction, exponent⟩, rest)

/-- Splits a number off a text. -/
def scan : List Char → Option (NumberLiteral × List Char)
  | '-' :: rest => scanUnsigned true rest
  | rest => scanUnsigned false rest

/-- Every number has a digit before the point. -/
theorem length_scanWhole {cs rest ds : List Char} (h : scanWhole cs = some (ds, rest)) :
    rest.length < cs.length := by
  unfold scanWhole at h
  split at h
  · cases h; simp
  · split at h
    · rename_i c r _ hc
      cases h
      simp only [List.dropWhile_cons_of_pos hc]
      exact Nat.lt_succ_of_le (length_digits r)
    · cases h
  · cases h

theorem length_scanFraction {cs rest : List Char} {ds : Option (List Char)}
    (h : scanFraction cs = some (ds, rest)) : rest.length ≤ cs.length := by
  unfold scanFraction at h
  split at h
  · rename_i r
    have hr := length_digits r
    split at h
    · cases h
    · rename_i heq
      cases h
      rw [heq] at hr
      exact Nat.le_succ_of_le hr
  · cases h; exact Nat.le_refl _

theorem length_scanExponentDigits {negative : Bool} {cs rest : List Char} {e : Option Int}
    (h : scanExponentDigits negative cs = some (e, rest)) : rest.length ≤ cs.length := by
  unfold scanExponentDigits at h
  have hr := length_digits cs
  split at h
  · cases h
  · rename_i heq
    cases h
    rwa [heq] at hr

theorem length_scanExponentSign {cs rest : List Char} {e : Option Int}
    (h : scanExponentSign cs = some (e, rest)) : rest.length ≤ cs.length := by
  unfold scanExponentSign at h
  split at h
  · exact Nat.le_succ_of_le (length_scanExponentDigits h)
  · exact Nat.le_succ_of_le (length_scanExponentDigits h)
  · exact length_scanExponentDigits h

theorem length_scanExponent {cs rest : List Char} {e : Option Int}
    (h : scanExponent cs = some (e, rest)) : rest.length ≤ cs.length := by
  unfold scanExponent at h
  split at h
  · exact Nat.le_succ_of_le (length_scanExponentSign h)
  · exact Nat.le_succ_of_le (length_scanExponentSign h)
  · cases h; exact Nat.le_refl _

theorem length_scanUnsigned {negative : Bool} {cs rest : List Char} {l : NumberLiteral}
    (h : scanUnsigned negative cs = some (l, rest)) : rest.length < cs.length := by
  simp only [scanUnsigned, Option.bind_eq_bind, Option.bind_eq_some_iff, Option.pure_def,
    Option.some.injEq, Prod.mk.injEq, Prod.exists] at h
  obtain ⟨_, r₁, h₁, _, r₂, h₂, _, r₃, h₃, _, rfl⟩ := h
  exact Nat.lt_of_le_of_lt (length_scanExponent h₃)
    (Nat.lt_of_le_of_lt (length_scanFraction h₂) (length_scanWhole h₁))

/-- A number leaves less than the text. -/
theorem length_scan {cs rest : List Char} {l : NumberLiteral} (h : scan cs = some (l, rest)) :
    rest.length < cs.length := by
  unfold scan at h
  split at h
  · exact Nat.lt_succ_of_lt (length_scanUnsigned h)
  · exact length_scanUnsigned h

end NumberLiteral

/-! ### Strings -/

/-- A text collected from characters and UTF-16 code units. -/
structure Utf16Text where
  /-- The characters so far, latest first, unless the text is unreadable. -/
  chars : Option (List Char)
  /-- A high surrogate that waits for its partner. -/
  high : Option Nat

namespace Utf16Text

/-- The empty text. -/
def empty : Utf16Text := ⟨some [], none⟩

/-- Adds a character, before which no surrogate may wait. -/
def addChar (t : Utf16Text) (c : Char) : Utf16Text :=
  match t.high with
  | none => ⟨t.chars.map (c :: ·), none⟩
  | some _ => ⟨none, none⟩

/-- Adds a code unit.  The two halves of a pair carry ten bits each. -/
def addUnit (t : Utf16Text) (n : Nat) : Utf16Text :=
  if 0xdc00 ≤ n ∧ n ≤ 0xdfff then
    match t.high with
    | some h => ⟨t.chars.map (Char.ofNat (0x10000 + 1024 * (h - 0xd800) + (n - 0xdc00)) :: ·), none⟩
    | none => ⟨none, none⟩
  else if 0xd800 ≤ n ∧ n ≤ 0xdbff then
    match t.high with
    | some _ => ⟨none, none⟩
    | none => ⟨t.chars, some n⟩
  else t.addChar (Char.ofNat n)

/-- The finished text, unless it is unreadable. -/
def finish (t : Utf16Text) : Option String :=
  match t.high with
  | some _ => none
  | none => t.chars.map fun cs => String.ofList cs.reverse

end Utf16Text

/-- The character a one-letter escape stands for. -/
def escape? : Char → Option Char
  | '"' => some '"'
  | '\\' => some '\\'
  | '/' => some '/'
  | 'b' => some '\x08'
  | 'f' => some '\x0c'
  | 'n' => some '\n'
  | 'r' => some '\r'
  | 't' => some '\t'
  | _ => none

/-- Splits a string off a text that starts after its opening quote. -/
def scanString (done : Utf16Text) : List Char → Option (Option String × List Char)
  | [] => none
  | '"' :: rest => some (done.finish, rest)
  | '\\' :: 'u' :: a :: b :: c :: d :: rest =>
    match Bytes.hexNat? [a, b, c, d] with
    | some n => scanString (done.addUnit n) rest
    | none => none
  | '\\' :: e :: rest =>
    match escape? e with
    | some c => scanString (done.addChar c) rest
    | none => none
  | c :: rest => if c < ' ' then none else scanString (done.addChar c) rest

/-- A string leaves less than the text, by its closing quote. -/
theorem length_scanString {done : Utf16Text} {cs rest : List Char} {s : Option String}
    (h : scanString done cs = some (s, rest)) : rest.length < cs.length := by
  fun_induction scanString done cs with
  | case1 => cases h
  | case2 => cases h; simp
  | case3 done a b c d tail n hn ih =>
    have := ih h
    simp only [List.length_cons]
    omega
  | case4 => cases h
  | case5 done e tail _ c hc ih =>
    have := ih h
    simp only [List.length_cons]
    omega
  | case6 => cases h
  | case7 => cases h
  | case8 done c tail _ _ _ hc ih =>
    have := ih h
    simp only [List.length_cons]
    omega

end StreamPlan
