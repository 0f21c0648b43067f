import StreamPlan.Json.Literal

/-!
# JSON tokens

A text is first cut into tokens: punctuation, literals and names.  Blanks between
tokens are dropped.  The cut does not depend on the grammar of values, so that two
tokens that may not stand side by side are still found here and refused later.

## Main definitions

* `Token` — a token; a literal that denotes nothing is kept as `none`.
* `Token.next` — the first token of a text and what follows it.
* `Token.lex` — all tokens of a text.
-/

namespace StreamPlan

/-- A token of JSON text. -/
inductive Token where
  /-- The start of an object. -/
  | openBrace
  /-- The end of an object. -/
  | closeBrace
  /-- The start of an array. -/
  | openBracket
  /-- The end of an array. -/
  | closeBracket
  /-- Between two items or fields. -/
  | comma
  /-- Between a key and its value. -/
  | colon
  /-- The null value. -/
  | null
  /-- A truth value. -/
  | bool (b : Bool)
  /-- A number, with its value if it has one. -/
  | num (n : Option JsonNumber)
  /-- A string, with its text if it has one. -/
  | str (s : Option String)
  deriving DecidableEq, Repr

namespace Token

/-- The four characters that may stand between tokens. -/
def isBlank (c : Char) : Bool := c == ' ' || c == '\n' || c == '\t' || c == '\r'

/-- The token that starts with a character, and the text after it. -/
def start (c : Char) (cs : List Char) : Option (Token × List Char) :=
  match c, cs with
  | '\x7b', rest => some (.openBrace, rest)
  | '\x7d', rest => some (.closeBrace, rest)
  | '[', rest => some (.openBracket, rest)
  | ']', rest => some (.closeBracket, rest)
  | ',', rest => some (.comma, rest)
  | ':', rest => some (.colon, rest)
  | 'n', 'u' :: 'l' :: 'l' :: rest => some (.null, rest)
  | 't', 'r' :: 'u' :: 'e' :: rest => some (.bool true, rest)
  | 'f', 'a' :: 'l' :: 's' :: 'e' :: rest => some (.bool false, rest)
  | '"', rest => (scanString .empty rest).map fun (s, left) => (.str s, left)
  | c, rest => (NumberLiteral.scan (c :: rest)).map fun (l, left) => (.num l.value?, left)

/-- A token leaves less than the text. -/
theorem length_start {c : Char} {cs rest : List Char} {t : Token}
    (h : start c cs = some (t, rest)) : rest.length < (c :: cs).length := by
  unfold start at h
  split at h
  case h_10 r =>
    simp only [Option.map_eq_some_iff, Prod.mk.injEq, Prod.exists] at h
    obtain ⟨s, left, hs, _, rfl⟩ := h
    exact Nat.lt_succ_of_lt (length_scanString hs)
  case h_11 c r _ _ _ _ _ _ _ _ _ _ =>
    simp only [Option.map_eq_some_iff, Prod.mk.injEq, Prod.exists] at h
    obtain ⟨l, left, hl, _, rfl⟩ := h
    exact NumberLiteral.length_scan hl
  all_goals
    cases h
    simp only [List.length_cons]
    omega

/-- What a text starts with. -/
inductive Scan where
  /-- Nothing but blanks is left. -/
  | finished
  /-- No token starts here. -/
  | invalid
  /-- A token and the text after it. -/
  | token (t : Token) (rest : List Char)

/-- The first token of a text. -/
def next : List Char → Scan
  | [] => .finished
  | c :: cs =>
    if isBlank c then next cs
    else match start c cs with
      | some (t, rest) => .token t rest
      | none => .invalid

/-- The text after the first token is shorter than the text. -/
theorem length_next {cs rest : List Char} {t : Token} (h : next cs = .token t rest) :
    rest.length < cs.length := by
  fun_induction next cs with
  | case1 => cases h
  | case2 c cs hc ih => exact Nat.lt_succ_of_lt (ih h)
  | case3 c cs hc t' rest' hs =>
    cases h
    exact length_start hs
  | case4 => cases h

/-- All tokens of a text, after those done, latest first. -/
def lex (done : List Token) (cs : List Char) : Option (List Token) :=
  match _h : next cs with
  | .finished => some done.reverse
  | .invalid => none
  | .token t rest => lex (t :: done) rest
termination_by cs.length
decreasing_by exact length_next ‹_›

end Token

end StreamPlan
