import StreamPlan.Binary.Bytes
import StreamPlan.Ieee.Shortest
import StreamPlan.Json.Basic

/-!
# Writing JSON

One writer serves both layouts: a layout only says which blanks stand before an
item and after a colon.  Every function writes in front of a text that is already
there, so that writing is linear in the length of the result.

## Main definitions

* `Layout.compact`, `Layout.pretty` — no blanks at all, or one item a line.
* `Json.writeOnto` — the writer.
* `Json.compact`, `Json.pretty` — the two texts of a value.
-/

namespace StreamPlan

/-- Where blanks stand. -/
structure Layout where
  /-- What stands before an item, or before the end, at a depth. -/
  gap : Nat → List Char
  /-- What stands after a colon. -/
  afterColon : List Char

namespace Layout

/-- No blanks at all. -/
def compact : Layout := ⟨fun _ => [], []⟩

/-- One item a line, two columns a level, and a blank after a colon. -/
def pretty : Layout := ⟨fun depth => '\n' :: List.replicate (2 * depth) ' ', [' ']⟩

end Layout

namespace Json

/-- A character of a string: quotes, backslashes and control characters are
escaped, and all else stands for itself. -/
def escapeOnto (c : Char) (rest : List Char) : List Char :=
  match c with
  | '"' => '\\' :: '"' :: rest
  | '\\' => '\\' :: '\\' :: rest
  | '\x08' => '\\' :: 'b' :: rest
  | '\t' => '\\' :: 't' :: rest
  | '\n' => '\\' :: 'n' :: rest
  | '\x0c' => '\\' :: 'f' :: rest
  | '\r' => '\\' :: 'r' :: rest
  | c =>
    if c < ' ' then
      '\\' :: 'u' :: '0' :: '0' :: Bytes.hexDigit (c.toNat / 16) :: Bytes.hexDigit (c.toNat % 16) ::
        rest
    else c :: rest

/-- A string between quotes. -/
def quoteOnto (s : String) (rest : List Char) : List Char :=
  '"' :: s.toList.foldr escapeOnto ('"' :: rest)

/-- A number. -/
def numberOnto (n : JsonNumber) (rest : List Char) : List Char :=
  match n with
  | .int (.ofNat k) => Nat.toDigits 10 k ++ rest
  | .int (.negSucc k) => '-' :: (Nat.toDigits 10 (k + 1) ++ rest)
  | .double x => x.text ++ rest
  | .single x => x.text ++ rest

mutual

/-- The text of a value at a depth, in front of a text. -/
def writeOnto (l : Layout) (depth : Nat) : Json → List Char → List Char
  | .null, rest => 'n' :: 'u' :: 'l' :: 'l' :: rest
  | .unreadable, rest => 'n' :: 'u' :: 'l' :: 'l' :: rest
  | .bool true, rest => 't' :: 'r' :: 'u' :: 'e' :: rest
  | .bool false, rest => 'f' :: 'a' :: 'l' :: 's' :: 'e' :: rest
  | .num n, rest => numberOnto n rest
  | .str s, rest => quoteOnto s rest
  | .arr [], rest => '[' :: ']' :: rest
  | .arr (item :: items), rest =>
    '[' :: (l.gap (depth + 1) ++ writeOnto l (depth + 1) item (writeItemsOnto l depth items rest))
  | .obj [], rest => '\x7b' :: '\x7d' :: rest
  | .obj ((key, value) :: fields), rest =>
    '\x7b' :: (l.gap (depth + 1) ++ quoteOnto key (':' :: (l.afterColon ++
      writeOnto l (depth + 1) value (writeFieldsOnto l depth fields rest))))

/-- The further items of an array and its end. -/
def writeItemsOnto (l : Layout) (depth : Nat) : List Json → List Char → List Char
  | [], rest => l.gap depth ++ ']' :: rest
  | item :: items, rest =>
    ',' :: (l.gap (depth + 1) ++ writeOnto l (depth + 1) item (writeItemsOnto l depth items rest))

/-- The further fields of an object and its end. -/
def writeFieldsOnto (l : Layout) (depth : Nat) : List (String × Json) → List Char → List Char
  | [], rest => l.gap depth ++ '\x7d' :: rest
  | (key, value) :: fields, rest =>
    ',' :: (l.gap (depth + 1) ++ quoteOnto key (':' :: (l.afterColon ++
      writeOnto l (depth + 1) value (writeFieldsOnto l depth fields rest))))

end

/-- The text of a value in a layout. -/
def write (l : Layout) (v : Json) : String := String.ofList (v.writeOnto l 0 [])

/-- The text of a value without blanks. -/
def compact (v : Json) : String := v.write .compact

/-- The text of a value with one item a line. -/
def pretty (v : Json) : String := v.write .pretty

end Json

end StreamPlan
