import StreamPlan.Binary.Bytes

/-!
# Inspection text

A common notation for showing the parts of a value to a person: a record is its
name and its fields between braces, a list stands between brackets, and a name is
quoted.

## Main definitions

* `Inspect.record`, `Inspect.list`, `Inspect.quoted`, `Inspect.optional`.
-/

namespace StreamPlan
namespace Inspect

/-- Texts with a comma between them. -/
def commas (texts : List String) : String := String.intercalate ", " texts

/-- A record: its name and its fields. -/
def record (name : String) (fields : List (String × String)) : String :=
  name ++ " \x7b " ++ commas (fields.map fun f => f.1 ++ ": " ++ f.2) ++ " \x7d"

/-- A list. -/
def list (items : List String) : String := "[" ++ commas items ++ "]"

/-- A value that may be absent. -/
def optional : Option String → String
  | none => "None"
  | some text => "Some(" ++ text ++ ")"

/-- A character inside quotes.  Only ASCII names are shown, so the characters
that cannot be printed are the controls. -/
def quotedChar (c : Char) : List Char :=
  match c with
  | '"' => ['\\', '"']
  | '\\' => ['\\', '\\']
  | '\n' => ['\\', 'n']
  | '\r' => ['\\', 'r']
  | '\t' => ['\\', 't']
  | '\x00' => ['\\', '0']
  | c =>
    if c < ' ' ∨ c = '\x7f' then '\\' :: 'u' :: '\x7b' :: (Nat.toDigits 16 c.toNat ++ ['\x7d'])
    else [c]

/-- A name between quotes. -/
def quoted (s : String) : String :=
  String.ofList ('"' :: (s.toList.flatMap quotedChar ++ ['"']))

end Inspect
end StreamPlan
