import StreamPlan.Json.Token

/-!
# Reading JSON

The tokens of a text are fed one by one to a machine with a stack.  Its stack
holds the arrays and objects that are still open, and its state says which token
may follow.

## Main definitions

* `Reader`, `Reader.step` — the machine and one step of it.
* `Json.read?` — the value a text stands for: one value, with nothing around it
  but blanks.
-/

namespace StreamPlan

/-- The fields of an object so far, latest first; a key may be unreadable. -/
abbrev OpenFields := List (Option String × Json)

/-- An array or object that waits for a value. -/
inductive Reader.Frame where
  /-- An array with the items so far, latest first. -/
  | items (done : List Json)
  /-- An object with the fields so far, and the key of the value. -/
  | fields (done : OpenFields) (key : Option String)

/-- Which token may follow. -/
inductive Reader.State where
  /-- A value. -/
  | value
  /-- The first item of an array, or its end. -/
  | firstItem
  /-- The first key of an object, or its end. -/
  | firstKey
  /-- A further key of an object. -/
  | key (done : OpenFields)
  /-- The colon after a key. -/
  | colon (done : OpenFields) (key : Option String)
  /-- A value has just ended. -/
  | ended (v : Json)

/-- The machine. -/
structure Reader where
  /-- The open arrays and objects, innermost first. -/
  stack : List Reader.Frame
  /-- Which token may follow. -/
  state : Reader.State

namespace Reader

/-- An object, or an unreadable value if one of its keys is. -/
def object (done : OpenFields) : Json :=
  match done.mapM fun (key, value) => key.map (·, value) with
  | some fields => .obj fields.reverse
  | none => .unreadable

/-- The value that starts with a token. -/
def startValue (stack : List Frame) : Token → Option Reader
  | .openBrace => some ⟨stack, .firstKey⟩
  | .openBracket => some ⟨.items [] :: stack, .firstItem⟩
  | .null => some ⟨stack, .ended .null⟩
  | .bool b => some ⟨stack, .ended (.bool b)⟩
  | .num (some n) => some ⟨stack, .ended (.num n)⟩
  | .str (some s) => some ⟨stack, .ended (.str s)⟩
  | .num none => some ⟨stack, .ended .unreadable⟩
  | .str none => some ⟨stack, .ended .unreadable⟩
  | _ => none

/-- What a token means after a value, inside a frame. -/
def afterValue (stack : List Frame) (v : Json) : Frame → Token → Option Reader
  | .items done, .comma => some ⟨.items (v :: done) :: stack, .value⟩
  | .items done, .closeBracket => some ⟨stack, .ended (.arr (v :: done).reverse)⟩
  | .fields done key, .comma => some ⟨stack, .key ((key, v) :: done)⟩
  | .fields done key, .closeBrace => some ⟨stack, .ended (object ((key, v) :: done))⟩
  | _, _ => none

/-- One token. -/
def step (r : Reader) (t : Token) : Option Reader :=
  match r.state, r.stack, t with
  | .value, stack, t => startValue stack t
  | .firstItem, .items [] :: stack, .closeBracket => some ⟨stack, .ended (.arr [])⟩
  | .firstItem, stack, t => startValue stack t
  | .firstKey, stack, .closeBrace => some ⟨stack, .ended (.obj [])⟩
  | .firstKey, stack, .str key => some ⟨stack, .colon [] key⟩
  | .key done, stack, .str key => some ⟨stack, .colon done key⟩
  | .colon done key, stack, .colon => some ⟨.fields done key :: stack, .value⟩
  | .ended v, frame :: stack, t => afterValue stack v frame t
  | _, _, _ => none

/-- The machine before the first token. -/
def start : Reader := ⟨[], .value⟩

/-- The value that has been read, if it is complete. -/
def result? (r : Reader) : Option Json :=
  match r.state, r.stack with
  | .ended v, [] => some v
  | _, _ => none

end Reader

/-- The value a text stands for. -/
def Json.read? (text : String) : Option Json := do
  let tokens ← Token.lex [] text.toList
  let r ← tokens.foldlM Reader.step Reader.start
  r.result?

end StreamPlan
