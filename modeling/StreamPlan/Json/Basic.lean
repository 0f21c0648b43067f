import StreamPlan.Ieee.Basic

/-!
# JSON values

A JSON value as it is written: the fields of an object keep their order and may
repeat a key.  What a repeated key means is decided where the value is used: a
typed record refuses it, a free-form value keeps the last.

A text may hold literals that follow the grammar and denote nothing, such as a
number too large for its format.  They are read as `unreadable`, which can be
skipped and not used.

## Main definitions

* `JsonNumber`, `Json` — numbers and values.
* `Json.sorted` — the form of a free-form value: keys in increasing order, each
  once, at every level.
* `Json.fits` — everything in the value is readable and it is not nested too
  deeply.
-/

namespace StreamPlan

/-- A number. -/
inductive JsonNumber where
  /-- An integer. -/
  | int (n : Int)
  /-- A fraction of double precision. -/
  | double (x : Binary64)
  /-- A fraction of single precision, which is only ever written. -/
  | single (x : Binary32)
  deriving DecidableEq, Repr

/-- A value. -/
inductive Json where
  /-- The null value. -/
  | null
  /-- A truth value. -/
  | bool (b : Bool)
  /-- A number. -/
  | num (n : JsonNumber)
  /-- A text. -/
  | str (s : String)
  /-- An array. -/
  | arr (items : List Json)
  /-- An object: its fields as they stand. -/
  | obj (fields : List (String × Json))
  /-- A literal that is grammatical and denotes no value. -/
  | unreadable
  deriving Inhabited

namespace Json

/-- An integer value. -/
def ofInt (n : Int) : Json := .num (.int n)

/-- A natural number. -/
def ofNat (n : Nat) : Json := .num (.int n)

/-- A word. -/
def ofUInt64 (n : UInt64) : Json := ofNat n.toNat

/-- A double-precision value; one that is not finite is null. -/
def ofBinary64 (x : Binary64) : Json := if x.isFinite then .num (.double x) else .null

/-- A single-precision value; one that is not finite is null. -/
def ofBinary32 (x : Binary32) : Json := if x.isFinite then .num (.single x) else .null

/-! ### Free-form values -/

/-- Puts a field in its place among fields in increasing order of key, replacing
one of the same key. -/
def putField (key : String) (value : Json) : List (String × Json) → List (String × Json)
  | [] => [(key, value)]
  | (k, v) :: rest =>
    if key < k then (key, value) :: (k, v) :: rest
    else if k < key then (k, v) :: putField key value rest
    else (key, value) :: rest

mutual

/-- The value with the keys of every object in increasing order; of the fields
with one key the last stays. -/
def sorted : Json → Json
  | .arr items => .arr (sortedItems items)
  | .obj fields => .obj (sortedFields [] fields)
  | .null => .null
  | .bool b => .bool b
  | .num n => .num n
  | .str s => .str s
  | .unreadable => .unreadable

/-- The sorted forms of the items of an array. -/
def sortedItems : List Json → List Json
  | [] => []
  | item :: rest => sorted item :: sortedItems rest

/-- The sorted forms of fields, put one after another among those done. -/
def sortedFields (done : List (String × Json)) : List (String × Json) → List (String × Json)
  | [] => done
  | (key, value) :: rest => sortedFields (putField key (sorted value) done) rest

end

mutual

/-- The value can be used as it stands: nothing in it is unreadable, and it has
at most `depth` arrays and objects one inside another. -/
def fits (depth : Nat) : Json → Bool
  | .arr items => decide (0 < depth) && fitsItems (depth - 1) items
  | .obj fields => decide (0 < depth) && fitsFields (depth - 1) fields
  | .unreadable => false
  | .null => true
  | .bool _ => true
  | .num _ => true
  | .str _ => true

/-- Every item fits. -/
def fitsItems (depth : Nat) : List Json → Bool
  | [] => true
  | item :: rest => fits depth item && fitsItems depth rest

/-- Every field's value fits. -/
def fitsFields (depth : Nat) : List (String × Json) → Bool
  | [] => true
  | (_, value) :: rest => fits depth value && fitsFields depth rest

end

end Json

end StreamPlan
