import StreamPlan.Scalar.Basic
import StreamPlan.Window.Basic

/-!
# Families of nodes and what they run

A pipeline is made of six families of nodes.  The planner does not look into the
functions they run; it only carries them to the compiled stages.

## Main definitions

* `Family`, `Family.label` — the families, and the words that stand for them in
  generated names and in descriptions.
* `Transform` — what a node with one parent runs.
* `JoinType`, `JoinSpec` — what a join runs.
-/

namespace StreamPlan

/-- The families of nodes. -/
inductive Family where
  /-- Produces records. -/
  | source
  /-- One record for each record. -/
  | map
  /-- Any number of records for each record. -/
  | flatMap
  /-- Some of the records. -/
  | filter
  /-- All records, over another number of partitions. -/
  | repartition
  /-- Pairs of records from two parents. -/
  | join
  deriving DecidableEq, Repr

/-- The word for a family. -/
def Family.label : Family → String
  | .source => "source"
  | .map => "map"
  | .flatMap => "flatmap"
  | .filter => "filter"
  | .repartition => "repartition"
  | .join => "join"

/-- Different families have different words. -/
theorem Family.label_inj {a b : Family} : a.label = b.label ↔ a = b := by
  cases a <;> cases b <;> simp [label]

/-- Produces the next record, or none at the end. -/
abbrev SourceFn := Unit → Option Scalar

/-- What a node with one parent runs. -/
inductive Transform where
  /-- One record for each record. -/
  | map (f : Scalar → Scalar)
  /-- Any number of records for each record. -/
  | flatMap (f : Scalar → List Scalar)
  /-- The records that satisfy a test. -/
  | filter (keep : Scalar → Bool)
  /-- All records. -/
  | repartition

/-- The family of a transform. -/
def Transform.family : Transform → Family
  | .map _ => .map
  | .flatMap _ => .flatMap
  | .filter _ => .filter
  | .repartition => .repartition

/-! ### Joins -/

/-- Which records without a partner a join keeps. -/
inductive JoinType where
  /-- None. -/
  | inner
  /-- Those of the left side. -/
  | leftOuter
  /-- Those of the right side. -/
  | rightOuter
  /-- Those of both sides. -/
  | fullOuter
  deriving DecidableEq, Repr

namespace JoinType

/-- The words for a join type. -/
def label : JoinType → String
  | .inner => "inner"
  | .leftOuter => "left outer"
  | .rightOuter => "right outer"
  | .fullOuter => "full outer"

/-- The name of a join type in JSON. -/
def caseName : JoinType → String
  | .inner => "Inner"
  | .leftOuter => "LeftOuter"
  | .rightOuter => "RightOuter"
  | .fullOuter => "FullOuter"

/-- The JSON form of a join type. -/
def toJson (t : JoinType) : Json := .str t.caseName

/-- Reads a join type. -/
def ofJson? (v : Json) : Option JoinType := do
  let (name, data) ← v.case?
  if Json.isBare data then
    match name with
    | "Inner" => some .inner
    | "LeftOuter" => some .leftOuter
    | "RightOuter" => some .rightOuter
    | "FullOuter" => some .fullOuter
    | _ => none
  else none

end JoinType

/-- What a join runs. -/
structure JoinSpec where
  /-- Records meet in a window. -/
  window : Window
  /-- Which records without a partner are kept. -/
  joinType : JoinType
  /-- The key of a record of the left side. -/
  leftKey : Scalar → Scalar
  /-- The key of a record of the right side. -/
  rightKey : Scalar → Scalar
  /-- The record made of two that share a key. -/
  combine : Scalar → Scalar → Scalar

/-- An inner join on the keys of the records. -/
def JoinSpec.inner (window : Window) (combine : Scalar → Scalar → Scalar) : JoinSpec where
  window := window
  joinType := .inner
  leftKey := Scalar.key
  rightKey := Scalar.key
  combine := combine

end StreamPlan
