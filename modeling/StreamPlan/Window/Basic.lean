import StreamPlan.Error
import StreamPlan.Text.Inspect
import StreamPlan.Window.Duration

/-!
# Windows

A join matches records that fall into the same window.  Windows are measured in
time or in records; tumbling windows follow one another, sliding windows start
every so often and may overlap.

## Main definitions

* `Window`, `Window.isValid` — a window and when it makes sense.
* `Window.validate` — the check with its failure.
* `Window.label`, `Window.inspect` — the short and the exact text.
* `Window.form`, `Window.toJson`, `Window.ofJson?`.
-/

namespace StreamPlan

/-- How records are gathered before they are joined. -/
inductive Window where
  /-- Windows of a length, one after another. -/
  | tumblingTime (size : Duration)
  /-- Windows of a length that start every `slide`. -/
  | slidingTime (size slide : Duration)
  /-- Windows of a number of records, one after another. -/
  | tumblingCount (size : UInt64)
  /-- Windows of a number of records that start every `slide` records. -/
  | slidingCount (size slide : UInt64)
  deriving DecidableEq, Inhabited

namespace Window

/-- No size is zero, and no slide is zero or larger than its window. -/
def isValid : Window → Bool
  | .tumblingTime size => decide (0 < size.toNanos)
  | .slidingTime size slide => decide (0 < slide.toNanos ∧ slide.toNanos ≤ size.toNanos)
  | .tumblingCount size => decide (0 < size)
  | .slidingCount size slide => decide (0 < slide ∧ slide ≤ size)

/-- The exact text of a window. -/
def inspect : Window → String
  | .tumblingTime size => Inspect.record "TumblingTime" [("size", size.inspect)]
  | .slidingTime size slide =>
    Inspect.record "SlidingTime" [("size", size.inspect), ("slide", slide.inspect)]
  | .tumblingCount size => Inspect.record "TumblingCount" [("size", toString size)]
  | .slidingCount size slide =>
    Inspect.record "SlidingCount" [("size", toString size), ("slide", toString slide)]

/-- Refuses a window that makes no sense. -/
def validate (w : Window) : Except PlanError Unit :=
  if w.isValid then .ok () else .error (.config ("invalid window: " ++ w.inspect))

/-- The short text of a window: times in whole milliseconds. -/
def label : Window → String
  | .tumblingTime size => "tumbling " ++ toString size.millis ++ "ms"
  | .slidingTime size slide =>
    "sliding " ++ toString size.millis ++ "ms/" ++ toString slide.millis ++ "ms"
  | .tumblingCount size => "tumbling " ++ toString size ++ " rows"
  | .slidingCount size slide => "sliding " ++ toString size ++ "/" ++ toString slide ++ " rows"

/-! ### JSON -/

/-- The name of the kind of a window with its measures, where a span has the form `span`.
Inside a free-form value spans have another form than by themselves. -/
def form (span : Duration → Json) : Window → Json
  | .tumblingTime size => .obj [("TumblingTime", .obj [("size", span size)])]
  | .slidingTime size slide =>
    .obj [("SlidingTime", .obj [("size", span size), ("slide", span slide)])]
  | .tumblingCount size => .obj [("TumblingCount", .obj [("size", .ofUInt64 size)])]
  | .slidingCount size slide =>
    .obj [("SlidingCount", .obj [("size", .ofUInt64 size), ("slide", .ofUInt64 slide)])]

/-- The JSON form of a window. -/
def toJson (w : Window) : Json := w.form Duration.toJson

/-- The only measure of a tumbling window. -/
def sizeOf? (data : Json) : Option Json :=
  match data.record? ["size"] with
  | some [some size] => some size
  | _ => none

/-- The two measures of a sliding window. -/
def sizeAndSlideOf? (data : Json) : Option (Json × Json) :=
  match data.record? ["size", "slide"] with
  | some [some size, some slide] => some (size, slide)
  | _ => none

/-- Reads a window; it need not be valid. -/
def ofJson? (v : Json) : Option Window := do
  let (name, some data) ← v.case? | none
  match name with
  | "TumblingTime" => return .tumblingTime (← Duration.ofJson? (← sizeOf? data))
  | "SlidingTime" =>
    let (size, slide) ← sizeAndSlideOf? data
    return .slidingTime (← Duration.ofJson? size) (← Duration.ofJson? slide)
  | "TumblingCount" => return .tumblingCount (← (← sizeOf? data).toUInt64?)
  | "SlidingCount" =>
    let (size, slide) ← sizeAndSlideOf? data
    return .slidingCount (← size.toUInt64?) (← slide.toUInt64?)
  | _ => none

end Window

end StreamPlan
