import StreamPlan.Topology.Basic

/-!
# Sinks

The planner writes a plan into a sink: it registers stages and wires their edges,
one call after another.  A sink may refuse a call, and it may change even then.

## Main definitions

* `PlanSink` — what a sink has to offer; a `Topology` is one.
* `PlanCall`, `PlanSink.accept`, `PlanSink.acceptAll` — calls as values, and
  sending them until one is refused.
* `Transcript` — a sink that remembers what it was told.
-/

namespace StreamPlan

/-- A receiver of plans. -/
class PlanSink (σ : Type) where
  /-- Adds a stage. -/
  register : σ → String → UInt64 → StageUnit → Except PlanError StageId × σ
  /-- Adds an edge from a producer to a consumer. -/
  wire : σ → String → String → Grouping → Except PlanError Unit × σ

/-- A call of a sink. -/
inductive PlanCall where
  /-- Add a stage. -/
  | register (name : String) (partitions : UInt64) (unit : StageUnit)
  /-- Add an edge from a producer to a consumer. -/
  | wire (consumer producer : String) (grouping : Grouping)

namespace PlanSink

variable {σ : Type} [PlanSink σ]

/-- Makes a call; of an accepted one only that it was accepted matters. -/
def accept (sink : σ) : PlanCall → Except PlanError Unit × σ
  | .register name partitions unit =>
    let (r, sink) := register sink name partitions unit
    (r.map fun _ => (), sink)
  | .wire consumer producer grouping => wire sink consumer producer grouping

/-- Makes calls until one is refused. -/
def acceptAll (sink : σ) : List PlanCall → Except PlanError Unit × σ
  | [] => (.ok (), sink)
  | call :: calls =>
    match accept sink call with
    | (.ok _, sink) => acceptAll sink calls
    | (.error e, sink) => (.error e, sink)

@[simp] theorem acceptAll_nil (sink : σ) : acceptAll sink [] = (.ok (), sink) := rfl

/-- The calls of a second list are made if none of the first is refused. -/
theorem acceptAll_append (sink : σ) (calls more : List PlanCall) :
    acceptAll sink (calls ++ more) =
      match acceptAll sink calls with
      | (.ok _, sink) => acceptAll sink more
      | (.error e, sink) => (.error e, sink) := by
  induction calls generalizing sink with
  | nil => rfl
  | cons call calls ih =>
    simp only [List.cons_append, acceptAll]
    split
    · exact ih _
    · rfl

end PlanSink

/-! ### Topologies -/

/-- A topology takes the stages and edges that it can hold. -/
instance : PlanSink Topology where
  register t name partitions unit :=
    match t.register name partitions unit with
    | .ok (id, t) => (.ok id, t)
    | .error e => (.error e, t)
  wire t consumer producer grouping :=
    match t.wire consumer producer grouping with
    | .ok t => (.ok (), t)
    | .error e => (.error e, t)

/-! ### Transcripts -/

/-- A sink that remembers every call, also those it refuses. -/
structure Transcript where
  /-- Which calls are refused, and why. -/
  refuses : PlanCall → Option PlanError
  /-- The calls so far. -/
  calls : Array PlanCall

namespace Transcript

/-- A transcript without calls. -/
def new (refuses : PlanCall → Option PlanError) : Transcript := ⟨refuses, #[]⟩

/-- Remembers a call and answers it. -/
def note (t : Transcript) (call : PlanCall) : Option PlanError × Transcript :=
  (t.refuses call, { t with calls := t.calls.push call })

/-- A stage's position is the number of calls before it. -/
instance : PlanSink Transcript where
  register t name partitions unit :=
    match t.note (.register name partitions unit) with
    | (none, t') => (.ok t.calls.size, t')
    | (some e, t') => (.error e, t')
  wire t consumer producer grouping :=
    match t.note (.wire consumer producer grouping) with
    | (none, t') => (.ok (), t')
    | (some e, t') => (.error e, t')

end Transcript

/-- The text of a call. -/
def PlanCall.inspect : PlanCall → String
  | .register name partitions unit =>
    "register " ++ name ++ " " ++ unit.family.label ++ " x" ++ toString partitions
  | .wire consumer producer grouping =>
    "wire " ++ consumer ++ " <- " ++ producer ++ " " ++ grouping.kind.label

end StreamPlan
