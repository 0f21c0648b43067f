import StreamPlan.Proofs.Plan.History
import StreamPlan.Proofs.Plan.Reachable

/-!
# Whole runs of operations

A user makes a pipeline, edits it and has it built, in any order and as often as wanted.
Operations may be refused and builds may fail, and the next operation starts from whatever
the last one left.  This file runs such lists of operations and says what a pipeline looks
like at every point of them.

## Main definitions

* `Pipeline.Operation`, `Pipeline.perform`, `Pipeline.performAll` — what can be done with
  a pipeline, and runs of it.
* `Pipeline.blank` — where runs begin.
* `Pipeline.Edit.target?` — the node an edit changes.
* `Pipeline.Sound` — what holds of a pipeline at every point of a run.
* `Pipeline.Edit.IsLocal` — an edit leaves the rest of a pipeline alone.

## Main results

* `Pipeline.edit_cases` — **an edit adds one node or changes its target.**
* `Pipeline.Reachable.performAll` — runs lead to reachable pipelines.
* `Pipeline.sound_performAll` — **every run leads to sound pipelines, and edits of them
  are local.**
-/

namespace StreamPlan

theorem Window.validate_of_isValid {w : Window} (h : w.isValid = true) :
    w.validate = .ok () := by
  unfold Window.validate
  rw [if_pos h]

namespace Pipeline

/-! ### What an edit does -/

/-- The node that an edit changes, if it changes one that is there. -/
def Edit.target? : Edit → Option NodeId
  | .source _ => none
  | .map _ _ => none
  | .flatMap _ _ => none
  | .filter _ _ => none
  | .repartition _ _ => none
  | .join _ _ _ => none
  | .setName id _ => some id
  | .setPartitions id _ => some id

section Edit

variable {g g' : Pipeline} {e : Edit}

theorem exists_push_of_transform {parent : NodeId} {op : Transform} {made : NodeId × Pipeline}
    (h : g.transform parent op = .ok made) : ∃ partitions kind, made = g.push partitions kind := by
  obtain ⟨n, -, hpush⟩ := Except.bind_eq_ok_iff.mp h
  cases hpush
  exact ⟨_, _, rfl⟩

/-- **An edit adds one node or changes its target.** -/
theorem edit_cases (h : g.edit e = .ok g') :
    (e.target? = none ∧ ∃ partitions kind, g' = (g.push partitions kind).2) ∨
      ∃ id f, e.target? = some id ∧ g' = g.update id f := by
  cases e with
  | source next =>
    cases h
    exact .inl ⟨rfl, _, _, rfl⟩
  | map parent f =>
    obtain ⟨made, hmade, rfl⟩ := Except.map_eq_ok_iff.mp h
    obtain ⟨partitions, kind, rfl⟩ := exists_push_of_transform hmade
    exact .inl ⟨rfl, _, _, rfl⟩
  | flatMap parent f =>
    obtain ⟨made, hmade, rfl⟩ := Except.map_eq_ok_iff.mp h
    obtain ⟨partitions, kind, rfl⟩ := exists_push_of_transform hmade
    exact .inl ⟨rfl, _, _, rfl⟩
  | filter parent keep =>
    obtain ⟨made, hmade, rfl⟩ := Except.map_eq_ok_iff.mp h
    obtain ⟨partitions, kind, rfl⟩ := exists_push_of_transform hmade
    exact .inl ⟨rfl, _, _, rfl⟩
  | repartition parent partitions =>
    obtain ⟨made, hmade, rfl⟩ := Except.map_eq_ok_iff.mp h
    obtain ⟨n, -, hrest⟩ := Except.bind_eq_ok_iff.mp hmade
    obtain ⟨u, -, hpush⟩ := Except.bind_eq_ok_iff.mp hrest
    cases hpush
    exact .inl ⟨rfl, _, _, rfl⟩
  | join left right spec =>
    obtain ⟨made, hmade, rfl⟩ := Except.map_eq_ok_iff.mp h
    obtain ⟨l, -, hrest⟩ := Except.bind_eq_ok_iff.mp hmade
    obtain ⟨r, -, hrest⟩ := Except.bind_eq_ok_iff.mp hrest
    obtain ⟨u, -, hpush⟩ := Except.bind_eq_ok_iff.mp hrest
    cases hpush
    exact .inl ⟨rfl, _, _, rfl⟩
  | setName id name =>
    obtain ⟨-, -, rfl⟩ := setName_eq_ok_iff.mp h
    exact .inr ⟨id, _, rfl, rfl⟩
  | setPartitions id partitions =>
    obtain ⟨-, -, rfl⟩ := setPartitions_eq_ok_iff.mp h
    exact .inr ⟨id, _, rfl, rfl⟩

/-- A node that is not the target stays as it is. -/
theorem getElem?_nodes_edit (h : g.edit e = .ok g') {i : NodeId} (hi : i < g.size)
    (htarget : e.target? ≠ some i) : g'.nodes[i]? = g.nodes[i]? := by
  rcases edit_cases h with ⟨-, partitions, kind, rfl⟩ | ⟨id, f, hid, rfl⟩
  · have hne : i ≠ g.nodes.size := Nat.ne_of_lt hi
    simp only [Pipeline.push]
    rw [Array.getElem?_push, if_neg hne]
  · have hne : id ≠ i := fun heq => htarget (heq ▸ hid)
    rw [getElem?_nodes_update, if_neg hne]

theorem size_edit (h : g.edit e = .ok g') :
    g'.size = if e.target?.isSome then g.size else g.size + 1 := by
  rcases edit_cases h with ⟨hnone, partitions, kind, rfl⟩ | ⟨id, f, hid, rfl⟩
  · rw [hnone, size_push]
    rfl
  · rw [hid, size_update]
    rfl

theorem sourcePartitions_edit (h : g.edit e = .ok g') :
    g'.sourcePartitions = g.sourcePartitions := by
  rcases edit_cases h with ⟨-, partitions, kind, rfl⟩ | ⟨id, f, -, rfl⟩
  · rfl
  · rfl

end Edit

/-! ### Runs -/

/-- What can be done with a pipeline. -/
inductive Operation : Type 1 where
  /-- Makes or changes a node. -/
  | edit (e : Edit)
  /-- Has nodes built in one session, going on after failed builds. -/
  | session {σ : Type} [PlanSink σ] (sink : σ) (config : Config) (ids : List NodeId)
  /-- Compiles end nodes into a sink. -/
  | plan {σ : Type} [PlanSink σ] (terminals : List NodeId) (sink : σ) (config : Config)
  /-- Compiles end nodes into a new topology. -/
  | topology (terminals : List NodeId) (config : Config)

/-- The pipeline after an operation, whether or not it succeeded. -/
def perform (g : Pipeline) : Operation → Pipeline
  | .edit e =>
    match g.edit e with
    | .ok g' => g'
    | .error _ => g
  | @Operation.session _ _ sink config ids =>
    match BuildSession.start g sink config with
    | .ok s => (s.buildEach ids).pipeline
    | .error _ => g
  | @Operation.plan _ _ terminals sink config => (g.buildPlan terminals sink config).2
  | .topology terminals config => (g.buildTopology terminals config).2

/-- The pipeline after a run of operations. -/
def performAll (g : Pipeline) (ops : List Operation) : Pipeline := ops.foldl perform g

/-- A pipeline without nodes, sized by settings if there are any. -/
def blank : Option Config → Pipeline
  | none => .empty
  | some c => .ofConfig c

theorem perform_edit_of_ok {g g' : Pipeline} {e : Edit} (h : g.edit e = .ok g') :
    g.perform (.edit e) = g' := by
  rw [perform, h]

theorem perform_edit_of_error {g : Pipeline} {e : Edit} {reason : PlanError}
    (h : g.edit e = .error reason) : g.perform (.edit e) = g := by
  rw [perform, h]

theorem reachable_blank (origin : Option Config) : (blank origin).Reachable := by
  cases origin with
  | none => exact .empty
  | some c => exact .ofConfig c

/-- One operation leads to a reachable pipeline. -/
theorem Reachable.perform {g : Pipeline} (h : g.Reachable) (op : Operation) :
    (g.perform op).Reachable := by
  cases op with
  | edit e =>
    cases he : g.edit e with
    | ok g' =>
      rw [perform_edit_of_ok he]
      exact h.edit e he
    | error reason =>
      rw [perform_edit_of_error he]
      exact h
  | session sink config ids =>
    rw [Pipeline.perform]
    cases hstart : BuildSession.start g sink config with
    | ok s => exact h.session hstart (BuildSession.After.refl.buildEach ids)
    | error reason => exact h
  | plan terminals sink config => exact h.buildPlan terminals sink config
  | topology terminals config => exact h.buildTopology terminals config

/-- Runs lead to reachable pipelines. -/
theorem Reachable.performAll {g : Pipeline} (h : g.Reachable) (ops : List Operation) :
    (g.performAll ops).Reachable := by
  induction ops generalizing g with
  | nil => exact h
  | cons op ops ih => exact ih (h.perform op)

/-! ### What holds at every point of a run -/

/-- What holds of a pipeline at every point of a run. -/
structure Sound (g : Pipeline) : Prop where
  id_eq : ∀ (i : NodeId) (n : Node), g.nodes[i]? = some n → n.id = i
  /-- Parents are there, and stand before their children. -/
  parent : ∀ i p : NodeId, g.HasParent i p → p < i ∧ g.has p = true
  acyclic : ∀ i : NodeId, ¬ Relation.TransGen g.HasParent i i
  one_le_partitions : ∀ (i : NodeId) (n : Node), g.nodes[i]? = some n → 1 ≤ n.partitions
  window : ∀ (i : NodeId) (n : Node) (left right : NodeId) (spec : JoinSpec),
    g.nodes[i]? = some n → n.kind = .join left right spec → spec.window.validate = .ok ()
  userName_ne_empty : ∀ (i : NodeId) (n : Node) (name : String),
    g.nodes[i]? = some n → n.userName = some name → name ≠ ""

/-- Positions only go down from a node to those above it. -/
theorem WellFormed.lt_of_transGen {g : Pipeline} (h : g.WellFormed) {i j : NodeId}
    (hij : Relation.TransGen g.HasParent i j) : j < i := by
  induction hij with
  | single hp =>
    obtain ⟨n, hn, hmem⟩ := hp
    exact (h.node _ n hn).parents_lt _ hmem
  | tail _ hp ih =>
    obtain ⟨n, hn, hmem⟩ := hp
    exact Nat.lt_trans ((h.node _ n hn).parents_lt _ hmem) ih

theorem WellFormed.sound {g : Pipeline} (h : g.WellFormed) : g.Sound where
  id_eq := fun i n hn => (h.node i n hn).id_eq
  parent := by
    rintro i p ⟨n, hn, hmem⟩
    have hi : i < g.nodes.size := (Array.getElem?_eq_some_iff.mp hn).1
    have hp : p < i := (h.node i n hn).parents_lt p hmem
    exact ⟨hp, decide_eq_true (Nat.lt_trans hp hi)⟩
  acyclic := fun i hi => Nat.lt_irrefl i (h.lt_of_transGen hi)
  one_le_partitions := by
    intro i n hn
    have hpos := UInt64.pos_iff_ne_zero.mpr (h.node i n hn).partitions_ne_zero
    exact UInt64.le_iff_toNat_le.mpr (UInt64.lt_iff_toNat_lt.mp hpos)
  window := fun i n left right spec hn hkind =>
    Window.validate_of_isValid ((h.node i n hn).window_isValid left right spec hkind)
  userName_ne_empty := by
    rintro i n name hn hname rfl
    exact (h.node i n hn).userName_ne_empty hname

/-- An edit of a pipeline leaves the rest of it alone, and all of it if it fails. -/
structure Edit.IsLocal (g : Pipeline) (e : Edit) : Prop where
  of_error : ∀ reason, g.edit e = .error reason → g.perform (.edit e) = g
  of_ok : ∀ g', g.edit e = .ok g' → g.perform (.edit e) = g' ∧
    g'.sourcePartitions = g.sourcePartitions ∧
    g'.size = (if e.target?.isSome then g.size else g.size + 1) ∧
    ∀ i, i < g.size → e.target? ≠ some i → g'.nodes[i]? = g.nodes[i]?

theorem Edit.isLocal (g : Pipeline) (e : Edit) : e.IsLocal g where
  of_error := fun _ he => perform_edit_of_error he
  of_ok := fun _ he => ⟨perform_edit_of_ok he, sourcePartitions_edit he, size_edit he,
    fun _ hi htarget => getElem?_nodes_edit he hi htarget⟩

/-- **Every run leads to sound pipelines, and edits of them are local**, whatever was
refused and whatever failed on the way. -/
theorem sound_performAll (origin : Option Config) (ops : List Operation) :
    ((blank origin).performAll ops).Sound ∧
      ∀ e : Edit, e.IsLocal ((blank origin).performAll ops) := by
  have hreachable := (reachable_blank origin).performAll ops
  exact ⟨hreachable.wellFormed.sound, fun e => e.isLocal _⟩

/-- Settings that give sources no partitions. -/
def unsized : Config := { (default : Config) with defaultSourcePartitions := 0 }

/-- A run in which a name, a window and a number of partitions are refused, the second
build of a session is of an unknown node, and a sink that takes no stage makes a whole
build fail. -/
def eventful : List Operation :=
  [.edit (.source fun _ => none), .edit (.map 0 Scalar.value), .edit (.setName 1 ""),
    .session Topology.empty default [1, 9], .edit (.setPartitions 0 0),
    .edit (.join 1 0 (.inner (.tumblingCount 0) .pair)),
    .plan [1] (Transcript.new fun _ => some (.unknownStage "")) default,
    .edit (.setName 1 "left"), .edit (.join 1 0 (.inner (.tumblingCount 1) .pair)),
    .topology [2] default]

theorem sound_performAll_eventful :
    ((blank (some unsized)).performAll eventful).nodes.map
        (fun n => (n.name, n.partitions, n.parents))
      = #[(some "source1", 1, []), (some "left", 1, [0]), (some "join1", 1, [1, 0])] ∧
    ((blank (some unsized)).performAll eventful).Sound :=
  ⟨by decide +kernel, (sound_performAll _ eventful).1⟩

end Pipeline
end StreamPlan
