import Mathlib.Logic.Basic
import StreamPlan.Plan.Sink
import StreamPlan.Proofs.Topology.Checks

/-!
# Topologies made by calls

A topology holds its stages twice: in the order they were registered, and in an index
from names to positions.  Every lookup trusts the index, and an edge is wired at the
position it gives.  This file follows calls in a row, with any arguments and whether or
not they are refused, and shows that the stages and the index never disagree.

A call does one of three things: it adds a stage at the end, it adds an edge to the
inputs of one stage, or it is refused and does nothing.  `register_cases` and
`wire_cases` say which, and all else is read off them.

## Main definitions

* `Topology.after`, `Topology.ofCalls` — calls in a row on a new topology.
* `Topology.WellFormed` — the stages and the index agree.
* `Topology.Responsive` — how a topology takes the next call.
* `Topology.Searchable` — what lookups find.

## Main results

* `Topology.WellFormed.after` — **a call keeps the stages and the index in step.**
* `Topology.mem_names_ofCalls` — which names are registered.
* `Topology.sound_ofCalls` — **whatever calls were made, stages and index agree, the
  next call is taken whole or not at all, and lookups find what is there.**
-/

namespace StreamPlan
namespace Topology

/-! ### What a call does -/

/-- The topology after a call, whether or not it was refused. -/
def after (t : Topology) (call : PlanCall) : Topology := (PlanSink.accept t call).2

/-- The topology after calls in a row, from a new one. -/
def ofCalls (calls : List PlanCall) : Topology := calls.foldl after empty

/-- Adds an edge to the inputs of the stage at a position. -/
def connect (t : Topology) (i : Nat) (e : InputEdge) : Topology :=
  { t with stages := t.stages.modify i (addInput e) }

theorem contains_index_iff {t : Topology} {name : String} :
    t.index.contains name = true ↔ t.position? name ≠ none := by
  rw [position?, Std.TreeMap.contains_eq_isSome_getElem?, Option.isSome_iff_ne_none]

/-- **A stage is added at the end, or refused without a trace.** -/
theorem register_cases (t : Topology) (name : String) (partitions : UInt64) (unit : StageUnit) :
    (PlanSink.register t name partitions unit = (.ok t.size, t.push name partitions unit) ∧
        t.position? name = none ∧ partitions ≠ 0) ∨
      ∃ reason, PlanSink.register t name partitions unit = (.error reason, t) ∧
        (t.position? name ≠ none ∨ partitions = 0) := by
  simp only [PlanSink.register, register]
  by_cases htaken : t.index.contains name = true
  · refine .inr ⟨.duplicateName name, ?_, .inl (contains_index_iff.mp htaken)⟩
    rw [if_pos htaken]
  · by_cases hzero : partitions = 0
    · refine .inr ⟨.invalidPartitions name partitions, ?_, .inr hzero⟩
      rw [if_neg htaken, if_pos hzero]
    · refine .inl ⟨?_, ?_, hzero⟩
      · rw [if_neg htaken, if_neg hzero]
      · rw [contains_index_iff, not_not] at htaken
        exact htaken

/-- A name that is taken is refused under that name. -/
theorem register_of_taken {t : Topology} {name : String} (h : t.position? name ≠ none)
    (partitions : UInt64) (unit : StageUnit) :
    PlanSink.register t name partitions unit = (.error (.duplicateName name), t) := by
  simp only [PlanSink.register, register]
  rw [if_pos (contains_index_iff.mpr h)]

/-- **An edge is added at the position of its consumer, or refused without a trace.** -/
theorem wire_cases (t : Topology) (consumer producer : String) (grouping : Grouping) :
    (∃ i, PlanSink.wire t consumer producer grouping =
          (.ok (), t.connect i ⟨producer, grouping⟩) ∧
        t.position? producer ≠ none ∧ t.position? consumer = some i) ∨
      ∃ reason, PlanSink.wire t consumer producer grouping = (.error reason, t) ∧
        (t.position? producer = none ∨ t.position? consumer = none) := by
  simp only [PlanSink.wire, wire]
  by_cases hproducer : t.index.contains producer = true
  · rw [if_pos hproducer]
    cases hconsumer : t.index[consumer]? with
    | some i => exact .inl ⟨i, rfl, contains_index_iff.mp hproducer, hconsumer⟩
    | none => exact .inr ⟨_, rfl, .inr hconsumer⟩
  · refine .inr ⟨.unknownStage producer, ?_, .inl ?_⟩
    · rw [if_neg hproducer]
    · rw [contains_index_iff, not_not] at hproducer
      exact hproducer

/-- A topology takes a registration exactly if the name is new and there are partitions. -/
theorem accept_register_eq_ok_iff {t t' : Topology} {name : String} {partitions : UInt64}
    {unit : StageUnit} :
    PlanSink.accept t (.register name partitions unit) = (.ok (), t') ↔
      t.position? name = none ∧ partitions ≠ 0 ∧ t.push name partitions unit = t' := by
  simp only [PlanSink.accept]
  rcases t.register_cases name partitions unit with
    ⟨heq, hname, hpartitions⟩ | ⟨reason, heq, hrefused⟩
  · rw [heq]
    simp [hname, hpartitions, Except.map]
  · rw [heq]
    constructor
    · intro h
      cases h
    · rintro ⟨hname, hpartitions, -⟩
      rcases hrefused with htaken | hzero
      · exact absurd hname htaken
      · exact absurd hzero hpartitions

/-- A topology takes an edge exactly if it has both ends. -/
theorem accept_wire_eq_ok_iff {t t' : Topology} {consumer producer : String}
    {grouping : Grouping} :
    PlanSink.accept t (.wire consumer producer grouping) = (.ok (), t') ↔
      t.position? producer ≠ none ∧
        ∃ i, t.position? consumer = some i ∧ t.connect i ⟨producer, grouping⟩ = t' := by
  simp only [PlanSink.accept]
  rcases t.wire_cases consumer producer grouping with
    ⟨i, heq, hproducer, hconsumer⟩ | ⟨reason, heq, hrefused⟩
  · rw [heq]
    simp [hproducer, hconsumer]
  · rw [heq]
    constructor
    · intro h
      cases h
    · rintro ⟨hproducer, i, hconsumer, -⟩
      rcases hrefused with hnone | hnone
      · exact absurd hnone hproducer
      · cases hconsumer.symm.trans hnone

theorem getElem?_stages_push (t : Topology) (name : String) (partitions : UInt64)
    (unit : StageUnit) (i : Nat) :
    (t.push name partitions unit).stages[i]? =
      if i = t.size then some ⟨t.size, name, partitions, unit, []⟩ else t.stages[i]? :=
  Array.getElem?_push

theorem getElem?_stages_connect (t : Topology) (i : Nat) (e : InputEdge) (j : Nat) :
    (t.connect i e).stages[j]? =
      if i = j then t.stages[j]?.map (addInput e) else t.stages[j]? :=
  Array.getElem?_modify

@[simp] theorem size_connect (t : Topology) (i : Nat) (e : InputEdge) :
    (t.connect i e).size = t.size := by
  simp [connect, size]

theorem mem_names_iff {t : Topology} {name : String} :
    name ∈ t.names ↔ ∃ (i : Nat) (s : Stage), t.stages[i]? = some s ∧ s.name = name := by
  rw [names, List.mem_map]
  constructor
  · rintro ⟨s, hs, hname⟩
    obtain ⟨i, hi⟩ := List.mem_iff_getElem?.mp hs
    exact ⟨i, s, by simpa using hi, hname⟩
  · rintro ⟨i, s, hi, hname⟩
    exact ⟨s, by simpa using Array.mem_of_getElem? hi, hname⟩

/-- A stage that gets an edge differs in its inputs only. -/
theorem exists_of_getElem?_connect {t : Topology} {i j : Nat} {e : InputEdge} {s : Stage}
    (h : (t.connect i e).stages[j]? = some s) :
    ∃ s', t.stages[j]? = some s' ∧ s.id = s'.id ∧ s.name = s'.name ∧
      s.partitions = s'.partitions ∧ ∀ e' ∈ s.inputs, e' ∈ s'.inputs ∨ e' = e := by
  rw [getElem?_stages_connect] at h
  split at h
  · obtain ⟨s', hs', rfl⟩ := Option.map_eq_some_iff.mp h
    refine ⟨s', hs', rfl, rfl, rfl, ?_⟩
    intro e' he'
    simpa [addInput] using he'
  · exact ⟨s, h, rfl, rfl, rfl, fun e' he' => .inl he'⟩

theorem names_connect (t : Topology) (i : Nat) (e : InputEdge) :
    (t.connect i e).names = t.names := by
  refine List.ext_getElem? fun j => ?_
  simp only [names, List.getElem?_map, Array.getElem?_toList, getElem?_stages_connect]
  split
  · rw [Option.map_map]
    rfl
  · rfl

/-! ### The stages and the index agree -/

/-- The index gives the position of every name, and stages are as they are registered. -/
structure WellFormed (t : Topology) : Prop where
  /-- The index gives exactly the positions at which names stand. -/
  position : ∀ (name : String) (i : Nat),
    t.index[name]? = some i ↔ ∃ s, t.stages[i]? = some s ∧ s.name = name
  id_eq : ∀ (i : Nat) (s : Stage), t.stages[i]? = some s → s.id = i
  one_le_partitions : ∀ (i : Nat) (s : Stage), t.stages[i]? = some s → 1 ≤ s.partitions
  /-- Edges come from registered stages. -/
  producer : ∀ (i : Nat) (s : Stage), t.stages[i]? = some s → ∀ e ∈ s.inputs,
    e.producer ∈ t.names

theorem wellFormed_empty : empty.WellFormed where
  position := by simp [empty]
  id_eq := by simp [empty]
  one_le_partitions := by simp [empty]
  producer := by simp [empty]

theorem WellFormed.mem_names_iff_position {t : Topology} (h : t.WellFormed) {name : String} :
    name ∈ t.names ↔ t.position? name ≠ none := by
  rw [mem_names_iff, Option.ne_none_iff_exists']
  exact exists_congr fun i => (h.position name i).symm

/-- Two positions of one name are the same. -/
theorem WellFormed.names_nodup {t : Topology} (h : t.WellFormed) : t.names.Nodup := by
  rw [List.nodup_iff_pairwise_ne, List.pairwise_iff_getElem]
  intro i j hi hj hij heq
  simp only [names, List.getElem_map, Array.getElem_toList] at heq
  simp only [names, List.length_map, Array.length_toList] at hi hj
  have hfirst := (h.position _ i).mpr ⟨_, Array.getElem?_eq_getElem hi, heq⟩
  have hsecond := (h.position _ j).mpr ⟨_, Array.getElem?_eq_getElem hj, rfl⟩
  rw [hfirst, Option.some.injEq] at hsecond
  omega

theorem WellFormed.push {t : Topology} (h : t.WellFormed) {name : String} {partitions : UInt64}
    (unit : StageUnit) (hname : t.position? name = none) (hpartitions : partitions ≠ 0) :
    (t.push name partitions unit).WellFormed where
  position := by
    intro other i
    show (t.push name partitions unit).position? other = some i ↔ _
    rw [position?_push, getElem?_stages_push]
    by_cases hother : name = other
    · -- The new name stands at the end, and stood nowhere before.
      subst hother
      rw [if_pos rfl]
      constructor
      · intro hi
        cases hi
        exact ⟨_, if_pos rfl, rfl⟩
      · rintro ⟨s, hs, hsname⟩
        split at hs
        · next hi => rw [hi]
        · have hi := (h.position name i).mpr ⟨s, hs, hsname⟩
          rw [position?] at hname
          rw [hname] at hi
          cases hi
    · rw [if_neg hother, position?, h.position]
      constructor
      · rintro ⟨s, hs, hsname⟩
        have hlt : i < t.size := (Array.getElem?_eq_some_iff.mp hs).1
        rw [if_neg (Nat.ne_of_lt hlt)]
        exact ⟨s, hs, hsname⟩
      · rintro ⟨s, hs, hsname⟩
        split at hs
        · cases hs
          exact absurd hsname hother
        · exact ⟨s, hs, hsname⟩
  id_eq := by
    intro i s hs
    rw [getElem?_stages_push] at hs
    split at hs
    · next hi =>
      cases hs
      exact hi.symm
    · exact h.id_eq i s hs
  one_le_partitions := by
    intro i s hs
    rw [getElem?_stages_push] at hs
    split at hs
    · cases hs
      exact UInt64.pos_iff_ne_zero.mpr hpartitions
    · exact h.one_le_partitions i s hs
  producer := by
    intro i s hs e he
    rw [getElem?_stages_push] at hs
    rw [names_push]
    split at hs
    · cases hs
      cases he
    · exact List.mem_append_left _ (h.producer i s hs e he)

theorem WellFormed.connect {t : Topology} (h : t.WellFormed) (i : Nat) {e : InputEdge}
    (hproducer : t.position? e.producer ≠ none) : (t.connect i e).WellFormed where
  position := by
    intro name j
    show t.index[name]? = some j ↔ _
    rw [h.position, getElem?_stages_connect]
    split
    · simp only [Option.map_eq_some_iff, exists_exists_and_eq_and]
      rfl
    · rfl
  id_eq := by
    intro j s hs
    obtain ⟨s', hs', hid, -⟩ := exists_of_getElem?_connect hs
    rw [hid]
    exact h.id_eq j s' hs'
  one_le_partitions := by
    intro j s hs
    obtain ⟨s', hs', -, -, hpartitions, -⟩ := exists_of_getElem?_connect hs
    rw [hpartitions]
    exact h.one_le_partitions j s' hs'
  producer := by
    intro j s hs e' he'
    obtain ⟨s', hs', -, -, -, hinputs⟩ := exists_of_getElem?_connect hs
    rw [names_connect]
    rcases hinputs e' he' with hold | rfl
    · exact h.producer j s' hs' e' hold
    · exact h.mem_names_iff_position.mpr hproducer

/-- **A call keeps the stages and the index in step.** -/
theorem WellFormed.after {t : Topology} (h : t.WellFormed) (call : PlanCall) :
    (t.after call).WellFormed := by
  cases call with
  | register name partitions unit =>
    simp only [Topology.after, PlanSink.accept]
    rcases t.register_cases name partitions unit with ⟨heq, hname, hpartitions⟩ | ⟨_, heq, -⟩
    · rw [heq]
      exact h.push unit hname hpartitions
    · rw [heq]
      exact h
  | wire consumer producer grouping =>
    simp only [Topology.after, PlanSink.accept]
    rcases t.wire_cases consumer producer grouping with ⟨i, heq, hproducer, -⟩ | ⟨_, heq, -⟩
    · rw [heq]
      exact h.connect i hproducer
    · rw [heq]
      exact h

theorem wellFormed_foldl_after {t : Topology} (h : t.WellFormed) (calls : List PlanCall) :
    (calls.foldl after t).WellFormed := by
  induction calls generalizing t with
  | nil => exact h
  | cons call calls ih => exact ih (h.after call)

theorem wellFormed_ofCalls (calls : List PlanCall) : (ofCalls calls).WellFormed :=
  wellFormed_foldl_after wellFormed_empty calls

/-! ### Which names are registered -/

/-- A call adds the name of a stage with partitions, if it adds one. -/
theorem mem_names_after {t : Topology} (h : t.WellFormed) (call : PlanCall) (name : String) :
    name ∈ (t.after call).names ↔
      name ∈ t.names ∨ ∃ partitions unit, call = .register name partitions unit ∧ partitions ≠ 0 := by
  cases call with
  | register other partitions unit =>
    simp only [after, PlanSink.accept]
    rcases t.register_cases other partitions unit with ⟨heq, -, hpartitions⟩ | ⟨_, heq, hrefused⟩
    · rw [heq, names_push, List.mem_append, List.mem_singleton]
      constructor
      · rintro (hmem | rfl)
        · exact .inl hmem
        · exact .inr ⟨partitions, unit, rfl, hpartitions⟩
      · rintro (hmem | ⟨_, _, hcall, -⟩)
        · exact .inl hmem
        · cases hcall
          exact .inr rfl
    · rw [heq]
      constructor
      · exact .inl
      · rintro (hmem | ⟨_, _, hcall, hpartitions⟩)
        · exact hmem
        · -- Refused although it has partitions: the name was there already.
          cases hcall
          exact h.mem_names_iff_position.mpr (hrefused.resolve_right hpartitions)
  | wire consumer producer grouping =>
    simp only [after, PlanSink.accept]
    rcases t.wire_cases consumer producer grouping with ⟨i, heq, -⟩ | ⟨_, heq, -⟩
    · simp [heq, names_connect]
    · simp [heq]

theorem mem_names_foldl_after {t : Topology} (h : t.WellFormed) (calls : List PlanCall)
    (name : String) :
    name ∈ (calls.foldl after t).names ↔ name ∈ t.names ∨
      ∃ partitions unit, .register name partitions unit ∈ calls ∧ partitions ≠ 0 := by
  induction calls generalizing t with
  | nil => simp
  | cons call calls ih =>
    rw [List.foldl_cons, ih (h.after call), mem_names_after h]
    constructor
    · rintro ((hmem | ⟨partitions, unit, rfl, hne⟩) | ⟨partitions, unit, hmem, hne⟩)
      · exact .inl hmem
      · exact .inr ⟨partitions, unit, List.mem_cons_self, hne⟩
      · exact .inr ⟨partitions, unit, List.mem_cons_of_mem _ hmem, hne⟩
    · rintro (hmem | ⟨partitions, unit, hmem, hne⟩)
      · exact .inl (.inl hmem)
      · rcases List.mem_cons.mp hmem with rfl | hmem
        · exact .inl (.inr ⟨partitions, unit, rfl, hne⟩)
        · exact .inr ⟨partitions, unit, hmem, hne⟩

/-- A name is registered if some call asked for a stage of that name with partitions. -/
theorem mem_names_ofCalls (calls : List PlanCall) (name : String) :
    name ∈ (ofCalls calls).names ↔
      ∃ partitions unit, .register name partitions unit ∈ calls ∧ partitions ≠ 0 := by
  rw [ofCalls, mem_names_foldl_after wellFormed_empty]
  simp [empty, names]

/-! ### The next call -/

/-- How a topology takes the next call: whole, or not at all. -/
structure Responsive (t : Topology) : Prop where
  register_ok : ∀ {name : String} {partitions : UInt64} {unit : StageUnit} {id : StageId}
    {t' : Topology}, PlanSink.register t name partitions unit = (.ok id, t') →
      name ∉ t.names ∧ partitions ≠ 0 ∧ id = t.size ∧
      t'.stages = t.stages.push ⟨id, name, partitions, unit, []⟩ ∧
      ∀ other, t'.index[other]? = if other = name then some id else t.index[other]?
  register_error : ∀ {name : String} {partitions : UInt64} {unit : StageUnit}
    {reason : PlanError} {t' : Topology},
      PlanSink.register t name partitions unit = (.error reason, t') →
      (name ∈ t.names ∨ partitions = 0) ∧ t' = t
  wire_ok : ∀ {consumer producer : String} {grouping : Grouping} {t' : Topology},
    PlanSink.wire t consumer producer grouping = (.ok (), t') →
      producer ∈ t.names ∧ t'.index = t.index ∧ t'.size = t.size ∧
      ∃ (i : Nat) (s : Stage), t.stages[i]? = some s ∧ s.name = consumer ∧
        t'.stages[i]? = some { s with inputs := s.inputs ++ [⟨producer, grouping⟩] } ∧
        ∀ j : Nat, j ≠ i → t'.stages[j]? = t.stages[j]?
  wire_error : ∀ {consumer producer : String} {grouping : Grouping} {reason : PlanError}
    {t' : Topology}, PlanSink.wire t consumer producer grouping = (.error reason, t') →
      (producer ∉ t.names ∨ consumer ∉ t.names) ∧ t' = t

theorem WellFormed.responsive {t : Topology} (h : t.WellFormed) : t.Responsive where
  register_ok := by
    intro name partitions unit id t' heq
    rcases t.register_cases name partitions unit with ⟨hok, hname, hpartitions⟩ | ⟨_, herror, -⟩
    · rw [hok] at heq
      cases heq
      refine ⟨fun hmem => h.mem_names_iff_position.mp hmem hname, hpartitions, rfl, rfl, ?_⟩
      intro other
      show (t.push name partitions unit).position? other = _
      rw [position?_push]
      simp only [eq_comm, position?]
    · rw [herror] at heq
      cases heq
  register_error := by
    intro name partitions unit reason t' heq
    rcases t.register_cases name partitions unit with ⟨hok, -⟩ | ⟨_, herror, hrefused⟩
    · rw [hok] at heq
      cases heq
    · rw [herror] at heq
      cases heq
      exact ⟨hrefused.imp_left h.mem_names_iff_position.mpr, rfl⟩
  wire_ok := by
    intro consumer producer grouping t' heq
    rcases t.wire_cases consumer producer grouping with ⟨i, hok, hproducer, hi⟩ | ⟨_, herror, -⟩
    · rw [hok] at heq
      cases heq
      obtain ⟨s, hs, hname⟩ := (h.position consumer i).mp hi
      refine ⟨h.mem_names_iff_position.mpr hproducer, rfl, size_connect .., i, s, hs, hname, ?_, ?_⟩
      · rw [getElem?_stages_connect, if_pos rfl, hs]
        rfl
      · intro j hj
        rw [getElem?_stages_connect, if_neg (Ne.symm hj)]
    · rw [herror] at heq
      cases heq
  wire_error := by
    intro consumer producer grouping reason t' heq
    rcases t.wire_cases consumer producer grouping with ⟨i, hok, -⟩ | ⟨_, herror, hrefused⟩
    · rw [hok] at heq
      cases heq
    · rw [herror] at heq
      cases heq
      refine ⟨?_, rfl⟩
      simpa only [h.mem_names_iff_position, not_not] using hrefused

/-! ### Lookups -/

/-- What lookups find. -/
structure Searchable (t : Topology) : Prop where
  position_iff : ∀ name i, t.position? name = some i ↔ ∃ s, t.stages[i]? = some s ∧ s.name = name
  position_isSome : ∀ name, (t.position? name).isSome = true ↔ name ∈ t.names
  stage_iff : ∀ name s, t.stage? name = some s ↔ s ∈ t.stages ∧ s.name = name
  stage_isSome : ∀ name, (t.stage? name).isSome = true ↔ name ∈ t.names
  inputs_ok : ∀ s ∈ t.stages, t.inputs s.name = .ok s.inputs
  inputs_error : ∀ name, name ∉ t.names → t.inputs name = .error (.unknownStage name)
  /-- In the order of registration. -/
  consumers_sublist : ∀ name, (t.consumers name).Sublist t.names
  consumers_nodup : ∀ name, (t.consumers name).Nodup
  mem_consumers : ∀ name reader, reader ∈ t.consumers name ↔
    ∃ s ∈ t.stages, s.name = reader ∧ ∃ e ∈ s.inputs, e.producer = name

theorem WellFormed.stage?_eq_some_iff {t : Topology} (h : t.WellFormed) {name : String}
    {s : Stage} : t.stage? name = some s ↔ s ∈ t.stages ∧ s.name = name := by
  rw [stage?, Option.bind_eq_some_iff]
  constructor
  · rintro ⟨i, hi, hs⟩
    obtain ⟨s', hs', hname⟩ := (h.position name i).mp hi
    rw [hs] at hs'
    cases hs'
    exact ⟨Array.mem_of_getElem? hs, hname⟩
  · rintro ⟨hmem, hname⟩
    obtain ⟨i, hi⟩ := Array.getElem?_of_mem hmem
    exact ⟨i, (h.position name i).mpr ⟨s, hi, hname⟩, hi⟩

theorem WellFormed.stage?_isSome_iff {t : Topology} (h : t.WellFormed) {name : String} :
    (t.stage? name).isSome = true ↔ name ∈ t.names := by
  rw [Option.isSome_iff_exists, names, List.mem_map]
  refine exists_congr fun s => ?_
  rw [h.stage?_eq_some_iff, Array.mem_toList_iff]

theorem consumers_sublist (t : Topology) (name : String) :
    (t.consumers name).Sublist t.names :=
  List.filter_sublist.map Stage.name

theorem mem_consumers_iff {t : Topology} {name reader : String} :
    reader ∈ t.consumers name ↔
      ∃ s ∈ t.stages, s.name = reader ∧ ∃ e ∈ s.inputs, e.producer = name := by
  simp only [consumers, List.mem_map, List.mem_filter, Array.mem_toList_iff, List.any_eq_true,
    beq_iff_eq]
  constructor
  · rintro ⟨s, ⟨hs, hedge⟩, hname⟩
    exact ⟨s, hs, hname, hedge⟩
  · rintro ⟨s, hs, hname, hedge⟩
    exact ⟨s, ⟨hs, hedge⟩, hname⟩

theorem WellFormed.searchable {t : Topology} (h : t.WellFormed) : t.Searchable where
  position_iff := h.position
  position_isSome := by
    intro name
    rw [h.mem_names_iff_position, Option.isSome_iff_ne_none]
  stage_iff := fun _ _ => h.stage?_eq_some_iff
  stage_isSome := fun _ => h.stage?_isSome_iff
  inputs_ok := by
    intro s hs
    rw [inputs, h.stage?_eq_some_iff.mpr ⟨hs, rfl⟩]
  inputs_error := by
    intro name hname
    rw [← h.stage?_isSome_iff, Bool.not_eq_true, Option.isSome_eq_false_iff,
      Option.isNone_iff_eq_none] at hname
    rw [inputs, hname]
  consumers_sublist := t.consumers_sublist
  consumers_nodup := fun name => h.names_nodup.sublist (t.consumers_sublist name)
  mem_consumers := fun _ _ => mem_consumers_iff

/-! ### Whole runs -/

/-- **Whatever calls were made, and whichever of them were refused, the stages and the
index agree and no name occurs twice; the next call is taken whole or not at all; and
lookups find what is there.** -/
theorem sound_ofCalls (calls : List PlanCall) :
    (ofCalls calls).WellFormed ∧ (ofCalls calls).checkUniqueNames = .ok () ∧
      (∀ name, name ∈ (ofCalls calls).names ↔
        ∃ partitions unit, .register name partitions unit ∈ calls ∧ partitions ≠ 0) ∧
      (ofCalls calls).Responsive ∧ (ofCalls calls).Searchable := by
  have hwell := wellFormed_ofCalls calls
  refine ⟨hwell, ?_, mem_names_ofCalls calls, hwell.responsive, hwell.searchable⟩
  exact (checkUniqueNames_eq_ok_iff _).mpr hwell.names_nodup

/-- Calls with a stage that reads from itself twice and from a later stage, a name that
is taken, a stage without partitions and two edges with an end that is not there. -/
def tangled : List PlanCall :=
  [.register "a" 1 (.transform .repartition), .wire "a" "a" .shuffle, .wire "a" "b" .shuffle,
    .register "b" 2 (.transform .repartition), .register "a" 3 (.transform .repartition),
    .register "c" 0 (.transform .repartition), .wire "c" "b" .shuffle,
    .wire "a" "b" .shuffle, .wire "a" "a" .shuffle, .wire "b" "a" .shuffle]

example : (ofCalls tangled).stages.toList.map
      (fun s => (s.id, s.name, s.partitions, s.inputs.map InputEdge.producer))
    = [(0, "a", 1, ["a", "b", "a"]), (1, "b", 2, ["a"])] ∧
    (ofCalls tangled).consumers "a" = ["a", "b"] := by
  decide +kernel

end Topology
end StreamPlan
