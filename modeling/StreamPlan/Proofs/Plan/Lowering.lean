import Mathlib.Data.List.Nodup
import StreamPlan.Plan.Session
import StreamPlan.Proofs.Pipeline.WellFormed

/-!
# What a session does

A session changes only when it lowers a node, and a lowering either refuses the
node or records it.  `Lowered` says what either means for every part of the
session; all that is proved of sessions rests on it and not on the code of
`lower`.

The walk passes through many sessions.  Whatever each lowering keeps holds after
any number of steps, and so after any number of builds: `walk_preserves` and the
lemmas after it.

## Main definitions

* `BuildSession.Lowered` — the outcomes of lowering a node.
* `BuildSession.Enumerates` — a list of the nodes that have stages.

## Main results

* `BuildSession.lowered_lower` — **every lowering has one of these outcomes.**
* `BuildSession.lower_preserves` — what this means for the session alone.
* `BuildSession.walk_preserves`, `BuildSession.build_preserves`,
  `BuildSession.buildAll_preserves` — what lowerings keep, builds keep; and
  `BuildSession.buildAll_invariant`, for what all lowerings of new nodes keep.
-/

namespace StreamPlan

namespace BuildSession

variable {σ : Type}

/-! ### Sessions -/

/-- A session that has compiled nothing. -/
def fresh (g : Pipeline) (sink : σ) (config : Config) : BuildSession σ :=
  ⟨g, sink, config, .empty, ∅⟩

theorem start_eq_ok_iff {g : Pipeline} {sink : σ} {config : Config} {s : BuildSession σ} :
    start g sink config = .ok s ↔
      config.validate = .ok () ∧ s = fresh g sink config := by
  unfold start
  rw [Except.bind_eq_ok_iff]
  constructor
  · rintro ⟨⟨⟩, hvalid, hs⟩
    cases hs
    exact ⟨hvalid, rfl⟩
  · rintro ⟨hvalid, rfl⟩
    exact ⟨(), hvalid, rfl⟩

theorem stageOf_eq_ok_iff {s : BuildSession σ} {node parent : NodeId} {name : String} :
    s.stageOf node parent = .ok name ↔ s.built[parent]? = some name := by
  unfold stageOf
  split <;> simp_all

theorem contains_built_iff {s : BuildSession σ} {i : NodeId} :
    s.built.contains i = true ↔ ∃ name, s.built[i]? = some name := by
  rw [Std.TreeMap.contains_eq_isSome_getElem?, Option.isSome_iff_exists]

theorem contains_built_eq_false_iff {s : BuildSession σ} {i : NodeId} :
    s.built.contains i = false ↔ s.stageName? i = none := by
  rw [Std.TreeMap.contains_eq_isSome_getElem?, Option.isSome_eq_false_iff,
    Option.isNone_iff_eq_none]
  rfl

/-! ### Names -/

/-- Naming a node takes no name. -/
theorem contains_resolveName (s : BuildSession σ) (n : Node) (name : String) :
    (s.resolveName n).2.contains name = s.names.contains name := by
  unfold resolveName
  split
  · rfl
  · exact StageNames.contains_allocate ..

/-! ### Entries -/

/-- Entries that replace a visited node are for it and for its parents. -/
theorem node_of_mem_expand {s : BuildSession σ} {id : NodeId} {pushed : List Frame}
    (h : s.expand id = .ok pushed) {f : Frame} (hf : f ∈ pushed) :
    f.node = id ∨ s.pipeline.HasParent id f.node := by
  unfold expand at h
  split at h
  · cases h
  · next n hn =>
    split at h
    · cases h
    · cases h
      rw [List.mem_append, List.mem_map] at hf
      rcases hf with ⟨p, hp, rfl⟩ | hf
      · exact Or.inr ⟨n, Pipeline.node_eq_ok_iff.mp hn, (List.mem_filter.mp hp).1⟩
      · rw [List.mem_singleton.mp hf]
        exact Or.inl rfl

/-! ### Lowering -/

variable [PlanSink σ]

/-- The session that has recorded a node and told the sink. -/
def recorded (s : BuildSession σ) (id : NodeId) (n : Node) (unit : StageUnit)
    (inputs : List InputEdge) : BuildSession σ where
  pipeline := s.pipeline.assignName id (s.resolveName n).1
  sink := (PlanSink.acceptAll s.sink
    (stageCalls (s.resolveName n).1 n.partitions unit inputs)).2
  config := s.config
  names := (s.resolveName n).2.insert (s.resolveName n).1
  built := s.built.insert id (s.resolveName n).1

theorem getElem?_built_recorded (s : BuildSession σ) (id i : NodeId) (n : Node)
    (unit : StageUnit) (inputs : List InputEdge) :
    (s.recorded id n unit inputs).built[i]? =
      if id = i then some (s.resolveName n).1 else s.built[i]? := by
  simp only [recorded, Std.TreeMap.getElem?_insert, Std.LawfulEqCmp.compare_eq_iff_eq]

/-- A node that is recorded was not a stage, so the stages there were are kept. -/
theorem built_recorded_of_built {s : BuildSession σ} {id i : NodeId} {n : Node}
    {unit : StageUnit} {inputs : List InputEdge} {name : String}
    (hnew : s.built.contains id = false) (hi : s.built[i]? = some name) :
    (s.recorded id n unit inputs).built[i]? = some name := by
  have hne : id ≠ i := by
    rintro rfl
    rw [contains_built_iff.mpr ⟨name, hi⟩] at hnew
    cases hnew
  rw [getElem?_built_recorded, if_neg hne, hi]

theorem built_recorded_cases {s : BuildSession σ} {id i : NodeId} {n : Node} {unit : StageUnit}
    {inputs : List InputEdge} {name : String}
    (hi : (s.recorded id n unit inputs).built[i]? = some name) :
    id = i ∧ (s.resolveName n).1 = name ∨ id ≠ i ∧ s.built[i]? = some name := by
  rw [getElem?_built_recorded] at hi
  by_cases heq : id = i
  · rw [if_pos heq] at hi
    exact Or.inl ⟨heq, Option.some.inj hi⟩
  · rw [if_neg heq] at hi
    exact Or.inr ⟨heq, hi⟩

/-- The nodes that have stages, listed without repetitions. -/
structure Enumerates (nodes : List NodeId) (s : BuildSession σ) : Prop where
  nodup : nodes.Nodup
  mem_iff : ∀ i, i ∈ nodes ↔ s.built.contains i = true

theorem Enumerates.recorded {nodes : List NodeId} {s : BuildSession σ} (h : Enumerates nodes s)
    {id : NodeId} (hnew : s.built.contains id = false) (n : Node) (unit : StageUnit)
    (inputs : List InputEdge) : Enumerates (nodes ++ [id]) (s.recorded id n unit inputs) where
  nodup := by
    have hnot : id ∉ nodes := by
      rw [h.mem_iff, hnew]
      exact Bool.false_ne_true
    rw [← List.concat_eq_append]
    exact h.nodup.concat hnot
  mem_iff := by
    intro i
    have hcontains : (s.recorded id n unit inputs).built.contains i = true ↔
        id = i ∨ s.built.contains i = true := by
      simp [BuildSession.recorded, Std.TreeMap.contains_insert]
    rw [hcontains, List.mem_append, List.mem_singleton, h.mem_iff, or_comm, eq_comm]

/-- The outcomes of lowering a node. -/
inductive Lowered (s : BuildSession σ) (id : NodeId) :
    Except PlanError String → BuildSession σ → Prop
  /-- There is no such node. -/
  | unknown (hnode : s.pipeline.nodes[id]? = none) :
    Lowered s id (.error (.unknownNode id)) s
  /-- A parent has no stage. -/
  | unwired {n : Node} {e : PlanError} (hnode : s.pipeline.nodes[id]? = some n)
    (hwiring : s.wiring id n = .error e) :
    Lowered s id (.error e) s
  /-- The name is taken. -/
  | taken {n : Node} {w : StageUnit × List InputEdge} (hnode : s.pipeline.nodes[id]? = some n)
    (hwiring : s.wiring id n = .ok w) (htaken : s.names.contains (s.resolveName n).1 = true) :
    Lowered s id (.error (.duplicateName (s.resolveName n).1))
      { s with names := (s.resolveName n).2 }
  /-- The number of partitions is not acceptable. -/
  | disallowed {n : Node} {w : StageUnit × List InputEdge}
    (hnode : s.pipeline.nodes[id]? = some n) (hwiring : s.wiring id n = .ok w)
    (hfree : s.names.contains (s.resolveName n).1 = false)
    (hallows : s.allows n.partitions = false) :
    Lowered s id (.error (.invalidPartitions (s.resolveName n).1 n.partitions))
      { s with names := (s.resolveName n).2 }
  /-- The node has become a stage, and the sink has answered. -/
  | recorded {n : Node} {unit : StageUnit} {inputs : List InputEdge}
    (hnode : s.pipeline.nodes[id]? = some n) (hwiring : s.wiring id n = .ok (unit, inputs))
    (hfree : s.names.contains (s.resolveName n).1 = false)
    (hallows : s.allows n.partitions = true) :
    Lowered s id
      ((PlanSink.acceptAll s.sink
        (stageCalls (s.resolveName n).1 n.partitions unit inputs)).1.map
          fun _ => (s.resolveName n).1)
      (s.recorded id n unit inputs)

theorem announce_eq (s : BuildSession σ) (name : String) (calls : List PlanCall) :
    s.announce name calls = ((PlanSink.acceptAll s.sink calls).1.map fun _ => name,
      { s with sink := (PlanSink.acceptAll s.sink calls).2 }) := by
  unfold announce
  split
  · next heq => rw [heq]; rfl
  · next heq => rw [heq]; rfl

/-- Making a stage of a node that can be wired has one of the outcomes of
`Lowered`. -/
theorem lowered_lowerNode {s : BuildSession σ} {id : NodeId} {n : Node} {unit : StageUnit}
    {inputs : List InputEdge} (hnode : s.pipeline.nodes[id]? = some n)
    (hwiring : s.wiring id n = .ok (unit, inputs)) :
    Lowered s id (s.lowerNode id n unit inputs).1 (s.lowerNode id n unit inputs).2 := by
  simp only [lowerNode, contains_resolveName]
  cases hfree : s.names.contains (s.resolveName n).1 with
  | true => exact .taken hnode hwiring hfree
  | false =>
    -- What is allowed does not depend on the names, which have changed by now.
    have hsame : allows { s with names := (s.resolveName n).2 } n.partitions
        = s.allows n.partitions := rfl
    rw [if_neg Bool.false_ne_true, hsame]
    cases hallows : s.allows n.partitions with
    | true =>
      rw [if_pos rfl, announce_eq]
      exact .recorded hnode hwiring hfree hallows
    | false =>
      rw [if_neg Bool.false_ne_true]
      exact .disallowed hnode hwiring hfree hallows

/-- **Every lowering has one of the outcomes of `Lowered`.** -/
theorem lowered_lower (s : BuildSession σ) (id : NodeId) :
    Lowered s id (s.lower id).1 (s.lower id).2 := by
  unfold lower Pipeline.node
  cases hnode : s.pipeline.nodes[id]? with
  | none => exact .unknown hnode
  | some n =>
    dsimp only
    cases hwiring : s.wiring id n with
    | error e => exact .unwired hnode hwiring
    | ok w => exact lowered_lowerNode hnode hwiring

/-- The outcomes of `Lowered` exclude each other, so each of them is what lowering
comes to. -/
theorem Lowered.lower_eq {s s' : BuildSession σ} {id : NodeId} {r : Except PlanError String}
    (h : Lowered s id r s') : s.lower id = (r, s') := by
  unfold lower Pipeline.node
  cases h with
  | unknown hnode => rw [hnode]
  | unwired hnode hwiring =>
    rw [hnode]
    dsimp only
    rw [hwiring]
  | taken hnode hwiring htaken =>
    rw [hnode]
    dsimp only
    rw [hwiring]
    simp only [lowerNode, contains_resolveName, htaken, if_true]
  | @disallowed n w hnode hwiring hfree hallows =>
    have hsame : allows { s with names := (s.resolveName n).2 } n.partitions = false := hallows
    rw [hnode]
    dsimp only
    rw [hwiring]
    simp only [lowerNode, contains_resolveName, hfree, hsame, Bool.false_eq_true, if_false]
  | @recorded n unit inputs hnode hwiring hfree hallows =>
    have hsame : allows { s with names := (s.resolveName n).2 } n.partitions = true := hallows
    rw [hnode]
    dsimp only
    rw [hwiring]
    simp only [lowerNode, contains_resolveName, hfree, hsame, Bool.false_eq_true, if_false,
      if_true, announce_eq]
    rfl

/-- A lowering that succeeds has recorded the node, and the sink has taken its calls. -/
theorem recorded_of_lower {s s' : BuildSession σ} {id : NodeId} {name : String}
    (h : s.lower id = (.ok name, s')) :
    ∃ n unit inputs, s.pipeline.nodes[id]? = some n ∧ s.wiring id n = .ok (unit, inputs) ∧
      s.names.contains (s.resolveName n).1 = false ∧ s.allows n.partitions = true ∧
      (PlanSink.acceptAll s.sink (stageCalls (s.resolveName n).1 n.partitions unit inputs)).1 =
        .ok () ∧
      (s.resolveName n).1 = name ∧ s.recorded id n unit inputs = s' := by
  have hlow := lowered_lower s id
  rw [h] at hlow
  generalize hr : (Except.ok name, s').1 = r at hlow
  cases hlow with
  | unknown => cases hr
  | unwired => cases hr
  | taken => cases hr
  | disallowed => cases hr
  | recorded hnode hwiring hfree hallows =>
    obtain ⟨⟨⟩, hsent, hname⟩ := Except.map_eq_ok_iff.mp hr.symm
    exact ⟨_, _, _, hnode, hwiring, hfree, hallows, hsent, hname, rfl⟩

/-- A lowering that succeeds has given the node its stage. -/
theorem built_of_lower {s : BuildSession σ} {id : NodeId} {name : String}
    (h : (s.lower id).1 = .ok name) : (s.lower id).2.built = s.built.insert id name := by
  have hlower : s.lower id = (.ok name, (s.lower id).2) := Prod.ext h rfl
  obtain ⟨n, unit, inputs, -, -, -, -, -, rfl, hs'⟩ := recorded_of_lower hlower
  rw [← hs']
  rfl

/-- What holds after a lowering.  A node that is refused leaves the session as it was,
but for the search for a name. -/
theorem lower_preserves {P : BuildSession σ → Prop} {s : BuildSession σ} {id : NodeId}
    (hsame : P s) (hsearched : ∀ n, P { s with names := (s.resolveName n).2 })
    (hrecorded : ∀ n unit inputs, s.pipeline.nodes[id]? = some n →
      s.wiring id n = .ok (unit, inputs) → s.names.contains (s.resolveName n).1 = false →
      s.allows n.partitions = true → P (s.recorded id n unit inputs)) :
    P (s.lower id).2 := by
  have hlow := lowered_lower s id
  generalize (s.lower id).1 = r at hlow
  generalize (s.lower id).2 = s' at hlow
  cases hlow with
  | unknown => exact hsame
  | unwired => exact hsame
  | taken => exact hsearched _
  | disallowed => exact hsearched _
  | recorded hnode hwiring hfree hallows => exact hrecorded _ _ _ hnode hwiring hfree hallows

/-- Lowering forgets no stage. -/
theorem contains_built_lower {s : BuildSession σ} {id i : NodeId}
    (h : s.built.contains i = true) : (s.lower id).2.built.contains i = true := by
  refine lower_preserves (P := fun s' => s'.built.contains i = true) h (fun _ => h) ?_
  intro n unit inputs _ _ _ _
  simp only [recorded, Std.TreeMap.contains_insert, h, Bool.or_true]

/-- Lowering gives no other node a stage. -/
theorem getElem?_built_lower_of_ne {s : BuildSession σ} {id i : NodeId} (hne : i ≠ id) :
    (s.lower id).2.built[i]? = s.built[i]? := by
  refine lower_preserves (P := fun s' => s'.built[i]? = s.built[i]?) rfl (fun _ => rfl) ?_
  intro n unit inputs _ _ _ _
  rw [getElem?_built_recorded, if_neg (Ne.symm hne)]

theorem eq_or_contains_built_of_lower {s : BuildSession σ} {id i : NodeId}
    (h : (s.lower id).2.built.contains i = true) : i = id ∨ s.built.contains i = true := by
  by_cases heq : i = id
  · exact Or.inl heq
  · rw [contains_built_iff, getElem?_built_lower_of_ne heq, ← contains_built_iff] at h
    exact Or.inr h

/-- Lowering changes nothing the user described. -/
theorem described_lower (s : BuildSession σ) (id : NodeId) :
    (s.lower id).2.pipeline.described = s.pipeline.described := by
  refine lower_preserves (P := fun s' => s'.pipeline.described = s.pipeline.described) rfl
    (fun _ => rfl) ?_
  intro n unit inputs _ _ _ _
  exact Pipeline.described_assignName ..

/-- Lowering keeps the settings. -/
theorem config_lower (s : BuildSession σ) (id : NodeId) : (s.lower id).2.config = s.config :=
  lower_preserves (P := fun s' => s'.config = s.config) rfl (fun _ => rfl)
    (fun _ _ _ _ _ _ _ => rfl)

/-! ### Steps -/

theorem step_of_built {s : BuildSession σ} {f : Frame} (h : s.built.contains f.node = true) :
    s.step f = (.ok [], s) := by
  unfold step
  rw [if_pos h]

theorem step_visit {s : BuildSession σ} {id : NodeId} (h : s.built.contains id = false) :
    s.step (.visit id) = (s.expand id, s) := by
  have hnot : ¬ s.built.contains (Frame.visit id).node = true := by
    rw [Bool.not_eq_true]
    exact h
  rw [step, if_neg hnot]

theorem step_finish {s : BuildSession σ} {id : NodeId} (h : s.built.contains id = false) :
    s.step (.finish id) = ((s.lower id).1.map fun _ => [], (s.lower id).2) := by
  have hnot : ¬ s.built.contains (Frame.finish id).node = true := by
    rw [Bool.not_eq_true]
    exact h
  rw [step, if_neg hnot]
  rcases s.lower id with ⟨_ | _, _⟩ <;> rfl

/-! ### Runs -/

section Preserves

variable {P : BuildSession σ → Prop} {Q : NodeId → Prop}

/-- One step of the walk: `P` stays if lowering keeps it, and the entries stay
among the nodes with `Q` if parents of such nodes are among them. -/
theorem step_preserves
    (hlower : ∀ s id, P s → Q id → s.built.contains id = false → P (s.lower id).2)
    (hparent : ∀ s id p, P s → Q id → s.pipeline.HasParent id p → Q p)
    {s : BuildSession σ} {f : Frame} (hs : P s) (hf : Q f.node) :
    P (s.step f).2 ∧ ∀ pushed, (s.step f).1 = .ok pushed → ∀ f' ∈ pushed, Q f'.node := by
  cases hbuilt : s.built.contains f.node with
  | true =>
    rw [step_of_built hbuilt]
    refine ⟨hs, ?_⟩
    rintro pushed ⟨⟩ f' hf'
    cases hf'
  | false =>
    cases f with
    | visit id =>
      rw [step_visit (show s.built.contains id = false from hbuilt)]
      refine ⟨hs, fun pushed hpushed f' hf' => ?_⟩
      rcases node_of_mem_expand hpushed hf' with heq | hp
      · rw [heq]; exact hf
      · exact hparent s id f'.node hs hf hp
    | finish id =>
      rw [step_finish (show s.built.contains id = false from hbuilt)]
      refine ⟨hlower s id hs hf hbuilt, fun pushed hpushed f' hf' => ?_⟩
      obtain ⟨_, -, rfl⟩ := Except.map_eq_ok_iff.mp hpushed
      cases hf'

/-- What lowerings keep, the walk keeps. -/
theorem walk_preserves
    (hlower : ∀ s id, P s → Q id → s.built.contains id = false → P (s.lower id).2)
    (hparent : ∀ s id p, P s → Q id → s.pipeline.HasParent id p → Q p)
    (steps : Nat) {frames : List Frame} {s : BuildSession σ} (hs : P s)
    (hframes : ∀ f ∈ frames, Q f.node) : P (walk steps frames s).2 := by
  induction steps generalizing frames s with
  | zero => exact hs
  | succ steps ih =>
    cases frames with
    | nil => exact hs
    | cons f frames =>
      obtain ⟨hP, hQ⟩ := step_preserves hlower hparent hs (hframes f List.mem_cons_self)
      rw [walk]
      cases hstep : s.step f with
      | mk r s' =>
        rw [hstep] at hP hQ
        cases r with
        | error e => exact hP
        | ok pushed =>
          -- entries of this step are covered by `hQ`, and the others were there before
          refine ih hP fun f' hf' => ?_
          rcases List.mem_append.mp hf' with hnew | hold
          · exact hQ pushed rfl f' hnew
          · exact hframes f' (List.mem_cons_of_mem f hold)

/-- What lowerings keep, a build keeps. -/
theorem build_preserves
    (hlower : ∀ s id, P s → Q id → s.built.contains id = false → P (s.lower id).2)
    (hparent : ∀ s id p, P s → Q id → s.pipeline.HasParent id p → Q p)
    {s : BuildSession σ} {terminal : NodeId} (hs : P s) (hQ : Q terminal) :
    P (s.build terminal).2 := by
  have hwalk : P (walk (3 * s.pipeline.size + 1) [.visit terminal] s).2 := by
    refine walk_preserves hlower hparent _ hs fun f hf => ?_
    rw [List.mem_singleton.mp hf]
    exact hQ
  unfold build visit
  split
  · exact hs
  · split
    · next heq => rw [heq] at hwalk; exact hwalk
    · next heq => rw [heq] at hwalk; exact hwalk

/-- What lowerings keep, builds of several end nodes keep. -/
theorem buildAll_preserves
    (hlower : ∀ s id, P s → Q id → s.built.contains id = false → P (s.lower id).2)
    (hparent : ∀ s id p, P s → Q id → s.pipeline.HasParent id p → Q p)
    {s : BuildSession σ} {terminals : List NodeId} (hs : P s) (hQ : ∀ t ∈ terminals, Q t) :
    P (s.buildAll terminals).2 := by
  induction terminals generalizing s with
  | nil => exact hs
  | cons t ts ih =>
    have hbuild := build_preserves hlower hparent hs (hQ t List.mem_cons_self)
    rw [buildAll]
    split
    · next heq =>
      rw [heq] at hbuild
      exact ih hbuild fun t' ht' => hQ t' (List.mem_cons_of_mem t ht')
    · next heq =>
      rw [heq] at hbuild
      exact hbuild

/-- What lowerings of any new nodes keep, a build keeps. -/
theorem build_invariant
    (hlower : ∀ s id, P s → s.built.contains id = false → P (s.lower id).2)
    {s : BuildSession σ} (hs : P s) (terminal : NodeId) : P (s.build terminal).2 :=
  build_preserves (Q := fun _ => True) (fun s id hs _ hnew => hlower s id hs hnew)
    (fun _ _ _ _ _ _ => trivial) hs trivial

/-- What lowerings of any new nodes keep, builds of several end nodes keep. -/
theorem buildAll_invariant
    (hlower : ∀ s id, P s → s.built.contains id = false → P (s.lower id).2)
    {s : BuildSession σ} (hs : P s) (terminals : List NodeId) : P (s.buildAll terminals).2 :=
  buildAll_preserves (Q := fun _ => True) (fun s id hs _ hnew => hlower s id hs hnew)
    (fun _ _ _ _ _ _ => trivial) hs (fun _ _ => trivial)

end Preserves

/-! ### What builds leave behind -/

theorem config_buildAll (s : BuildSession σ) (terminals : List NodeId) :
    (s.buildAll terminals).2.config = s.config := by
  refine buildAll_invariant (P := fun s' => s'.config = s.config) ?_ rfl terminals
  intro s' id hs' _
  rw [config_lower, hs']

/-- Builds forget no stage. -/
theorem contains_built_buildAll {s : BuildSession σ} {i : NodeId}
    (h : s.built.contains i = true) (terminals : List NodeId) :
    (s.buildAll terminals).2.built.contains i = true :=
  buildAll_invariant (P := fun s' => s'.built.contains i = true)
    (fun _ _ hs' _ => contains_built_lower hs') h terminals

/-- A build that succeeds has given its end node a stage. -/
theorem built_of_build {s : BuildSession σ} {terminal : NodeId} {name : String}
    (h : (s.build terminal).1 = .ok name) : (s.build terminal).2.built[terminal]? = some name := by
  unfold build visit at h ⊢
  split at h
  · cases h
  · split at h
    · exact stageOf_eq_ok_iff.mp h
    · cases h

/-- Builds that succeed have given all their end nodes stages. -/
theorem contains_built_of_buildAll {s : BuildSession σ} {terminals : List NodeId}
    (h : (s.buildAll terminals).1 = .ok ()) {t : NodeId} (ht : t ∈ terminals) :
    (s.buildAll terminals).2.built.contains t = true := by
  induction terminals generalizing s with
  | nil => cases ht
  | cons t' ts ih =>
    rw [buildAll] at h ⊢
    split at h
    · next name s' heq =>
      rcases List.mem_cons.mp ht with rfl | ht
      · -- the first end node gets its stage now and keeps it in the later builds
        have hbuilt : (s.build t).1 = .ok name := by rw [heq]
        have hstage := built_of_build hbuilt
        rw [heq] at hstage
        exact contains_built_buildAll (contains_built_iff.mpr ⟨name, hstage⟩) ts
      · exact ih h ht
    · cases h

/-- Builds only give stages to nodes upstream of their end nodes. -/
theorem upstreamOfAny_of_buildAll {g : Pipeline} {s : BuildSession σ}
    (hdescribed : s.pipeline.described = g.described) {terminals : List NodeId}
    (hs : ∀ i, s.built.contains i = true → g.UpstreamOfAny terminals i) {i : NodeId}
    (hi : (s.buildAll terminals).2.built.contains i = true) : g.UpstreamOfAny terminals i := by
  have hall : (s.buildAll terminals).2.pipeline.described = g.described ∧
      ∀ i, (s.buildAll terminals).2.built.contains i = true → g.UpstreamOfAny terminals i := by
    refine buildAll_preserves
      (P := fun s' => s'.pipeline.described = g.described ∧
        ∀ i, s'.built.contains i = true → g.UpstreamOfAny terminals i)
      (Q := g.UpstreamOfAny terminals) ?_ ?_ ⟨hdescribed, hs⟩ ?_
    · rintro s' id ⟨hd, hs'⟩ hid _
      refine ⟨by rw [described_lower, hd], fun i hi => ?_⟩
      rcases eq_or_contains_built_of_lower hi with rfl | hi
      · exact hid
      · exact hs' i hi
    · rintro s' id p ⟨hd, -⟩ hid hp
      exact hid.parent (Pipeline.hasParent_of_described hd hp)
    · intro t ht
      exact ⟨t, ht, .refl⟩
  exact hall.2 i hi

end BuildSession

end StreamPlan
