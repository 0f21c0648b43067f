import StreamPlan.Proofs.Plan.RecursiveWalk

/-!
# The walk ends and does the work of each node once

The stack of the walk grows when a node is expanded and may hold many entries for one
shared parent, so neither its length nor the number of its entries for a node says when
the walk ends.  What does is the order of the stack: all entries above a node that waits
to be finished are for nodes upstream of it, which have smaller positions.  So a node that
comes up for a visit does not wait further down, and a node that has been expanded is not
expanded again while it waits, nor afterwards, when it is a stage.

An expansion adds at most two entries to the stack and takes one node off those that may
still be expanded.  Three times the number of these nodes and the number of entries
together go down in every step.

## Main definitions

* `BuildSession.Runs` — the loop of the walk, without a bound on its steps, and the entries
  that it takes from the stack.
* `BuildSession.Pop.expanded?`, `BuildSession.Pop.lowered?` — what is done with an entry.
* `BuildSession.Stepped` — what a step can do.
* `BuildSession.Stacked` — the order of the stack.
* `BuildSession.price` — a bound on the steps that are left.

## Main results

* `BuildSession.OnWalk.step` — **a step keeps the order of the stack.**
* `BuildSession.OnWalk.price_lt` — **a step makes the rest of the walk cheaper.**
* `BuildSession.visit_once` — **the walk ends, with each node expanded and lowered at most
  once, after its parents.**
-/

namespace StreamPlan
namespace BuildSession

variable {σ : Type}

/-! ### Entries -/

/-- An entry as it is taken from the stack. -/
structure Pop (σ : Type) where
  /-- Which node comes up, and whether before or after its parents. -/
  frame : Frame
  /-- What has been built by then, which decides whether there is work to do. -/
  session : BuildSession σ

/-- The node that is expanded: it comes up for a visit and is not a stage. -/
def Pop.expanded? (pop : Pop σ) : Option NodeId :=
  match pop.frame with
  | .visit id => if pop.session.built.contains id then none else some id
  | .finish _ => none

/-- The node that is lowered: it comes up to be finished and is not a stage. -/
def Pop.lowered? (pop : Pop σ) : Option NodeId :=
  match pop.frame with
  | .visit _ => none
  | .finish id => if pop.session.built.contains id then none else some id

theorem Pop.expanded?_eq_some_iff {f : Frame} {s : BuildSession σ} {id : NodeId} :
    Pop.expanded? ⟨f, s⟩ = some id ↔ f = .visit id ∧ s.built.contains id = false := by
  cases f with
  | visit i =>
    simp only [Pop.expanded?, Option.ite_none_left_eq_some, Option.some.injEq,
      Frame.visit.injEq, Bool.not_eq_true]
    constructor
    · rintro ⟨hnew, rfl⟩
      exact ⟨rfl, hnew⟩
    · rintro ⟨rfl, hnew⟩
      exact ⟨hnew, rfl⟩
  | finish i => simp [Pop.expanded?]

theorem Pop.lowered?_eq_some_iff {f : Frame} {s : BuildSession σ} {id : NodeId} :
    Pop.lowered? ⟨f, s⟩ = some id ↔ f = .finish id ∧ s.built.contains id = false := by
  cases f with
  | visit i => simp [Pop.lowered?]
  | finish i =>
    simp only [Pop.lowered?, Option.ite_none_left_eq_some, Option.some.injEq,
      Frame.finish.injEq, Bool.not_eq_true]
    constructor
    · rintro ⟨hnew, rfl⟩
      exact ⟨rfl, hnew⟩
    · rintro ⟨rfl, hnew⟩
      exact ⟨hnew, rfl⟩

/-! ### The order of the stack -/

/-- The nodes that wait on the stack to be finished. -/
def waiting (frames : List Frame) : List NodeId :=
  frames.filterMap fun f => match f with
    | .visit _ => none
    | .finish id => some id

@[simp] theorem waiting_visit (id : NodeId) (frames : List Frame) :
    waiting (.visit id :: frames) = waiting frames := rfl

@[simp] theorem waiting_finish (id : NodeId) (frames : List Frame) :
    waiting (.finish id :: frames) = id :: waiting frames := rfl

@[simp] theorem waiting_visits_append (ids : List NodeId) (frames : List Frame) :
    waiting (ids.map .visit ++ frames) = waiting frames := by
  induction ids with
  | nil => rfl
  | cons id ids ih => exact ih

/-- The order of a stack below entries for the nodes `above`.  Below a node that waits to be
finished nothing matters to it; above it are smaller positions only, and among them those
of its parents that are not stages. -/
def Stacked (s : BuildSession σ) : List NodeId → List Frame → Prop
  | _, [] => True
  | above, .visit id :: frames => Stacked s (id :: above) frames
  | above, .finish id :: frames =>
    (∀ i ∈ above, i < id) ∧
      (∀ p, s.pipeline.HasParent id p → s.built.contains p = true ∨ p ∈ above) ∧
      Stacked s (id :: above) frames

/-- The order does not depend on nodes above that have become stages, and nodes may be
added above others. -/
theorem Stacked.mono {s s' : BuildSession σ} {above above' : List NodeId} {frames : List Frame}
    (h : s.Stacked above frames) (hdescribed : s'.pipeline.described = s.pipeline.described)
    (hbuilt : ∀ i, s.built.contains i = true → s'.built.contains i = true)
    (hle : ∀ i ∈ above', ∃ j ∈ above, i ≤ j)
    (hcover : ∀ p ∈ above, s'.built.contains p = true ∨ p ∈ above') :
    s'.Stacked above' frames := by
  induction frames generalizing above above' with
  | nil => trivial
  | cons f frames ih =>
    -- the node of the entry is above the rest in both stacks
    have hle' : ∀ i ∈ f.node :: above', ∃ j ∈ f.node :: above, i ≤ j := by
      intro i hi
      rcases List.mem_cons.mp hi with rfl | hi
      · exact ⟨_, List.mem_cons_self, Nat.le_refl _⟩
      · obtain ⟨j, hj, hij⟩ := hle i hi
        exact ⟨j, List.mem_cons_of_mem _ hj, hij⟩
    have hcover' : ∀ p ∈ f.node :: above, s'.built.contains p = true ∨ p ∈ f.node :: above' := by
      intro p hp
      rcases List.mem_cons.mp hp with rfl | hp
      · exact .inr List.mem_cons_self
      · exact (hcover p hp).imp_right (List.mem_cons_of_mem _)
    cases f with
    | visit id => exact ih h hle' hcover'
    | finish id =>
      obtain ⟨hlt, hparents, hrest⟩ := h
      refine ⟨fun i hi => ?_, fun p hp => ?_, ih hrest hle' hcover'⟩
      · obtain ⟨j, hj, hij⟩ := hle i hi
        exact Nat.lt_of_le_of_lt hij (hlt j hj)
      · rcases hparents p (Pipeline.hasParent_of_described hdescribed hp) with hp | hp
        · exact .inl (hbuilt p hp)
        · exact hcover p hp

/-- Entries for visits may stand above an ordered stack. -/
theorem stacked_visits_append (s : BuildSession σ) {ids above : List NodeId}
    {frames : List Frame} (h : s.Stacked (ids.reverse ++ above) frames) :
    s.Stacked above (ids.map .visit ++ frames) := by
  induction ids generalizing above with
  | nil => exact h
  | cons id ids ih =>
    rw [List.reverse_cons, List.append_assoc] at h
    exact ih h

/-- Nodes above one that waits have smaller positions. -/
theorem Stacked.lt_of_waiting {s : BuildSession σ} {above : List NodeId} {frames : List Frame}
    (h : s.Stacked above frames) {i id : NodeId} (hi : i ∈ above) (hid : id ∈ waiting frames) :
    i < id := by
  induction frames generalizing above with
  | nil => cases hid
  | cons f frames ih =>
    cases f with
    | visit j => exact ih h (List.mem_cons_of_mem j hi) hid
    | finish j =>
      obtain ⟨hlt, -, hrest⟩ := h
      rcases List.mem_cons.mp hid with rfl | hid
      · exact hlt i hi
      · exact ih hrest (List.mem_cons_of_mem j hi) hid

/-- The stack of a walk over a well-formed pipeline. -/
structure OnWalk (s : BuildSession σ) (frames : List Frame) : Prop where
  wellFormed : s.pipeline.WellFormed
  stacked : s.Stacked [] frames

theorem onWalk_root {s : BuildSession σ} (hwf : s.pipeline.WellFormed) (root : NodeId) :
    s.OnWalk [.visit root] := ⟨hwf, trivial⟩

theorem Stacked.tail {s : BuildSession σ} {above : List NodeId} {f : Frame} {frames : List Frame}
    (h : s.Stacked above (f :: frames)) : s.Stacked (f.node :: above) frames := by
  cases f with
  | visit id => exact h
  | finish id => exact h.2.2

/-- A node that is a stage can be taken off the stack. -/
theorem Stacked.pop {s s' : BuildSession σ} {f : Frame} {frames : List Frame}
    (h : s.Stacked [] (f :: frames)) (hdescribed : s'.pipeline.described = s.pipeline.described)
    (hbuilt : ∀ i, s.built.contains i = true → s'.built.contains i = true)
    (hf : s'.built.contains f.node = true) : s'.Stacked [] frames := by
  refine h.tail.mono hdescribed hbuilt (by simp) fun p hp => .inl ?_
  rw [List.mem_singleton.mp hp]
  exact hf

/-- A node can be put back under its parents. -/
theorem Stacked.expand {s : BuildSession σ} (hwf : s.pipeline.WellFormed) {id : NodeId}
    {frames : List Frame} (h : s.Stacked [] (.visit id :: frames)) {n : Node}
    (hnode : s.pipeline.nodes[id]? = some n) :
    s.Stacked [] (((n.parents.filter fun p => !s.built.contains p).map Frame.visit ++
      [.finish id]) ++ frames) := by
  have hlt : ∀ p ∈ n.parents.filter (fun p => !s.built.contains p), p < id := fun p hp =>
    (hwf.node id n hnode).parents_lt p (List.mem_filter.mp hp).1
  rw [List.append_assoc]
  apply stacked_visits_append
  rw [List.append_nil]
  refine ⟨fun p hp => hlt p (List.mem_reverse.mp hp), ?_, ?_⟩
  · rintro p ⟨n', hn', hp⟩
    cases hnode.symm.trans hn'
    rw [List.mem_reverse, List.mem_filter]
    cases hbuilt : s.built.contains p with
    | true => exact .inl rfl
    | false => exact .inr ⟨hp, rfl⟩
  · -- below, the parents hide behind the node, which was there before
    refine h.tail.mono rfl (fun _ hi => hi) ?_ ?_
    · intro i hi
      refine ⟨id, List.mem_cons_self, ?_⟩
      rcases List.mem_cons.mp hi with rfl | hi
      · exact Nat.le_refl _
      · exact Nat.le_of_lt (hlt i (List.mem_reverse.mp hi))
    · intro p hp
      rw [List.mem_singleton.mp hp]
      exact .inr List.mem_cons_self

/-- The node may still be expanded: it is not a stage, and it does not wait. -/
def MayExpand (s : BuildSession σ) (frames : List Frame) (i : NodeId) : Prop :=
  s.built.contains i = false ∧ i ∉ waiting frames

instance (s : BuildSession σ) (frames : List Frame) : DecidablePred (s.MayExpand frames) :=
  fun _ => inferInstanceAs (Decidable (_ ∧ _))

/-- A node that comes up for a visit does not wait further down. -/
theorem OnWalk.mayExpand {s : BuildSession σ} {id : NodeId} {frames : List Frame}
    (h : s.OnWalk (.visit id :: frames)) (hnew : s.built.contains id = false) :
    s.MayExpand (.visit id :: frames) id := by
  refine ⟨hnew, fun hwaits => ?_⟩
  have hlt := h.stacked.tail.lt_of_waiting List.mem_cons_self hwaits
  exact Nat.lt_irrefl id hlt

/-- A bound on the steps that are left: one for each entry, and three for each node that
may still be expanded. -/
def price (s : BuildSession σ) (frames : List Frame) : Nat :=
  frames.length + 3 * ((Finset.range s.pipeline.size).filter (s.MayExpand frames)).card

/-! ### The loop -/

section

variable [PlanSink σ]

/-- The loop of the walk, with no bound on its steps.  It starts with a stack and a session,
takes the entries `pops` from the stack one after another, and ends with `out`: when no
entry is left, or when one fails. -/
inductive Runs : List Frame → BuildSession σ → List (Pop σ) →
    Except PlanError Unit × BuildSession σ → Prop
  /-- No entry is left. -/
  | done (s : BuildSession σ) : Runs [] s [] (.ok (), s)
  /-- An entry fails. -/
  | fail {f : Frame} {frames : List Frame} {s s' : BuildSession σ} {e : PlanError}
    (hstep : s.step f = (.error e, s')) : Runs (f :: frames) s [⟨f, s⟩] (.error e, s')
  /-- An entry is treated, and the loop goes on. -/
  | next {f : Frame} {frames pushed : List Frame} {s s' : BuildSession σ} {pops : List (Pop σ)}
    {out : Except PlanError Unit × BuildSession σ} (hstep : s.step f = (.ok pushed, s'))
    (hrest : Runs (pushed ++ frames) s' pops out) : Runs (f :: frames) s (⟨f, s⟩ :: pops) out

/-- A walk that has steps enough is the loop. -/
theorem Runs.walk_eq {frames : List Frame} {s : BuildSession σ} {pops : List (Pop σ)}
    {out : Except PlanError Unit × BuildSession σ} (h : Runs frames s pops out) {steps : Nat}
    (hsteps : pops.length ≤ steps) : walk steps frames s = out := by
  induction h generalizing steps with
  | done s => exact walk_nil steps s
  | fail hstep =>
    obtain ⟨steps, rfl⟩ := Nat.exists_eq_add_one_of_ne_zero (Nat.ne_zero_of_lt hsteps)
    rw [walk, hstep]
  | next hstep _ ih =>
    obtain ⟨steps, rfl⟩ := Nat.exists_eq_add_one_of_ne_zero (Nat.ne_zero_of_lt hsteps)
    rw [walk, hstep]
    exact ih (Nat.le_of_succ_le_succ hsteps)

theorem Runs.visit_eq {s : BuildSession σ} {root : NodeId} {pops : List (Pop σ)}
    {out : Except PlanError Unit × BuildSession σ} (h : Runs [.visit root] s pops out)
    (hsteps : pops.length ≤ 3 * s.pipeline.size + 1) :
    s.visit root = (out.1 >>= fun _ => out.2.stageOf root root, out.2) := by
  rw [visit, h.walk_eq hsteps]
  rcases out with ⟨_ | _, s'⟩ <;> rfl

/-! ### Steps -/

/-- What a step can do with an entry. -/
inductive Stepped (s : BuildSession σ) :
    Frame → Except PlanError (List Frame) → BuildSession σ → Prop
  /-- The node is a stage. -/
  | skipped {f : Frame} (hbuilt : s.built.contains f.node = true) : Stepped s f (.ok []) s
  /-- There is no such node. -/
  | unknown {id : NodeId} (hnew : s.built.contains id = false) :
    Stepped s (.visit id) (.error (.unknownNode id)) s
  /-- The node is put back under those of its parents that are not stages. -/
  | expanded {id : NodeId} {n : Node} (hnew : s.built.contains id = false)
    (hnode : s.pipeline.nodes[id]? = some n) :
    Stepped s (.visit id)
      (.ok ((n.parents.filter fun p => !s.built.contains p).map Frame.visit ++ [.finish id])) s
  /-- The node becomes a stage. -/
  | lowered {id : NodeId} {name : String} {s' : BuildSession σ}
    (hnew : s.built.contains id = false) (hlower : s.lower id = (.ok name, s')) :
    Stepped s (.finish id) (.ok []) s'
  /-- The node cannot become a stage. -/
  | refused {id : NodeId} {e : PlanError} {s' : BuildSession σ}
    (hnew : s.built.contains id = false) (hlower : s.lower id = (.error e, s')) :
    Stepped s (.finish id) (.error e) s'

/-- **Every step over a well-formed pipeline does one of these.** -/
theorem stepped_of_step {s s' : BuildSession σ} (hwf : s.pipeline.WellFormed) {f : Frame}
    {r : Except PlanError (List Frame)} (h : s.step f = (r, s')) : Stepped s f r s' := by
  cases hbuilt : s.built.contains f.node with
  | true =>
    rw [step_of_built hbuilt] at h
    cases h
    exact .skipped hbuilt
  | false =>
    cases f with
    | visit id =>
      have hnew : s.built.contains id = false := hbuilt
      rw [step_visit hnew] at h
      cases hnode : s.pipeline.nodes[id]? with
      | none =>
        have hexpand : s.expand id = .error (.unknownNode id) := by
          rw [expand, Pipeline.node, hnode]
        rw [hexpand] at h
        cases h
        exact .unknown hnew
      | some n =>
        rw [expand_eq hwf hnode] at h
        cases h
        exact .expanded hnew hnode
    | finish id =>
      have hnew : s.built.contains id = false := hbuilt
      rw [step_finish hnew] at h
      rcases hlower : s.lower id with ⟨e | name, s''⟩
      · rw [hlower] at h
        cases h
        exact .refused hnew hlower
      · rw [hlower] at h
        cases h
        exact .lowered hnew hlower

/-- A step changes nothing the user described. -/
theorem described_step {s s' : BuildSession σ} {f : Frame} {r : Except PlanError (List Frame)}
    (h : s.step f = (r, s')) : s'.pipeline.described = s.pipeline.described := by
  have hkeep := step_preserves (P := fun t => t.pipeline.described = s.pipeline.described)
    (Q := fun _ => True) (fun t id ht _ _ => (described_lower t id).trans ht)
    (fun _ _ _ _ _ _ => trivial) (f := f) rfl trivial
  rw [h] at hkeep
  exact hkeep.1

/-- A step forgets no stage. -/
theorem contains_built_step {s s' : BuildSession σ} {f : Frame}
    {r : Except PlanError (List Frame)} (h : s.step f = (r, s')) {i : NodeId}
    (hi : s.built.contains i = true) : s'.built.contains i = true := by
  have hkeep := step_preserves (P := fun t => t.built.contains i = true) (Q := fun _ => True)
    (fun t id ht _ _ => contains_built_lower ht) (fun _ _ _ _ _ _ => trivial) (f := f) hi trivial
  rw [h] at hkeep
  exact hkeep.1

theorem contains_built_of_lower {s s' : BuildSession σ} {id : NodeId} {name : String}
    (h : s.lower id = (.ok name, s')) : s'.built.contains id = true := by
  have hname : (s.lower id).1 = .ok name := by rw [h]
  have hbuilt := built_of_lower hname
  rw [h] at hbuilt
  rw [hbuilt]
  exact Std.TreeMap.contains_insert_self

/-- **A step keeps the order of the stack.** -/
theorem OnWalk.step {s s' : BuildSession σ} {f : Frame} {frames pushed : List Frame}
    (h : s.OnWalk (f :: frames)) (hstep : s.step f = (.ok pushed, s')) :
    s'.OnWalk (pushed ++ frames) := by
  have hdescribed := described_step hstep
  refine ⟨h.wellFormed.of_described hdescribed, ?_⟩
  have hstay : ∀ i, s.built.contains i = true → s'.built.contains i = true := fun i hi =>
    contains_built_step hstep hi
  cases stepped_of_step h.wellFormed hstep with
  | skipped hbuilt => exact h.stacked.pop hdescribed hstay hbuilt
  | expanded hnew hnode => exact h.stacked.expand h.wellFormed hnode
  | lowered hnew hlower => exact h.stacked.pop hdescribed hstay (contains_built_of_lower hlower)

/-! ### Nodes that may be expanded -/

/-- No node that may be expanded is gained in a step. -/
theorem OnWalk.mayExpand_of_step {s s' : BuildSession σ} {f : Frame}
    {frames pushed : List Frame} (h : s.OnWalk (f :: frames))
    (hstep : s.step f = (.ok pushed, s')) {i : NodeId} (hi : s'.MayExpand (pushed ++ frames) i) :
    s.MayExpand (f :: frames) i := by
  obtain ⟨hnew', hwaits⟩ := hi
  have hnew : s.built.contains i = false := by
    rw [Bool.eq_false_iff]
    intro hbuilt
    rw [contains_built_step hstep hbuilt] at hnew'
    cases hnew'
  refine ⟨hnew, ?_⟩
  cases stepped_of_step h.wellFormed hstep with
  | skipped hbuilt =>
    cases f with
    | visit id => exact hwaits
    | finish id =>
      rw [waiting_finish, List.mem_cons]
      rintro (rfl | hi)
      · rw [show s.built.contains i = true from hbuilt] at hnew
        cases hnew
      · exact hwaits hi
  | expanded =>
    rw [List.append_assoc, waiting_visits_append] at hwaits
    exact fun hi => hwaits (List.mem_cons_of_mem _ hi)
  | lowered hnew'' hlower =>
    rw [waiting_finish, List.mem_cons]
    rintro (rfl | hi)
    · rw [contains_built_of_lower hlower] at hnew'
      cases hnew'
    · exact hwaits hi

/-- A node that has been finished is a stage. -/
theorem OnWalk.contains_built_finish {s s' : BuildSession σ} {id : NodeId}
    {frames pushed : List Frame} (h : s.OnWalk (.finish id :: frames))
    (hstep : s.step (.finish id) = (.ok pushed, s')) : s'.built.contains id = true := by
  cases stepped_of_step h.wellFormed hstep with
  | skipped hbuilt => exact hbuilt
  | lowered _ hlower => exact contains_built_of_lower hlower

/-- A node that has been expanded waits. -/
theorem OnWalk.not_mayExpand {s s' : BuildSession σ} {id : NodeId} {frames pushed : List Frame}
    (h : s.OnWalk (.visit id :: frames)) (hnew : s.built.contains id = false)
    (hstep : s.step (.visit id) = (.ok pushed, s')) : ¬ s'.MayExpand (pushed ++ frames) id := by
  rintro ⟨-, hwaits⟩
  cases stepped_of_step h.wellFormed hstep with
  | skipped hbuilt =>
    rw [show s.built.contains id = true from hbuilt] at hnew
    cases hnew
  | expanded =>
    rw [List.append_assoc, waiting_visits_append] at hwaits
    exact hwaits List.mem_cons_self

/-- **A step makes the rest of the walk cheaper.**  An expansion puts at most three entries
in the place of one, and takes its node off those that may be expanded. -/
theorem OnWalk.price_lt {s s' : BuildSession σ} {f : Frame} {frames pushed : List Frame}
    (h : s.OnWalk (f :: frames)) (hstep : s.step f = (.ok pushed, s')) :
    s'.price (pushed ++ frames) < s.price (f :: frames) := by
  have hsize : s'.pipeline.size = s.pipeline.size :=
    Pipeline.size_eq_of_described (described_step hstep)
  have hsub : (Finset.range s.pipeline.size).filter (s'.MayExpand (pushed ++ frames)) ⊆
      (Finset.range s.pipeline.size).filter (s.MayExpand (f :: frames)) :=
    Finset.monotone_filter_right _ fun i _ hi => h.mayExpand_of_step hstep hi
  have hcard := Finset.card_le_card hsub
  unfold price
  rw [hsize, List.length_append, List.length_cons]
  cases stepped_of_step h.wellFormed hstep with
  | skipped => simp only [List.length_nil]; omega
  | lowered => simp only [List.length_nil]; omega
  | @expanded id n hnew hnode =>
    have hlt := Finset.card_lt_card (Finset.ssubset_iff_subset_ne.mpr ⟨hsub, ?_⟩)
    · have hlength := List.length_filter_le (fun p => !s.built.contains p) n.parents
      have hparents := length_parents_le n
      simp only [List.length_append, List.length_map, List.length_singleton]
      omega
    · -- the node itself is in one set and not in the other
      intro heq
      have hbound : id < s.pipeline.size := (Array.getElem?_eq_some_iff.mp hnode).1
      have hmem : id ∈ (Finset.range s.pipeline.size).filter (s.MayExpand (.visit id :: frames)) :=
        Finset.mem_filter.mpr ⟨Finset.mem_range.mpr hbound, h.mayExpand hnew⟩
      rw [← heq] at hmem
      exact h.not_mayExpand hnew hstep (Finset.mem_filter.mp hmem).2

/-! ### Runs -/

/-- **The loop ends.** -/
theorem OnWalk.exists_runs {s : BuildSession σ} {frames : List Frame} (h : s.OnWalk frames) :
    ∃ pops out, Runs frames s pops out := by
  induction hprice : s.price frames using Nat.strong_induction_on generalizing s frames with
  | _ price ih =>
    subst hprice
    cases frames with
    | nil => exact ⟨[], _, .done s⟩
    | cons f frames =>
      rcases hstep : s.step f with ⟨e | pushed, s'⟩
      · exact ⟨_, _, .fail hstep⟩
      · obtain ⟨pops, out, hrest⟩ := ih _ (h.price_lt hstep) (h.step hstep) rfl
        exact ⟨_, out, .next hstep hrest⟩

namespace Runs

variable {frames : List Frame} {s : BuildSession σ} {pops : List (Pop σ)}
  {out : Except PlanError Unit × BuildSession σ}

theorem length_le (h : Runs frames s pops out) (hs : s.OnWalk frames) :
    pops.length ≤ s.price frames := by
  induction h with
  | done s => exact Nat.zero_le _
  | fail hstep =>
    rw [price, List.length_singleton, List.length_cons]
    omega
  | next hstep _ ih =>
    have hrest := ih (hs.step hstep)
    have hlt := hs.price_lt hstep
    rw [List.length_cons]
    omega

/-- What can be done with a node only while it is admissible, and makes it inadmissible for
good, is done at most once.  The induction is on the run: what is done in the rest of it is
done with nodes that are admissible after the first step. -/
theorem nodup_filterMap {pick : Pop σ → Option NodeId}
    (Admissible : BuildSession σ → List Frame → NodeId → Prop)
    (hpick : ∀ {f frames s id}, OnWalk s (f :: frames) → pick ⟨f, s⟩ = some id →
      Admissible s (f :: frames) id)
    (hkeep : ∀ {f frames pushed s s' i}, OnWalk s (f :: frames) →
      s.step f = (.ok pushed, s') → Admissible s' (pushed ++ frames) i →
      Admissible s (f :: frames) i)
    (hspent : ∀ {f frames pushed s s' id}, OnWalk s (f :: frames) →
      s.step f = (.ok pushed, s') → pick ⟨f, s⟩ = some id →
      ¬ Admissible s' (pushed ++ frames) id)
    (h : Runs frames s pops out) (hs : s.OnWalk frames) :
    (pops.filterMap pick).Nodup ∧ ∀ i ∈ pops.filterMap pick, Admissible s frames i := by
  induction h with
  | done s => exact ⟨List.nodup_nil, by simp⟩
  | @fail f frames s s' e hstep =>
    cases hid : pick ⟨f, s⟩ with
    | none => simp [hid]
    | some id => simpa [hid] using hpick hs hid
  | @next f frames pushed s s' pops out hstep _ ih =>
    obtain ⟨hnodup, hrest⟩ := ih (hs.step hstep)
    cases hid : pick ⟨f, s⟩ with
    | none =>
      rw [List.filterMap_cons_none hid]
      exact ⟨hnodup, fun i hi => hkeep hs hstep (hrest i hi)⟩
    | some id =>
      rw [List.filterMap_cons_some hid]
      refine ⟨List.nodup_cons.mpr ⟨fun hmem => ?_, hnodup⟩, fun i hi => ?_⟩
      · exact hspent hs hstep hid (hrest id hmem)
      · rcases List.mem_cons.mp hi with rfl | hi
        · exact hpick hs hid
        · exact hkeep hs hstep (hrest i hi)

/-- **No node is expanded twice.**  From its expansion on, a node waits or is a stage. -/
theorem expanded_nodup (h : Runs frames s pops out) (hs : s.OnWalk frames) :
    (pops.filterMap Pop.expanded?).Nodup := by
  refine (nodup_filterMap (fun s frames i => s.MayExpand frames i) ?_
    (fun hs hstep hi => hs.mayExpand_of_step hstep hi) ?_ h hs).1
  · intro f frames s id hs hid
    obtain ⟨rfl, hnew⟩ := Pop.expanded?_eq_some_iff.mp hid
    exact hs.mayExpand hnew
  · intro f frames pushed s s' id hs hstep hid
    obtain ⟨rfl, hnew⟩ := Pop.expanded?_eq_some_iff.mp hid
    exact hs.not_mayExpand hnew hstep

/-- **No node is lowered twice.**  Unless the walk ends there, a node that has been lowered
is a stage. -/
theorem lowered_nodup (h : Runs frames s pops out) (hs : s.OnWalk frames) :
    (pops.filterMap Pop.lowered?).Nodup := by
  refine (nodup_filterMap (fun s _ i => ¬ s.built.contains i = true) ?_
    (fun _ hstep hi hbuilt => hi (contains_built_step hstep hbuilt)) ?_ h hs).1
  · intro f frames s id _ hid
    rw [(Pop.lowered?_eq_some_iff.mp hid).2]
    exact Bool.false_ne_true
  · intro f frames pushed s s' id hs hstep hid
    obtain ⟨rfl, -⟩ := Pop.lowered?_eq_some_iff.mp hid
    rw [hs.contains_built_finish hstep]
    exact not_not_intro rfl

/-- **A node is lowered after its parents.** -/
theorem parents_built (h : Runs frames s pops out) (hs : s.OnWalk frames) {pop : Pop σ}
    (hpop : pop ∈ pops) {id : NodeId} (hid : pop.lowered? = some id) {p : NodeId}
    (hp : pop.session.pipeline.HasParent id p) : pop.session.built.contains p = true := by
  have hfirst : ∀ {f : Frame} {frames : List Frame} {s : BuildSession σ}, s.OnWalk (f :: frames) →
      Pop.lowered? ⟨f, s⟩ = some id → s.pipeline.HasParent id p →
      s.built.contains p = true := by
    intro f frames s hs hid hp
    obtain ⟨rfl, -⟩ := Pop.lowered?_eq_some_iff.mp hid
    exact (hs.stacked.2.1 p hp).resolve_right List.not_mem_nil
  induction h with
  | done s => cases hpop
  | fail hstep =>
    cases List.mem_singleton.mp hpop
    exact hfirst hs hid hp
  | next hstep _ ih =>
    rcases List.mem_cons.mp hpop with rfl | hpop
    · exact hfirst hs hid hp
    · exact ih (hs.step hstep) hpop

theorem contains_built (h : Runs frames s pops out) {i : NodeId}
    (hi : s.built.contains i = true) : out.2.built.contains i = true := by
  induction h with
  | done s => exact hi
  | fail hstep => exact contains_built_step hstep hi
  | next hstep _ ih => exact ih (contains_built_step hstep hi)

/-- **Without an error, every node that was on the stack is a stage in the end.** -/
theorem built_of_ok (h : Runs frames s pops out) (hs : s.OnWalk frames)
    (hout : out.1 = .ok ()) : ∀ f ∈ frames, out.2.built.contains f.node = true := by
  induction h with
  | done s => simp
  | fail hstep => cases hout
  | next hstep hrest ih =>
    intro f hf
    have hrestBuilt := ih (hs.step hstep) hout
    rcases List.mem_cons.mp hf with rfl | hf
    · cases stepped_of_step hs.wellFormed hstep with
      | skipped hbuilt => exact hrest.contains_built hbuilt
      | expanded =>
        -- the node has been put back
        exact hrestBuilt (.finish _) (by simp)
      | lowered _ hlower => exact hrest.contains_built (contains_built_of_lower hlower)
    · exact hrestBuilt f (List.mem_append_right _ hf)

end Runs

/-! ### One visit -/

/-- What a visit of `root` does that takes the entries `pops` from the stack and ends with
`out`. -/
structure EachOnce (s : BuildSession σ) (root : NodeId) (pops : List (Pop σ))
    (out : Except PlanError Unit × BuildSession σ) : Prop where
  /-- The visit comes to what the loop comes to, so that the bound on the steps of the walk
  is never what ends it. -/
  visit_eq : s.visit root = (out.1 >>= fun _ => out.2.stageOf root root, out.2)
  length_le : pops.length ≤ 3 * s.pipeline.size + 1
  expanded_nodup : (pops.filterMap Pop.expanded?).Nodup
  lowered_nodup : (pops.filterMap Pop.lowered?).Nodup
  parents_built : ∀ pop ∈ pops, ∀ id, pop.lowered? = some id → ∀ p,
    pop.session.pipeline.HasParent id p → pop.session.built.contains p = true
  root_built : out.1 = .ok () → out.2.built.contains root = true

/-- **The walk ends and does the work of each node once.**  In every session that builds
lead to, over every sink and for every root, the loop ends.  It expands no node twice and
lowers none twice, lowers a node only when all its parents are stages, and unless it fails
the root is a stage in the end. -/
theorem visit_once {s : BuildSession σ} (hs : s.Reached) (root : NodeId) :
    (∃ pops out, Runs [.visit root] s pops out) ∧
      ∀ pops out, Runs [.visit root] s pops out → s.EachOnce root pops out := by
  have hwalk : s.OnWalk [.visit root] := onWalk_root hs.wellFormed root
  refine ⟨hwalk.exists_runs, fun pops out hruns => ?_⟩
  have hlength : pops.length ≤ 3 * s.pipeline.size + 1 := by
    have hle := hruns.length_le hwalk
    have hcard := Finset.card_filter_le (Finset.range s.pipeline.size)
      (s.MayExpand [.visit root])
    rw [Finset.card_range] at hcard
    rw [price, List.length_singleton] at hle
    omega
  exact {
    visit_eq := hruns.visit_eq hlength
    length_le := hlength
    expanded_nodup := hruns.expanded_nodup hwalk
    lowered_nodup := hruns.lowered_nodup hwalk
    parents_built := fun pop hpop id hid p hp => hruns.parents_built hwalk hpop hid hp
    root_built := fun hout => hruns.built_of_ok hwalk hout _ List.mem_cons_self }

end

/-- A visit of the join of `Pipeline.diamond`.  The source is a parent of the join and of
the map on its left, so that it comes up twice. -/
theorem visit_once_diamond :
    Reached (fresh .diamond Topology.empty default) ∧
      ∃ pops out, Runs [.visit 2] (fresh .diamond Topology.empty default) pops out ∧
        EachOnce (fresh .diamond Topology.empty default) 2 pops out ∧
        out.2.built.contains 2 = true := by
  have hreached : Reached (fresh .diamond Topology.empty default) :=
    ⟨.diamond, .empty, default, _, Pipeline.reachable_diamond, rfl, .refl⟩
  obtain ⟨⟨pops, out, hruns⟩, hall⟩ := visit_once hreached 2
  have honce := hall pops out hruns
  refine ⟨hreached, pops, out, hruns, honce, ?_⟩
  have hbuilt : (visit (fresh .diamond Topology.empty default) 2).2.built.contains 2 = true := by
    decide +kernel
  rwa [honce.visit_eq] at hbuilt

end BuildSession
end StreamPlan
