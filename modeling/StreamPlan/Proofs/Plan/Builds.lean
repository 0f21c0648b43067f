import StreamPlan.Proofs.Plan.RecursiveWalk

/-!
# Builds, unfolded

A build of a node that is not a stage builds the parents of the node, the left one
first, and then lowers the node.  The walk comes to nothing else, so what is to be
proved of a build can be proved by induction on the position of its node, without a
stack and without a number of steps.

## Main definitions

* `BuildSession.andThen` — goes on from an outcome that is not a failure.
* `BuildSession.Ready` — a node that is next in a build.

## Main results

* `BuildSession.build_eq_andThen` — **a build is a build of the parents and a
  lowering.**
* `BuildSession.build_eq_ok` — **builds succeed if the lowerings of ready nodes do.**
-/

namespace StreamPlan

theorem Pipeline.has_of_node {g : Pipeline} {i : NodeId} {n : Node} (h : g.nodes[i]? = some n) :
    g.has i = true :=
  decide_eq_true (Array.getElem?_eq_some_iff.mp h).1

namespace BuildSession

variable {σ α β : Type}

/-- Goes on from an outcome, unless it is a failure. -/
def andThen (out : Except PlanError α × BuildSession σ)
    (next : α → BuildSession σ → Except PlanError β × BuildSession σ) :
    Except PlanError β × BuildSession σ :=
  match out with
  | (.ok a, s) => next a s
  | (.error e, s) => (.error e, s)

@[simp] theorem andThen_ok (a : α) (s : BuildSession σ)
    (next : α → BuildSession σ → Except PlanError β × BuildSession σ) :
    andThen (.ok a, s) next = next a s := rfl

@[simp] theorem andThen_error (e : PlanError) (s : BuildSession σ)
    (next : α → BuildSession σ → Except PlanError β × BuildSession σ) :
    andThen (.error e, s) next = (.error e, s) := rfl

variable [PlanSink σ]

theorem step_finish_eq_andThen {s : BuildSession σ} {id : NodeId}
    (h : s.built.contains id = false) :
    s.step (.finish id) = andThen (s.lower id) fun _ s' => (.ok [], s') := by
  rw [step_finish h]
  rcases s.lower id with ⟨_ | _, _⟩ <;> rfl

theorem walk_cons (steps : Nat) (f : Frame) (frames : List Frame) (s : BuildSession σ) :
    walk (steps + 1) (f :: frames) s =
      andThen (s.step f) fun pushed s' => walk steps (pushed ++ frames) s' := by
  rw [walk]
  rcases s.step f with ⟨_ | _, _⟩ <;> rfl

theorem visit_eq_andThen (s : BuildSession σ) (root : NodeId) :
    s.visit root = andThen (walk (3 * s.pipeline.size + 1) [.visit root] s)
      fun _ s' => (s'.stageOf root root, s') := by
  rw [visit]
  rcases walk (3 * s.pipeline.size + 1) [.visit root] s with ⟨_ | _, _⟩ <;> rfl

theorem buildAll_cons (s : BuildSession σ) (t : NodeId) (ts : List NodeId) :
    s.buildAll (t :: ts) = andThen (s.build t) fun _ s' => s'.buildAll ts := by
  rw [buildAll]
  rcases s.build t with ⟨_ | _, _⟩ <;> rfl

theorem build_of_unknown {s : BuildSession σ} {t : NodeId} (h : s.pipeline.nodes[t]? = none) :
    s.build t = (.error (.unknownNode t), s) := by
  rw [build, Pipeline.node, h]

theorem build_eq_visit {s : BuildSession σ} {t : NodeId} {n : Node}
    (hnode : s.pipeline.nodes[t]? = some n) : s.build t = s.visit t := by
  rw [build, Pipeline.node_eq_ok_iff.mpr hnode]

/-- A build of a stage does nothing. -/
theorem build_of_built {s : BuildSession σ} (hwf : s.pipeline.WellFormed) {t : NodeId} {n : Node}
    {name : String} (hnode : s.pipeline.nodes[t]? = some n) (hname : s.stageName? t = some name) :
    s.build t = (.ok name, s) := by
  have hvisit := descend_eq_visit hwf (Pipeline.has_of_node hnode) (Nat.lt_succ_self t)
  rw [descend_of_built t hname] at hvisit
  rw [build_eq_visit hnode]
  exact (Option.some.inj hvisit).symm

/-- Visiting nodes one after another is building them one after another. -/
theorem visitEach_descend_eq_buildAll {s : BuildSession σ} (hwf : s.pipeline.WellFormed)
    {depth : Nat} {ps : List NodeId} (hps : ∀ p ∈ ps, p < depth ∧ p < s.pipeline.size) :
    visitEach (descend depth) ps s = some (s.buildAll ps) := by
  induction ps generalizing s with
  | nil => rfl
  | cons p ps ih =>
    obtain ⟨hdepth, hsize⟩ := hps p List.mem_cons_self
    have hnode : s.pipeline.nodes[p]? = some s.pipeline.nodes[p] := Array.getElem?_eq_getElem hsize
    have hvisit : s.descend depth p = some (s.build p) := by
      rw [build_eq_visit hnode]
      exact descend_eq_visit hwf (Pipeline.has_of_node hnode) hdepth
    have hdescribed := described_build s p
    rw [buildAll_cons]
    rcases hbuild : s.build p with ⟨e | name, s'⟩
    · rw [hbuild] at hvisit
      rw [visitEach_cons_error hvisit, andThen_error]
    · rw [hbuild] at hvisit hdescribed
      rw [visitEach_cons_ok hvisit, andThen_ok]
      -- the next visits find the pipeline as it was, but for a name
      refine ih (hwf.of_described hdescribed) fun q hq => ?_
      rw [Pipeline.size_eq_of_described hdescribed]
      exact hps q (List.mem_cons_of_mem p hq)

/-- **A build of a node that is not a stage builds the parents and lowers the node.** -/
theorem build_eq_andThen {s : BuildSession σ} (hwf : s.pipeline.WellFormed) {t : NodeId} {n : Node}
    (hnode : s.pipeline.nodes[t]? = some n) (hnew : s.stageName? t = none) :
    s.build t = andThen (s.buildAll n.parents) fun _ s' => s'.lower t := by
  have hparents : ∀ p ∈ n.parents, p < t ∧ p < s.pipeline.size := by
    intro p hp
    have hlt := (hwf.node t n hnode).parents_lt p hp
    exact ⟨hlt, Nat.lt_trans hlt (Array.getElem?_eq_some_iff.mp hnode).1⟩
  have hall := visitEach_descend_eq_buildAll hwf hparents
  have hok : s.pipeline.node t = .ok n := Pipeline.node_eq_ok_iff.mpr hnode
  have hvisit := descend_eq_visit hwf (Pipeline.has_of_node hnode) (Nat.lt_succ_self t)
  rw [build_eq_visit hnode]
  rcases hbuild : s.buildAll n.parents with ⟨e | u, s'⟩
  · rw [hbuild] at hall
    rw [descend_of_parent_error hnew hok hall] at hvisit
    exact (Option.some.inj hvisit).symm
  · rw [hbuild] at hall
    rw [descend_of_parents hnew hok hall] at hvisit
    exact (Option.some.inj hvisit).symm

/-! ### Builds that succeed -/

/-- Builds of earlier nodes give a node no stage. -/
theorem stageName?_buildAll_of_lt {s : BuildSession σ} (hwf : s.pipeline.WellFormed)
    {ids : List NodeId} {i : NodeId} (hids : ∀ t ∈ ids, t < i) :
    (s.buildAll ids).2.stageName? i = s.stageName? i := by
  have hall : (s.buildAll ids).2.pipeline.described = s.pipeline.described ∧
      (s.buildAll ids).2.stageName? i = s.stageName? i := by
    refine buildAll_preserves
      (P := fun s' => s'.pipeline.described = s.pipeline.described ∧
        s'.stageName? i = s.stageName? i)
      (Q := (· < i)) ?_ ?_ ⟨rfl, rfl⟩ hids
    · rintro s' id ⟨hdescribed, hname⟩ hlt _
      refine ⟨by rw [described_lower, hdescribed], ?_⟩
      exact (getElem?_built_lower_of_ne (Nat.ne_of_gt hlt)).trans hname
    · rintro s' id p ⟨hdescribed, -⟩ hlt ⟨n, hn, hp⟩
      exact Nat.lt_trans (((hwf.of_described hdescribed).node id n hn).parents_lt p hp) hlt
  exact hall.2

/-- A node that is next in a build: it is not a stage, and its parents are. -/
structure Ready (s : BuildSession σ) (i : NodeId) (n : Node) : Prop where
  node : s.pipeline.nodes[i]? = some n
  new : s.built.contains i = false
  parents : ∀ p ∈ n.parents, s.built.contains p = true

/-- Once its parents have been built, a node is ready. -/
theorem ready_of_buildAll {s s' : BuildSession σ} (hwf : s.pipeline.WellFormed) {i : NodeId}
    {n : Node} (hnode : s.pipeline.nodes[i]? = some n) (hnew : s.stageName? i = none)
    (hbuild : s.buildAll n.parents = (.ok (), s')) : ∃ m, s'.Ready i m := by
  have hs' : s' = (s.buildAll n.parents).2 := by rw [hbuild]
  have hdescribed : s'.pipeline.described = s.pipeline.described := by
    rw [hs']
    exact (After.refl.buildAll n.parents).described
  obtain ⟨m, hm, hnm⟩ := Pipeline.exists_of_described hdescribed.symm hnode
  refine ⟨m, hm, ?_, fun p hp => ?_⟩
  · have hnone : s'.stageName? i = none := by
      rw [hs', stageName?_buildAll_of_lt hwf (hwf.node i n hnode).parents_lt, hnew]
    exact contains_built_eq_false_iff.mpr hnone
  · rw [← Node.parents_eq_of_described hnm] at hp
    rw [hs']
    exact contains_built_of_buildAll (by rw [hbuild]) hp

theorem buildAll_eq_ok_of_build {P : BuildSession σ → Prop} {ids : List NodeId}
    (hbuild : ∀ t ∈ ids, ∀ s, P s → ∃ name s', s.build t = (.ok name, s') ∧ P s')
    {s : BuildSession σ} (hs : P s) : ∃ s', s.buildAll ids = (.ok (), s') ∧ P s' := by
  induction ids generalizing s with
  | nil => exact ⟨s, rfl, hs⟩
  | cons t ts ih =>
    obtain ⟨name, s', hok, hs'⟩ := hbuild t List.mem_cons_self s hs
    rw [buildAll_cons, hok, andThen_ok]
    exact ih (fun t' ht' => hbuild t' (List.mem_cons_of_mem t ht')) hs'

section Success

variable {P : BuildSession σ → Prop} {Q : NodeId → Prop}

/-- **A build succeeds if the lowerings of ready nodes do.**  `P` is what is known of the
sessions and `Q` of the nodes the build comes to. -/
theorem build_eq_ok (hwf : ∀ s, P s → s.pipeline.WellFormed)
    (hnode : ∀ s i, P s → Q i → ∃ n, s.pipeline.nodes[i]? = some n)
    (hparent : ∀ s i p, P s → Q i → s.pipeline.HasParent i p → Q p)
    (hlower : ∀ s i n, P s → Q i → s.Ready i n → ∃ name s', s.lower i = (.ok name, s') ∧ P s')
    {s : BuildSession σ} (hs : P s) {t : NodeId} (ht : Q t) :
    ∃ name s', s.build t = (.ok name, s') ∧ P s' := by
  induction t using Nat.strong_induction_on generalizing s with
  | _ t ih =>
    obtain ⟨n, hn⟩ := hnode s t hs ht
    cases hname : s.stageName? t with
    | some name => exact ⟨name, s, build_of_built (hwf s hs) hn hname, hs⟩
    | none =>
      have hparents : ∀ p ∈ n.parents, ∀ s', P s' →
          ∃ name s'', s'.build p = (.ok name, s'') ∧ P s'' := fun p hp s' hs' =>
        ih p (((hwf s hs).node t n hn).parents_lt p hp) hs' (hparent s t p hs ht ⟨n, hn, hp⟩)
      obtain ⟨s', hbuild, hs'⟩ := buildAll_eq_ok_of_build hparents hs
      obtain ⟨m, hready⟩ := ready_of_buildAll (hwf s hs) hn hname hbuild
      rw [build_eq_andThen (hwf s hs) hn hname, hbuild, andThen_ok]
      exact hlower s' t m hs' ht hready

theorem buildAll_eq_ok (hwf : ∀ s, P s → s.pipeline.WellFormed)
    (hnode : ∀ s i, P s → Q i → ∃ n, s.pipeline.nodes[i]? = some n)
    (hparent : ∀ s i p, P s → Q i → s.pipeline.HasParent i p → Q p)
    (hlower : ∀ s i n, P s → Q i → s.Ready i n → ∃ name s', s.lower i = (.ok name, s') ∧ P s')
    {s : BuildSession σ} (hs : P s) {terminals : List NodeId} (hQ : ∀ t ∈ terminals, Q t) :
    ∃ s', s.buildAll terminals = (.ok (), s') ∧ P s' :=
  buildAll_eq_ok_of_build (fun t ht _ hs' => build_eq_ok hwf hnode hparent hlower hs' (hQ t ht)) hs

end Success

end BuildSession
end StreamPlan
