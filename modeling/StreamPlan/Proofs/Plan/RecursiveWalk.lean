import Mathlib.Data.Nat.Count
import StreamPlan.Proofs.Plan.Logged
import StreamPlan.Proofs.Plan.Reachable

/-!
# The walk is a recursive visit

The walk keeps a stack of its own, which may hold a node several times and mixes
nodes to visit with nodes to finish.  This file shows that it does what a
recursive visit does: return the stage of a node that has one, and otherwise visit
the parents from left to right up to the first failure and then lower the node.

`descend` is that visit, cut off below a depth of recursion, and `Descends` says what
it comes to at any depth.  On a pipeline with a cycle it would come to nothing; part
of the result is that it always ends.

The simulation goes from a recursive call to a run of the walk.  `Treats k fs s out`
says that `k` steps deal with the entries `fs` on top of the stack, whatever lies
below them.  The number of steps is paid for by the nodes that become stages: a
stage costs three steps, one to visit it, one to finish it, and one for a stale
entry of a parent.  A node that fails is paid for by the nodes on the path to it,
which are not stages and have smaller and smaller positions.

## Main definitions

* `BuildSession.descend`, `BuildSession.Descends` — the recursive visit.
* `BuildSession.Treats` — a run of the walk over some entries.
* `BuildSession.unbuilt` — the number of nodes below a position that are not stages.

## Main results

* `BuildSession.visit_refines_descend` — **the walk is the recursive visit.**
-/

namespace StreamPlan
namespace BuildSession

variable {σ : Type}

/-! ### The recursive visit -/

/-- Visits nodes one after another until one fails. -/
def visitEach
    (visit : BuildSession σ → NodeId → Option (Except PlanError String × BuildSession σ)) :
    List NodeId → BuildSession σ → Option (Except PlanError Unit × BuildSession σ)
  | [], s => some (.ok (), s)
  | id :: ids, s =>
    match visit s id with
    | none => none
    | some (.ok _, s) => visitEach visit ids s
    | some (.error e, s) => some (.error e, s)

section VisitEach

variable {visit : BuildSession σ → NodeId → Option (Except PlanError String × BuildSession σ)}
  {id : NodeId} {ids : List NodeId} {s s' : BuildSession σ}

theorem visitEach_cons_ok {name : String} (h : visit s id = some (.ok name, s')) :
    visitEach visit (id :: ids) s = visitEach visit ids s' := by
  rw [visitEach, h]

theorem visitEach_cons_error {e : PlanError} (h : visit s id = some (.error e, s')) :
    visitEach visit (id :: ids) s = some (.error e, s') := by
  rw [visitEach, h]

theorem visitEach_mono
    {visit' : BuildSession σ → NodeId → Option (Except PlanError String × BuildSession σ)}
    (hvisit : ∀ s id out, visit s id = some out → visit' s id = some out)
    {out : Except PlanError Unit × BuildSession σ} (h : visitEach visit ids s = some out) :
    visitEach visit' ids s = some out := by
  induction ids generalizing s with
  | nil => exact h
  | cons id ids ih =>
    rw [visitEach] at h
    split at h
    · cases h
    · next heq =>
      rw [visitEach_cons_ok (hvisit _ _ _ heq)]
      exact ih h
    · next heq =>
      rw [visitEach_cons_error (hvisit _ _ _ heq)]
      exact h

end VisitEach

section

variable [PlanSink σ]

/-- Visits a node recursively, with calls nested at most `depth` deep. -/
def descend : Nat → BuildSession σ → NodeId → Option (Except PlanError String × BuildSession σ)
  | 0, _, _ => none
  | depth + 1, s, id =>
    match s.built[id]? with
    | some name => some (.ok name, s)
    | none =>
      match s.pipeline.node id with
      | .error e => some (.error e, s)
      | .ok n =>
        match visitEach (descend depth) n.parents s with
        | none => none
        | some (.ok _, s) => some (s.lower id)
        | some (.error e, s) => some (.error e, s)

/-- The recursive visit of a node ends, with an outcome. -/
def Descends (s : BuildSession σ) (id : NodeId) (out : Except PlanError String × BuildSession σ) :
    Prop :=
  ∃ depth, s.descend depth id = some out

theorem descend_of_built {s : BuildSession σ} {id : NodeId} {name : String} (depth : Nat)
    (h : s.built[id]? = some name) : s.descend (depth + 1) id = some (.ok name, s) := by
  rw [descend, h]

theorem descend_of_parents {depth : Nat} {s s' : BuildSession σ} {id : NodeId} {n : Node}
    (hbuilt : s.built[id]? = none) (hnode : s.pipeline.node id = .ok n)
    (hall : visitEach (descend depth) n.parents s = some (.ok (), s')) :
    s.descend (depth + 1) id = some (s'.lower id) := by
  rw [descend, hbuilt, hnode]
  dsimp only
  rw [hall]

theorem descend_of_parent_error {depth : Nat} {s s' : BuildSession σ} {id : NodeId} {n : Node}
    {e : PlanError} (hbuilt : s.built[id]? = none) (hnode : s.pipeline.node id = .ok n)
    (hall : visitEach (descend depth) n.parents s = some (.error e, s')) :
    s.descend (depth + 1) id = some (.error e, s') := by
  rw [descend, hbuilt, hnode]
  dsimp only
  rw [hall]

/-- A visit that ends has the same outcome when it may go deeper. -/
theorem descend_succ {depth : Nat} {s : BuildSession σ} {id : NodeId}
    {out : Except PlanError String × BuildSession σ} (h : s.descend depth id = some out) :
    s.descend (depth + 1) id = some out := by
  induction depth generalizing s id out with
  | zero => cases h
  | succ depth ih =>
    rw [descend] at h
    split at h
    · next hbuilt => rw [descend_of_built _ hbuilt, h]
    · next hbuilt =>
      split at h
      · next hnode =>
        rw [descend, hbuilt, hnode]
        exact h
      · next hnode =>
        split at h
        · cases h
        · next hall =>
          rw [descend_of_parents hbuilt hnode (visitEach_mono (fun _ _ _ => ih) hall), h]
        · next hall =>
          rw [descend_of_parent_error hbuilt hnode (visitEach_mono (fun _ _ _ => ih) hall), h]

theorem descend_of_le {depth depth' : Nat} (hle : depth ≤ depth') {s : BuildSession σ}
    {id : NodeId} {out : Except PlanError String × BuildSession σ}
    (h : s.descend depth id = some out) : s.descend depth' id = some out := by
  induction hle with
  | refl => exact h
  | step _ ih => exact descend_succ ih

/-! ### Runs of the walk over some entries -/

variable {α : Type}

@[simp] theorem walk_nil (steps : Nat) (s : BuildSession σ) : walk steps [] s = (.ok (), s) := by
  cases steps <;> rfl

/-- `k` steps of the walk deal with the entries `fs`: they lead from `s` to the
session of `out`, and on to the entries below or to the failure of `out`. -/
def Treats (k : Nat) (fs : List Frame) (s : BuildSession σ) :
    Except PlanError α × BuildSession σ → Prop
  | (.ok _, s') => ∀ steps rest, walk (k + steps) (fs ++ rest) s = walk steps rest s'
  | (.error e, s') => ∀ steps rest, walk (k + steps) (fs ++ rest) s = (.error e, s')

theorem Treats.append {k l : Nat} {fs gs : List Frame} {s s' : BuildSession σ} {a : α} {β : Type}
    {out : Except PlanError β × BuildSession σ} (h : Treats k fs s (.ok a, s'))
    (h' : Treats l gs s' out) : Treats (k + l) (fs ++ gs) s out := by
  obtain ⟨_ | _, s''⟩ := out
  · intro steps rest
    rw [Nat.add_assoc, List.append_assoc, h (l + steps) (gs ++ rest)]
    exact h' steps rest
  · intro steps rest
    rw [Nat.add_assoc, List.append_assoc, h (l + steps) (gs ++ rest)]
    exact h' steps rest

/-- After a failure the entries below do not matter. -/
theorem Treats.append_of_error {k : Nat} {fs : List Frame} (gs : List Frame)
    {s s' : BuildSession σ} {e : PlanError} {β : Type}
    (h : Treats k fs s ((.error e, s') : Except PlanError α × BuildSession σ)) :
    Treats k (fs ++ gs) s ((.error e, s') : Except PlanError β × BuildSession σ) := by
  intro steps rest
  rw [List.append_assoc]
  exact h steps (gs ++ rest)

theorem treats_nil (s : BuildSession σ) (a : α) : Treats 0 [] s (.ok a, s) := by
  intro steps rest
  rw [Nat.zero_add, List.nil_append]

theorem treats_of_built {s : BuildSession σ} {f : Frame} (h : s.built.contains f.node = true)
    (a : α) : Treats 1 [f] s (.ok a, s) := by
  intro steps rest
  rw [Nat.add_comm, List.singleton_append, walk, step_of_built h]
  rfl

theorem treats_visit {s : BuildSession σ} {id : NodeId} (h : s.built.contains id = false)
    {pushed : List Frame} (hpushed : s.expand id = .ok pushed) {k : Nat}
    {out : Except PlanError α × BuildSession σ} (hout : Treats k pushed s out) :
    Treats (k + 1) [.visit id] s out := by
  have hstep : ∀ steps rest,
      walk (k + 1 + steps) ([.visit id] ++ rest) s = walk (k + steps) (pushed ++ rest) s := by
    intro steps rest
    rw [Nat.add_right_comm, List.singleton_append, walk, step_visit h, hpushed]
  obtain ⟨_ | _, s'⟩ := out
  · intro steps rest
    rw [hstep]
    exact hout steps rest
  · intro steps rest
    rw [hstep]
    exact hout steps rest

theorem treats_finish {s : BuildSession σ} {id : NodeId} (h : s.built.contains id = false) :
    Treats 1 [.finish id] s (s.lower id) := by
  have hstep := step_finish h
  rcases hlow : s.lower id with ⟨_ | _, s'⟩
  · intro steps rest
    rw [Nat.add_comm, List.singleton_append, walk, hstep, hlow]
    rfl
  · intro steps rest
    rw [Nat.add_comm, List.singleton_append, walk, hstep, hlow]
    rfl

/-- The session of the outcome is that of the walk. -/
theorem Treats.walk_snd {k : Nat} {fs : List Frame} {s : BuildSession σ}
    {out : Except PlanError α × BuildSession σ} (h : Treats k fs s out) :
    (walk k fs s).2 = out.2 := by
  obtain ⟨_ | _, s'⟩ := out
  · have hwalk := h 0 []
    rw [List.append_nil, Nat.add_zero] at hwalk
    rw [hwalk]
  · have hwalk := h 0 []
    rw [List.append_nil, Nat.add_zero, walk_nil] at hwalk
    rw [hwalk]

/-- What lowerings keep is kept by any run of the walk. -/
theorem Treats.preserves {P : BuildSession σ → Prop} {Q : NodeId → Prop}
    (hlower : ∀ s id, P s → Q id → s.built.contains id = false → P (s.lower id).2)
    (hparent : ∀ s id p, P s → Q id → s.pipeline.HasParent id p → Q p)
    {k : Nat} {fs : List Frame} {s : BuildSession σ} {out : Except PlanError α × BuildSession σ}
    (h : Treats k fs s out) (hs : P s) (hfs : ∀ f ∈ fs, Q f.node) : P out.2 := by
  rw [← h.walk_snd]
  exact walk_preserves hlower hparent k hs hfs

theorem Treats.described {k : Nat} {fs : List Frame} {s : BuildSession σ}
    {out : Except PlanError α × BuildSession σ} (h : Treats k fs s out) :
    out.2.pipeline.described = s.pipeline.described := by
  refine h.preserves (P := fun s' => s'.pipeline.described = s.pipeline.described)
    (Q := fun _ => True) ?_ (fun _ _ _ _ _ _ => trivial) rfl (fun _ _ => trivial)
  intro s' id hs' _ _
  rw [described_lower, hs']

theorem Treats.contains_built {k : Nat} {fs : List Frame} {s : BuildSession σ}
    {out : Except PlanError α × BuildSession σ} (h : Treats k fs s out) {i : NodeId}
    (hi : s.built.contains i = true) : out.2.built.contains i = true :=
  h.preserves (P := fun s' => s'.built.contains i = true) (Q := fun _ => True)
    (fun _ _ hs' _ _ => contains_built_lower hs') (fun _ _ _ _ _ _ => trivial) hi
    (fun _ _ => trivial)

/-- Entries for nodes below a position lead only to nodes below it. -/
theorem Treats.getElem?_built_of_le {k : Nat} {fs : List Frame} {s : BuildSession σ}
    {out : Except PlanError α × BuildSession σ} (h : Treats k fs s out)
    (hwf : s.pipeline.WellFormed) {b i : NodeId} (hfs : ∀ f ∈ fs, f.node < b) (hbi : b ≤ i) :
    out.2.built[i]? = s.built[i]? := by
  have hkeep : out.2.pipeline.described = s.pipeline.described ∧
      out.2.built[i]? = s.built[i]? := by
    refine h.preserves
      (P := fun s' => s'.pipeline.described = s.pipeline.described ∧ s'.built[i]? = s.built[i]?)
      (Q := fun j => j < b) ?_ ?_ ⟨rfl, rfl⟩ hfs
    · rintro s' id ⟨hdesc, hsame⟩ hid -
      have hne : i ≠ id := Nat.ne_of_gt (Nat.lt_of_lt_of_le hid hbi)
      exact ⟨by rw [described_lower, hdesc], by rw [getElem?_built_lower_of_ne hne, hsame]⟩
    · rintro s' id p ⟨hdesc, -⟩ hid ⟨n, hn, hp⟩
      have hlt := ((hwf.of_described hdesc).node id n hn).parents_lt p hp
      exact Nat.lt_trans hlt hid
  exact hkeep.2

end

/-! ### The price of a run -/

/-- The number of nodes below a position that are not stages. -/
def unbuilt (s : BuildSession σ) (b : Nat) : Nat :=
  Nat.count (fun i => s.built.contains i = false) b

theorem unbuilt_le (s : BuildSession σ) (b : Nat) : s.unbuilt b ≤ b := Nat.count_le _

theorem unbuilt_lt {s : BuildSession σ} {id b : Nat} (h : s.built.contains id = false)
    (hb : id < b) : s.unbuilt id < s.unbuilt b :=
  Nat.count_strict_mono (p := fun i => s.built.contains i = false) h hb

/-- A new stage is one node less that is not a stage. -/
theorem unbuilt_insert {s s' : BuildSession σ} {id b : Nat} {name : String}
    (h : s.built.contains id = false) (hb : id < b) (hs' : s'.built = s.built.insert id name) :
    s'.unbuilt b + 1 = s.unbuilt b := by
  have hcontains : ∀ i, s'.built.contains i = (decide (id = i) || s.built.contains i) := by
    intro i
    rw [hs', Std.TreeMap.contains_insert, Bool.eq_iff_iff]
    simp
  unfold unbuilt
  induction b with
  | zero => omega
  | succ b ih =>
    rw [Nat.count_succ, Nat.count_succ, hcontains]
    rcases Nat.lt_or_ge id b with hlt | hge
    · have hne : decide (id = b) = false := decide_eq_false (by omega)
      rw [hne, Bool.false_or, ← ih hlt]
      omega
    · have heq : id = b := by omega
      subst heq
      -- below the new stage nothing has changed
      have hbelow : Nat.count (fun i => s'.built.contains i = false) id
          = Nat.count (fun i => s.built.contains i = false) id := by
        rw [Nat.count_eq_card_filter_range, Nat.count_eq_card_filter_range]
        congr 1
        refine Finset.filter_congr fun i hi => ?_
        have hne : decide (id = i) = false :=
          decide_eq_false (Nat.ne_of_gt (Finset.mem_range.mp hi))
        rw [hcontains, hne, Bool.false_or]
      rw [hbelow]
      simp [h]

/-! ### The simulation -/

theorem expand_eq {s : BuildSession σ} (hwf : s.pipeline.WellFormed) {id : NodeId} {n : Node}
    (hnode : s.pipeline.nodes[id]? = some n) :
    s.expand id =
      .ok ((n.parents.filter fun p => !s.built.contains p).map Frame.visit ++ [.finish id]) := by
  have hsize : id < s.pipeline.size := (Array.getElem?_eq_some_iff.mp hnode).1
  have hnone : (n.parents.reverse.find? fun p => !s.pipeline.has p) = none := by
    rw [List.find?_eq_none]
    intro p hp
    have hlt := (hwf.node id n hnode).parents_lt p (List.mem_reverse.mp hp)
    have hhas : s.pipeline.has p = true := decide_eq_true (Nat.lt_trans hlt hsize)
    rw [hhas]
    exact Bool.false_ne_true
  unfold expand
  rw [Pipeline.node_eq_ok_iff.mpr hnode]
  dsimp only
  rw [hnone]

section

variable [PlanSink σ] {α : Type}

/-- The steps that may be needed after an outcome: three for each node below `b`
that is not a stage, and none after a failure. -/
def stepsLeft (b : Nat) : Except PlanError α × BuildSession σ → Nat
  | (.ok _, s) => 3 * s.unbuilt b
  | (.error _, _) => 0

/-- The recursive visit of a node has the outcome `out`, and the walk comes to the
same outcome in `k` steps. -/
structure Simulates (s : BuildSession σ) (id : NodeId) (k : Nat)
    (out : Except PlanError String × BuildSession σ) : Prop where
  descend_eq : ∀ depth : Nat, id < depth → s.descend depth id = some out
  treats : Treats k [.visit id] s out
  built_eq : ∀ name, out.1 = .ok name → out.2.built[id]? = some name
  steps_le : ∀ b : Nat, id < b → k + stepsLeft b out ≤ 3 * s.unbuilt b + 1

/-- Visits of nodes below `b`, when each of them is simulated.  The walk has left
out those that were stages when the entries were made, in the session `s₀`; they
still are, so that the recursive visit passes over them. -/
theorem simulates_all (s₀ : BuildSession σ) {b : Nat}
    (hsim : ∀ p, p < b → ∀ s : BuildSession σ, s.pipeline.WellFormed → p < s.pipeline.size →
      ∃ k out, Simulates s p k out)
    {ps : List NodeId} (hps : ∀ p ∈ ps, p < b) {s : BuildSession σ} (hwf : s.pipeline.WellFormed)
    (hsize : b ≤ s.pipeline.size)
    (hsub : ∀ i, s₀.built.contains i = true → s.built.contains i = true) :
    ∃ k out, (∀ depth : Nat, b ≤ depth → visitEach (descend depth) ps s = some out) ∧
      Treats k ((ps.filter fun p => !s₀.built.contains p).map Frame.visit) s out ∧
      ∀ c : Nat, b ≤ c → k + stepsLeft c out ≤ 3 * s.unbuilt c + ps.length := by
  induction ps generalizing s with
  | nil =>
    refine ⟨0, (.ok (), s), fun _ _ => rfl, treats_nil s (), fun c _ => ?_⟩
    simp [stepsLeft]
  | cons p ps ih =>
    have hp : p < b := hps p List.mem_cons_self
    have hrest : ∀ q ∈ ps, q < b := fun q hq => hps q (List.mem_cons_of_mem p hq)
    cases hold : s₀.built.contains p with
    | true =>
      -- no entry was made for `p`, and the recursive visit finds its stage
      obtain ⟨name, hname⟩ : ∃ name, s.built[p]? = some name := by
        rw [← Option.isSome_iff_exists, Std.TreeMap.isSome_getElem?_eq_contains]
        exact hsub p hold
      obtain ⟨k, out, hdesc, htreats, hsteps⟩ := ih hrest hwf hsize hsub
      refine ⟨k, out, fun depth hdepth => ?_, ?_, fun c hc => ?_⟩
      · obtain ⟨depth, rfl⟩ := Nat.exists_eq_add_one_of_ne_zero (Nat.ne_zero_of_lt
          (Nat.lt_of_lt_of_le hp hdepth))
        rw [visitEach_cons_ok (descend_of_built depth hname), hdesc _ hdepth]
      · rw [List.filter_cons_of_neg (by simp [hold])]
        exact htreats
      · have := hsteps c hc
        rw [List.length_cons]
        omega
    | false =>
      obtain ⟨k, ⟨r, s₁⟩, hone⟩ := hsim p hp s hwf (Nat.lt_of_lt_of_le hp hsize)
      rw [List.filter_cons_of_pos (by simp [hold]), List.map_cons]
      cases r with
      | error e =>
        refine ⟨k, (.error e, s₁), fun depth hdepth => ?_, hone.treats.append_of_error _,
          fun c hc => ?_⟩
        · exact visitEach_cons_error (hone.descend_eq depth (Nat.lt_of_lt_of_le hp hdepth))
        have := hone.steps_le c (Nat.lt_of_lt_of_le hp hc)
        simp only [stepsLeft, List.length_cons] at this ⊢
        omega
      | ok name =>
        have hdesc₁ := hone.treats.described
        obtain ⟨l, out, hdesc, htreats, hsteps⟩ := ih hrest (hwf.of_described hdesc₁)
          (by rw [Pipeline.size_eq_of_described hdesc₁]; exact hsize)
          (fun i hi => hone.treats.contains_built (hsub i hi))
        refine ⟨k + l, out, fun depth hdepth => ?_, hone.treats.append htreats, fun c hc => ?_⟩
        · rw [visitEach_cons_ok (hone.descend_eq depth (Nat.lt_of_lt_of_le hp hdepth)),
            hdesc depth hdepth]
        · have hfirst := hone.steps_le c (Nat.lt_of_lt_of_le hp hc)
          have hothers := hsteps c hc
          simp only [stepsLeft, List.length_cons] at hfirst hothers ⊢
          omega

theorem length_parents_le (n : Node) : n.parents.length ≤ 2 := by
  unfold Node.parents
  split <;> simp

/-- Lowering a node that has just been finished takes one step. -/
theorem stepsLeft_lower {s : BuildSession σ} {id b : Nat} (h : s.built.contains id = false)
    (hb : id < b) : stepsLeft b (s.lower id) + 3 ≤ 3 * s.unbuilt b := by
  rcases hlow : s.lower id with ⟨e | name, s'⟩
  · have := unbuilt_lt h hb
    simp only [stepsLeft]
    omega
  · have hok : (s.lower id).1 = .ok name := by rw [hlow]
    have hbuilt : s'.built = s.built.insert id name := by
      rw [← built_of_lower hok, hlow]
    have := unbuilt_insert h hb hbuilt
    simp only [stepsLeft]
    omega

/-- **A recursive visit is simulated by the walk**, at every node of a well-formed
pipeline.  The induction is on the position of the node: parents have smaller
ones. -/
theorem exists_simulates (id : Nat) : ∀ s : BuildSession σ, s.pipeline.WellFormed →
    id < s.pipeline.size → ∃ k out, Simulates s id k out := by
  induction id using Nat.strong_induction_on with
  | _ id ih =>
    intro s hwf hsize
    cases hbuilt : s.built[id]? with
    | some name =>
      have hcontains : s.built.contains id = true := by
        rw [Std.TreeMap.contains_eq_isSome_getElem?, hbuilt]
        rfl
      refine ⟨1, (.ok name, s), fun depth hdepth => ?_, treats_of_built hcontains name, ?_, ?_⟩
      · obtain ⟨depth, rfl⟩ := Nat.exists_eq_add_one_of_ne_zero (Nat.ne_zero_of_lt hdepth)
        exact descend_of_built depth hbuilt
      · rintro name' ⟨⟩
        exact hbuilt
      · intro b _
        simp only [stepsLeft]
        omega
    | none =>
      have hcontains : s.built.contains id = false := by
        rw [Std.TreeMap.contains_eq_isSome_getElem?, hbuilt]
        rfl
      obtain ⟨n, hnode⟩ : ∃ n, s.pipeline.nodes[id]? = some n :=
        ⟨_, Array.getElem?_eq_getElem hsize⟩
      have hok : s.pipeline.node id = .ok n := Pipeline.node_eq_ok_iff.mpr hnode
      have hparents := (hwf.node id n hnode).parents_lt
      obtain ⟨k, ⟨r, s₁⟩, hdesc, htreats, hsteps⟩ :=
        simulates_all s ih hparents hwf (Nat.le_of_lt hsize) (fun _ h => h)
      have hlength := length_parents_le n
      cases r with
      | error e =>
        refine ⟨k + 1, (.error e, s₁), fun depth hdepth => ?_,
          treats_visit hcontains (expand_eq hwf hnode) (htreats.append_of_error _), ?_, ?_⟩
        · obtain ⟨depth, rfl⟩ := Nat.exists_eq_add_one_of_ne_zero (Nat.ne_zero_of_lt hdepth)
          exact descend_of_parent_error hbuilt hok (hdesc depth (Nat.le_of_lt_succ hdepth))
        · rintro name ⟨⟩
        · intro b hb
          -- the node itself is not a stage, which pays for visiting it
          have hbelow := hsteps id (Nat.le_refl id)
          have hself := unbuilt_lt hcontains hb
          simp only [stepsLeft] at hbelow ⊢
          omega
      | ok u =>
        have hstill : s₁.built.contains id = false := by
          have hsame := htreats.getElem?_built_of_le hwf (b := id) (i := id) ?_ (Nat.le_refl id)
          · rw [Std.TreeMap.contains_eq_isSome_getElem?, hsame, hbuilt]
            rfl
          · intro f hf
            obtain ⟨p, hp, rfl⟩ := List.mem_map.mp hf
            exact hparents p (List.mem_filter.mp hp).1
        refine ⟨k + 1 + 1, s₁.lower id, fun depth hdepth => ?_,
          treats_visit hcontains (expand_eq hwf hnode)
            (htreats.append (treats_finish hstill)), ?_, ?_⟩
        · obtain ⟨depth, rfl⟩ := Nat.exists_eq_add_one_of_ne_zero (Nat.ne_zero_of_lt hdepth)
          exact descend_of_parents hbuilt hok (hdesc depth (Nat.le_of_lt_succ hdepth))
        · intro name hname
          rw [built_of_lower hname]
          exact Std.TreeMap.getElem?_insert_self
        · intro b hb
          have hfirst := hsteps b (Nat.le_of_lt hb)
          have hlast := stepsLeft_lower hstill hb
          simp only [stepsLeft] at hfirst
          omega

/-- In every session over a well-formed pipeline, a recursive visit that may go as deep
as the position of the node comes to the outcome of the walk. -/
theorem descend_eq_visit {s : BuildSession σ} (hwf : s.pipeline.WellFormed) {root depth : Nat}
    (hroot : s.pipeline.has root = true) (hdepth : root < depth) :
    s.descend depth root = some (s.visit root) := by
  have hsize : root < s.pipeline.size := of_decide_eq_true hroot
  obtain ⟨k, ⟨r, s'⟩, hsim⟩ := exists_simulates root s hwf hsize
  have hsteps := hsim.steps_le s.pipeline.size hsize
  have hle : k ≤ 3 * s.pipeline.size + 1 := by
    have := s.unbuilt_le s.pipeline.size
    omega
  -- the walk has steps to spare when it is done with the root
  obtain ⟨spare, hspare⟩ := Nat.exists_eq_add_of_le hle
  have htreats := hsim.treats
  rw [hsim.descend_eq depth hdepth, visit, hspare]
  cases r with
  | error e =>
    have hwalk := htreats spare []
    rw [List.append_nil] at hwalk
    rw [hwalk]
  | ok name =>
    have hwalk := htreats spare []
    rw [List.append_nil, walk_nil] at hwalk
    have hbuilt : s'.built[root]? = some name := hsim.built_eq name rfl
    have hstage : s'.stageOf root root = .ok name := by
      unfold stageOf
      rw [hbuilt]
    rw [hwalk]
    dsimp only
    rw [hstage]

theorem descends_iff {s : BuildSession σ} (hwf : s.pipeline.WellFormed) {root : NodeId}
    (hroot : s.pipeline.has root = true) (out : Except PlanError String × BuildSession σ) :
    s.Descends root out ↔ out = s.visit root := by
  constructor
  · rintro ⟨depth, hdepth⟩
    -- deep enough for the walk as well
    have hdeep := descend_of_le (Nat.le_max_left depth (root + 1)) hdepth
    rw [descend_eq_visit hwf hroot (Nat.le_max_right depth (root + 1))] at hdeep
    exact (Option.some.inj hdeep).symm
  · rintro rfl
    exact ⟨root + 1, descend_eq_visit hwf hroot (Nat.lt_succ_self root)⟩

/-- **The walk is the recursive visit.**  In every session that builds lead to,
over every sink, the recursive visit of a node ends, and it ends with what the walk
comes to: the same answer and the same session, with the same names, stages, pipeline
and sink.  Over a sink with a log it also makes the same calls. -/
theorem visit_refines_descend {s : BuildSession σ} (hs : s.Reached) {root : NodeId}
    (hroot : s.pipeline.has root = true) :
    (∀ out, s.Descends root out ↔ out = s.visit root) ∧
      ∀ out, s.logged.Descends root out ↔ out = s.logged.visit root :=
  ⟨descends_iff hs.wellFormed hroot,
    descends_iff (show s.logged.pipeline.WellFormed from hs.wellFormed) hroot⟩

end

/-- A visit of the join of `Pipeline.diamond` after the map has been built. -/
theorem visit_refines_descend_diamond :
    ∃ s : BuildSession Topology, s = ((fresh .diamond Topology.empty default).build 1).2 ∧
      s.Reached ∧ s.pipeline.has 2 = true ∧
      (∀ out, s.Descends 2 out ↔ out = s.visit 2) ∧
      ∀ out, s.logged.Descends 2 out ↔ out = s.logged.visit 2 := by
  have hreached : Reached ((fresh .diamond Topology.empty default).build 1).2 :=
    ⟨.diamond, .empty, default, _, Pipeline.reachable_diamond, rfl, .build 1 .refl⟩
  have hroot : ((fresh .diamond Topology.empty default).build 1).2.pipeline.has 2 = true := by
    decide +kernel
  exact ⟨_, rfl, hreached, hroot, visit_refines_descend hreached hroot⟩

end BuildSession
end StreamPlan
