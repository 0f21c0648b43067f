import StreamPlan.Proofs.Plan.Failures
import StreamPlan.Proofs.Plan.PlannedCalls
import StreamPlan.Proofs.Topology.Growth

/-!
# Builds into a topology that has stages

The planner keeps its own list of names and does not ask the sink which stages it has.  So a
build into a topology that is not new makes the calls that it makes over a new one, and the
topology refuses those that register a name it has already.  An edge is wired by name, but
as the names of the build are new, both its ends are stages of the build.

Two topologies take the same calls here: a new one, and one that starts with the stages of
`p`.  As long as the calls register no name of `p`, the second one has the stages of `p` and
then those of the first one, `p.size` positions later (`Topology.Beside`).

## Main definitions

* `Stage.shift` — a stage at a later position.
* `Topology.Beside` — stages of one topology after those of another one.

## Main results

* `Topology.Beside.acceptAll_of_free`, `Topology.Beside.acceptAll_of_taken` — **what a new
  topology takes, an occupied one takes as well, up to the first name that it has.**
* `Pipeline.buildPlan_fst_of_free`, `Pipeline.buildPlan_fst_of_taken` — the same of builds.
* `buildPlan_into_occupied` — **a build into an occupied topology adds the stages of a build
  into a new one, or fails at the first name that is taken.**
-/

namespace StreamPlan

theorem PlanSink.acceptAll_cons_eq_ok {σ : Type} [PlanSink σ] {sink sink' : σ} {call : PlanCall}
    {calls : List PlanCall} (h : acceptAll sink (call :: calls) = (.ok (), sink')) :
    ∃ next, accept sink call = (.ok (), next) ∧ acceptAll next calls = (.ok (), sink') := by
  rw [acceptAll] at h
  rcases hcall : accept sink call with ⟨e | ⟨⟩, next⟩
  · rw [hcall] at h
    cases h
  · rw [hcall] at h
    exact ⟨next, rfl, h⟩

/-- A stage at a position that is later by `k`. -/
def Stage.shift (k : Nat) (s : Stage) : Stage := { s with id := k + s.id }

namespace Topology

/-! ### Two topologies side by side -/

/-- The topology `u` has the stages of `p`, and after them those of `t`, which have other
names. -/
structure Beside (p t u : Topology) : Prop where
  stages_eq : u.stages = p.stages ++ t.stages.map (Stage.shift p.size)
  position_eq : ∀ name,
    u.position? name = (p.position? name).or ((t.position? name).map (p.size + ·))
  apart : ∀ name, t.position? name ≠ none → p.position? name = none

theorem beside_empty (p : Topology) : p.Beside empty p where
  stages_eq := by simp [empty]
  position_eq := by simp [empty, position?]
  apart := by simp [empty, position?]

section Beside

variable {p t u : Topology}

theorem Beside.push (h : p.Beside t u) {name : String} (hname : p.position? name = none)
    (partitions : UInt64) (unit : StageUnit) :
    p.Beside (t.push name partitions unit) (u.push name partitions unit) := by
  have hsize : u.stages.size = p.size + t.stages.size := by
    rw [h.stages_eq]
    simp [size]
  constructor
  case stages_eq =>
    simp only [Topology.push, hsize]
    rw [h.stages_eq, Array.map_push, Array.append_push]
    rfl
  case position_eq =>
    intro other
    simp only [position?_push, h.position_eq, size, hsize]
    by_cases hother : name = other
    · rw [if_pos hother, if_pos hother, ← hother, hname]
      rfl
    · rw [if_neg hother, if_neg hother]
  case apart =>
    intro other hother
    rw [position?_push] at hother
    by_cases heq : name = other
    · rw [← heq, hname]
    · rw [if_neg heq] at hother
      exact h.apart other hother

/-- The stage at position `i` of `t` is the one at `p.size + i`. -/
theorem Beside.connect (h : p.Beside t u) (i : Nat) (e : InputEdge) :
    p.Beside (t.connect i e) (u.connect (p.size + i) e) where
  stages_eq := by
    refine Array.ext_getElem? fun j => ?_
    simp only [Topology.connect, h.stages_eq, Array.getElem?_modify, Array.getElem?_append,
      Array.getElem?_map, size]
    by_cases hj : j < p.stages.size
    · have hne : p.stages.size + i ≠ j := by omega
      simp only [hj, hne, if_true, if_false]
    · by_cases hi : p.stages.size + i = j
      · have hi' : i = j - p.stages.size := by omega
        simp only [hj, hi, ← hi', if_true, if_false, Option.map_map]
        rfl
      · have hi' : i ≠ j - p.stages.size := by omega
        simp only [hj, hi, hi', if_false]
  position_eq := h.position_eq
  apart := h.apart

/-- A call that `t` takes and that registers no name of `p` is taken beside `p`. -/
theorem Beside.accept (h : p.Beside t u) {t' : Topology} {call : PlanCall}
    (hcall : PlanSink.accept t call = (.ok (), t'))
    (hfree : ∀ name ∈ registeredNames [call], p.position? name = none) :
    ∃ u', PlanSink.accept u call = (.ok (), u') ∧ p.Beside t' u' := by
  cases call with
  | register name partitions unit =>
    obtain ⟨hnew, hpartitions, rfl⟩ := accept_register_eq_ok_iff.mp hcall
    have hname : p.position? name = none := hfree name List.mem_cons_self
    have hnew' : u.position? name = none := by
      rw [h.position_eq, hname, hnew]
      rfl
    exact ⟨_, accept_register_eq_ok_iff.mpr ⟨hnew', hpartitions, rfl⟩, h.push hname partitions unit⟩
  | wire consumer producer grouping =>
    obtain ⟨hproducer, i, hconsumer, rfl⟩ := accept_wire_eq_ok_iff.mp hcall
    -- both ends are names of `t`, so they are found where `t` has them
    have hproducer' : u.position? producer ≠ none := by
      rw [h.position_eq, h.apart producer hproducer, Option.none_or]
      simpa using hproducer
    have hconsumer' : u.position? consumer = some (p.size + i) := by
      rw [h.position_eq, h.apart consumer (by simp [hconsumer]), hconsumer]
      rfl
    exact ⟨_, accept_wire_eq_ok_iff.mpr ⟨hproducer', _, hconsumer', rfl⟩,
      h.connect i ⟨producer, grouping⟩⟩

/-! ### Calls in a row -/

theorem registeredNames_cons (call : PlanCall) (calls : List PlanCall) :
    registeredNames (call :: calls) = registeredNames [call] ++ registeredNames calls :=
  registeredNames_append [call] calls

/-- Calls that are taken add the names that they register. -/
theorem names_acceptAll {t' : Topology} {calls : List PlanCall}
    (h : PlanSink.acceptAll t calls = (.ok (), t')) :
    t'.names = t.names ++ registeredNames calls := by
  induction calls generalizing t with
  | nil =>
    cases h
    exact (List.append_nil _).symm
  | cons call calls ih =>
    obtain ⟨next, hcall, hcalls⟩ := PlanSink.acceptAll_cons_eq_ok h
    have hnext : next.names = t.names ++ registeredNames [call] := by
      cases call with
      | register name partitions unit =>
        obtain ⟨-, -, rfl⟩ := accept_register_eq_ok_iff.mp hcall
        exact names_push ..
      | wire consumer producer grouping =>
        obtain ⟨-, i, -, rfl⟩ := accept_wire_eq_ok_iff.mp hcall
        rw [names_connect]
        exact (List.append_nil _).symm
    rw [ih hcalls, hnext, registeredNames_cons call calls, List.append_assoc]

/-- **What a new topology takes, an occupied one takes as well, if it has none of the names.** -/
theorem Beside.acceptAll_of_free (hp : p.WellFormed) (h : p.Beside t u) {t' : Topology}
    {calls : List PlanCall} (hcalls : PlanSink.acceptAll t calls = (.ok (), t'))
    (hfree : ∀ name ∈ registeredNames calls, name ∉ p.names) :
    ∃ u', PlanSink.acceptAll u calls = (.ok (), u') ∧ p.Beside t' u' := by
  induction calls generalizing t u with
  | nil =>
    cases hcalls
    exact ⟨u, rfl, h⟩
  | cons call calls ih =>
    obtain ⟨next, hcall, hrest⟩ := PlanSink.acceptAll_cons_eq_ok hcalls
    simp only [registeredNames_cons call calls, List.mem_append, hp.mem_names_iff_position,
      not_not] at hfree ih
    obtain ⟨u', haccept, hbeside⟩ := h.accept hcall fun name hname => hfree name (.inl hname)
    rw [PlanSink.acceptAll, haccept]
    exact ih hbeside hrest fun name hname => hfree name (.inr hname)

/-- **The first name that an occupied topology has already is refused under that name.** -/
theorem Beside.acceptAll_of_taken (hp : p.WellFormed) (h : p.Beside t u) {t' : Topology}
    {calls : List PlanCall} (hcalls : PlanSink.acceptAll t calls = (.ok (), t')) {name : String}
    (hname : (registeredNames calls).find? p.names.contains = some name) :
    ∃ u', PlanSink.acceptAll u calls = (.error (.duplicateName name), u') := by
  induction calls generalizing t u with
  | nil => cases hname
  | cons call calls ih =>
    obtain ⟨next, hcall, hrest⟩ := PlanSink.acceptAll_cons_eq_ok hcalls
    rw [registeredNames_cons call calls, List.find?_append] at hname
    cases hfirst : (registeredNames [call]).find? p.names.contains with
    | none =>
      have hfree : ∀ other ∈ registeredNames [call], p.position? other = none := by
        intro other hother
        have hnot := List.find?_eq_none.mp hfirst other hother
        simpa [hp.mem_names_iff_position] using hnot
      obtain ⟨u', haccept, hbeside⟩ := h.accept hcall hfree
      rw [hfirst, Option.none_or] at hname
      rw [PlanSink.acceptAll, haccept]
      exact ih hbeside hrest hname
    | some first =>
      rw [hfirst, Option.some_or] at hname
      cases hname
      have htaken : p.position? name ≠ none := by
        have hmem := List.find?_some hfirst
        simpa [hp.mem_names_iff_position] using hmem
      cases call with
      | register first partitions unit =>
        cases List.mem_singleton.mp (List.mem_of_find?_eq_some hfirst)
        have hname : u.position? name ≠ none := by
          rw [h.position_eq]
          simp [htaken]
        refine ⟨u, ?_⟩
        rw [PlanSink.acceptAll, PlanSink.accept, register_of_taken hname]
        rfl
      | wire consumer producer grouping => cases hfirst

end Beside

end Topology

/-! ### Whole builds -/

namespace Pipeline

section Planned

variable {g : Pipeline} {terminals : List NodeId} {config : Config}

/-- A new topology takes the planned calls, also those of a build that fails. -/
theorem acceptAll_plannedCalls (g : Pipeline) (terminals : List NodeId) (config : Config) :
    ∃ t, PlanSink.acceptAll Topology.empty (g.plannedCalls terminals config) = (.ok (), t) := by
  have hlogged := g.delivered_run terminals (Logged.new Topology.empty) config
  rcases (Logged.new Topology.empty).acceptAll_cases (g.plannedCalls terminals config) with
    ⟨t, ht, -⟩ | ⟨before, after, call, e, t, -, -, hlog⟩
  · exact ⟨t, ht⟩
  · -- the refusal would stand at the end of the dialogue
    have hmem : (call, Except.error e) ∈ g.dialogue terminals Topology.empty config := by
      rw [dialogue, (hlogged.eq_of_error hlog).2]
      simp
    cases g.dialogue_accepted terminals config _ hmem

/-- What a new topology gets are the stages that the planned calls register. -/
theorem names_of_accepted {t : Topology}
    (ht : PlanSink.acceptAll Topology.empty (g.plannedCalls terminals config) = (.ok (), t)) :
    t.names = registeredNames (g.plannedCalls terminals config) := by
  rw [Topology.names_acceptAll ht]
  rfl

/-- Without a collision the builds into a new and into an occupied topology end in the same
way, side by side. -/
theorem buildPlan_fst_of_free {p t : Topology} (hp : p.WellFormed)
    (ht : PlanSink.acceptAll Topology.empty (g.plannedCalls terminals config) = (.ok (), t))
    (hfree : ∀ name ∈ t.names, name ∉ p.names) :
    ∃ u, p.Beside t u ∧ (g.buildPlan terminals p config).1 =
      (g.buildPlan terminals Topology.empty config).1.map fun _ => u := by
  rw [names_of_accepted ht] at hfree
  obtain ⟨u, hu, hbeside⟩ := p.beside_empty.acceptAll_of_free hp ht hfree
  refine ⟨u, hbeside, ?_⟩
  rw [buildPlan_fst_of_accepted ht, buildPlan_fst_of_accepted hu]
  cases (g.run terminals (heard []) config).1 <;> rfl

/-- A collision ends the build into an occupied topology, at the first name that is taken. -/
theorem buildPlan_fst_of_taken {p t : Topology} (hp : p.WellFormed)
    (ht : PlanSink.acceptAll Topology.empty (g.plannedCalls terminals config) = (.ok (), t))
    {name : String} (hname : t.names.find? p.names.contains = some name) :
    (g.buildPlan terminals p config).1 = .error (.duplicateName name) := by
  rw [names_of_accepted ht] at hname
  obtain ⟨u, hu⟩ := p.beside_empty.acceptAll_of_taken hp ht hname
  exact buildPlan_fst_of_refused hu

end Planned

end Pipeline

/-- **A build into a topology `p` that has stages**, whatever calls these were made by.  It
succeeds exactly if the build into a new topology succeeds and has no name of `p`.  Then the
stages of `p` stay as they are, and the stages of the build into a new topology come after
them, as they are but for the position.  If names collide, the build fails at the first one
of its names that `p` has. -/
theorem buildPlan_into_occupied (calls : List PlanCall) (g : Pipeline) (terminals : List NodeId)
    (config : Config) :
    ((∃ u, (g.buildPlan terminals (Topology.ofCalls calls) config).1 = .ok u) ↔
        ∃ t, (g.buildPlan terminals Topology.empty config).1 = .ok t ∧
          ∀ name ∈ t.names, name ∉ (Topology.ofCalls calls).names) ∧
      (∀ u, (g.buildPlan terminals (Topology.ofCalls calls) config).1 = .ok u →
        ∃ t, (g.buildPlan terminals Topology.empty config).1 = .ok t ∧
          u.stages = (Topology.ofCalls calls).stages ++
            t.stages.map (Stage.shift (Topology.ofCalls calls).size)) ∧
      ∀ t, (g.buildPlan terminals Topology.empty config).1 = .ok t →
        ∀ name, t.names.find? (Topology.ofCalls calls).names.contains = some name →
          (g.buildPlan terminals (Topology.ofCalls calls) config).1 =
            .error (.duplicateName name) := by
  have hp := Topology.wellFormed_ofCalls calls
  generalize Topology.ofCalls calls = p at hp ⊢
  obtain ⟨t₀, ht₀⟩ := g.acceptAll_plannedCalls terminals config
  have hnew : ∀ {t : Topology}, (g.buildPlan terminals Topology.empty config).1 = .ok t →
      t = t₀ := by
    intro t ht
    rw [Pipeline.buildPlan_fst_of_accepted ht₀] at ht
    obtain ⟨_, -, heq⟩ := Except.map_eq_ok_iff.mp ht
    exact heq.symm
  -- a build that succeeds has met no collision
  have hfree : ∀ {u : Topology}, (g.buildPlan terminals p config).1 = .ok u →
      ∀ name ∈ t₀.names, name ∉ p.names := by
    intro u hu
    cases hfind : t₀.names.find? p.names.contains with
    | none => simpa using List.find?_eq_none.mp hfind
    | some name => cases (Pipeline.buildPlan_fst_of_taken hp ht₀ hfind).symm.trans hu
  refine ⟨⟨?_, ?_⟩, ?_, ?_⟩
  · rintro ⟨u, hu⟩
    obtain ⟨u', -, heq⟩ := Pipeline.buildPlan_fst_of_free hp ht₀ (hfree hu)
    obtain ⟨t, ht, -⟩ := Except.map_eq_ok_iff.mp (heq.symm.trans hu)
    refine ⟨t, ht, ?_⟩
    rw [hnew ht]
    exact hfree hu
  · rintro ⟨t, ht, hnot⟩
    rw [hnew ht] at hnot
    obtain ⟨u, -, heq⟩ := Pipeline.buildPlan_fst_of_free hp ht₀ hnot
    rw [ht] at heq
    exact ⟨u, heq⟩
  · intro u hu
    obtain ⟨u', hbeside, heq⟩ := Pipeline.buildPlan_fst_of_free hp ht₀ (hfree hu)
    obtain ⟨t, ht, rfl⟩ := Except.map_eq_ok_iff.mp (heq.symm.trans hu)
    refine ⟨t, ht, ?_⟩
    rw [hnew ht]
    exact hbeside.stages_eq
  · intro t ht name hname
    rw [hnew ht] at hname
    exact Pipeline.buildPlan_fst_of_taken hp ht₀ hname

/-- A stage that reads itself. -/
def loopCalls : List PlanCall :=
  [.register "loop" 4 (.transform (.map Scalar.value)), .wire "loop" "loop" .shuffle]

/-- Two stages with names of the build of `Pipeline.diamond`, in the other order. -/
def clashCalls : List PlanCall :=
  [.register "join1" 4 (.transform (.map Scalar.value)),
    .register "left" 4 (.transform (.map Scalar.value))]

/-- The stages of `Pipeline.diamond` come after one that reads itself.  Where its join and
its map are both taken, the map is refused, as it is registered first. -/
theorem buildPlan_into_occupied_diamond :
    (∃ t u, (Pipeline.diamond.buildPlan [2] Topology.empty default).1 = .ok t ∧
        t.names = ["source1", "left", "join1"] ∧
        (Pipeline.diamond.buildPlan [2] (Topology.ofCalls loopCalls) default).1 = .ok u ∧
        u.stages = (Topology.ofCalls loopCalls).stages ++ t.stages.map (Stage.shift 1)) ∧
      (Pipeline.diamond.buildPlan [2] (Topology.ofCalls clashCalls) default).1 =
        .error (.duplicateName "left") := by
  have hnames : (Pipeline.diamond.buildPlan [2] Topology.empty default).1.map Topology.names =
      .ok ["source1", "left", "join1"] := by
    decide +kernel
  obtain ⟨t, ht, htnames⟩ := Except.map_eq_ok_iff.mp hnames
  obtain ⟨hok, hstages, -⟩ := buildPlan_into_occupied loopCalls Pipeline.diamond [2] default
  obtain ⟨-, -, hclash⟩ := buildPlan_into_occupied clashCalls Pipeline.diamond [2] default
  constructor
  · obtain ⟨u, hu⟩ := hok.mpr ⟨t, ht, by rw [htnames]; decide +kernel⟩
    obtain ⟨t', ht', heq⟩ := hstages u hu
    cases ht.symm.trans ht'
    exact ⟨t, u, ht, htnames, hu, heq⟩
  · apply hclash t ht
    rw [htnames]
    decide +kernel

end StreamPlan
