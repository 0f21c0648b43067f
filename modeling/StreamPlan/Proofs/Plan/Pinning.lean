import StreamPlan.Proofs.Plan.Failures
import StreamPlan.Proofs.Plan.Numbering

/-!
# Pinned names

A user who wants to keep the names that a build has given pins them: every node in
question is given the name that it reports.  From then on these names are checked and no
longer searched for.  This changes nothing for the next build, whichever of the nodes are
pinned.

Two things could go wrong.  A pinned name might be taken by the time its node comes up;
and a node that is not pinned might get another number, since searches that moved the
floors of a family are no longer made.  Neither happens.  The second build is compared
with the first node by node: as long as the same names are taken, a name that was found
free is free again, and a search that starts from another floor ends at the same number.

## Main definitions

* `Pipeline.pin`, `Pipeline.pinAll` — gives nodes the names they report.
* `Node.IsPinned`, `Pipeline.Pinned` — nodes that may have been pinned.
* `BuildSession.Retraces` — a session that has done what another one has.

## Main results

* `BuildSession.Retraces.build` — **a build that succeeds is retraced over pinned nodes.**
* `buildTopology_pinned` — **pinning names does not change the topology.**
-/

namespace StreamPlan

/-! ### Pinning -/

namespace Pipeline

/-- Gives a node the name that it reports.  The empty text stands for none, and is refused. -/
def pin (g : Pipeline) (i : NodeId) : Except PlanError Pipeline :=
  g.setName i ((g.nameOf? i).getD "")

/-- Pins nodes one after another. -/
def pinAll (g : Pipeline) (ids : List NodeId) : Except PlanError Pipeline := ids.foldlM pin g

/-- A node can be given any name that is not empty, and the others stay as they are. -/
theorem exists_setName {g : Pipeline} {i : NodeId} {n : Node} {name : String}
    (hnode : g.nodes[i]? = some n) (hname : name ≠ "") :
    ∃ g', g.setName i name = .ok g' ∧
      g'.nodes[i]? = some { n with userName := some name, assignedName := none } ∧
      ∀ j, j ≠ i → g'.nodes[j]? = g.nodes[j]? := by
  refine ⟨_, setName_eq_ok_iff.mpr ⟨hname, ⟨n, hnode⟩, rfl⟩, ?_, fun j hj => ?_⟩
  · rw [getElem?_nodes_update, if_pos rfl, hnode]
    rfl
  · rw [getElem?_nodes_update, if_neg (Ne.symm hj)]

end Pipeline

/-- The node `n` is as the user described `m`, but for its name, which may be `stage`. -/
structure Node.IsPinned (stage : Option String) (m n : Node) : Prop where
  kind_eq : n.kind = m.kind
  partitions_eq : n.partitions = m.partitions
  userName : n.userName = m.userName ∨ ∃ name, stage = some name ∧ n.userName = some name

namespace Node.IsPinned

variable {stage : Option String} {m n : Node}

theorem parents_eq (h : m.IsPinned stage n) : n.parents = m.parents := by
  unfold Node.parents
  rw [h.kind_eq]

theorem family_eq (h : m.IsPinned stage n) : n.family = m.family := by
  unfold Node.family
  rw [h.kind_eq]

theorem of_described {m' n' : Node} (h : m.IsPinned stage n) (hm : m'.described = m.described)
    (hn : n'.described = n.described) : m'.IsPinned stage n' where
  kind_eq := by
    rw [Node.kind_eq_of_described hm, Node.kind_eq_of_described hn]
    exact h.kind_eq
  partitions_eq := by
    rw [Node.partitions_eq_of_described hm, Node.partitions_eq_of_described hn]
    exact h.partitions_eq
  userName := by
    rw [Node.userName_eq_of_described hm, Node.userName_eq_of_described hn]
    exact h.userName

end Node.IsPinned

namespace Pipeline

/-- The nodes of `h` are those of `g`, and some may be pinned to the names of `stageName`. -/
def Pinned (stageName : NodeId → Option String) (g h : Pipeline) : Prop :=
  ∀ (i : NodeId) (m : Node), g.nodes[i]? = some m →
    ∃ n, h.nodes[i]? = some n ∧ m.IsPinned (stageName i) n

theorem pinned_of_described {g h : Pipeline} (hgh : h.described = g.described)
    (stageName : NodeId → Option String) : Pinned stageName g h := by
  intro i m hm
  obtain ⟨n, hn, hmn⟩ := exists_of_described hgh.symm hm
  exact ⟨n, hn, (Node.kind_eq_of_described hmn).symm, (Node.partitions_eq_of_described hmn).symm,
    .inl (Node.userName_eq_of_described hmn).symm⟩

theorem Pinned.of_described {stageName : NodeId → Option String} {g g' h h' : Pipeline}
    (hp : Pinned stageName g h) (hg : g'.described = g.described)
    (hh : h'.described = h.described) : Pinned stageName g' h' := by
  intro i m' hm'
  obtain ⟨m, hm, hmm⟩ := exists_of_described hg hm'
  obtain ⟨n, hn, hmn⟩ := hp i m hm
  obtain ⟨n', hn', hnn⟩ := exists_of_described hh.symm hn
  exact ⟨n', hn', hmn.of_described hmm hnn.symm⟩

/-- What is known while the nodes of `g` are being pinned to the names they report. -/
structure BeingPinned (stageName : NodeId → Option String) (g h : Pipeline) : Prop where
  wellFormed : h.WellFormed
  pinned : Pinned stageName g h
  /-- A node with a stage is there and reports its name, which is not empty. -/
  reports : ∀ (i : NodeId) (name : String), stageName i = some name →
    name ≠ "" ∧ g.has i = true ∧ h.nameOf? i = some name

/-- Pinning a node leaves the others as they are. -/
theorem BeingPinned.pin {stageName : NodeId → Option String} {g h : Pipeline}
    (hp : BeingPinned stageName g h) {i : NodeId} {name : String} (hi : stageName i = some name) :
    ∃ h', h.pin i = .ok h' ∧ BeingPinned stageName g h' ∧
      h'.nodes[i]?.bind Node.userName = some name ∧
      ∀ j, j ≠ i → h'.nodes[j]? = h.nodes[j]? := by
  obtain ⟨hne, hhas, hreports⟩ := hp.reports i name hi
  have hlt : i < g.nodes.size := of_decide_eq_true hhas
  obtain ⟨n, hn, hmn⟩ := hp.pinned i g.nodes[i] (Array.getElem?_eq_getElem hlt)
  obtain ⟨h', hset, hself, hother⟩ := exists_setName hn hne
  have hpin : h.pin i = .ok h' := by
    rw [Pipeline.pin, hreports]
    exact hset
  refine ⟨h', hpin, ⟨hp.wellFormed.setName hset, ?_, ?_⟩, ?_, hother⟩
  · intro j m hm
    by_cases hj : j = i
    · subst hj
      rw [Array.getElem?_eq_getElem hlt] at hm
      cases hm
      exact ⟨_, hself, hmn.kind_eq, hmn.partitions_eq, .inr ⟨name, hi, rfl⟩⟩
    · rw [hother j hj]
      exact hp.pinned j m hm
  · intro j other hj
    obtain ⟨hne', hhas', hreports'⟩ := hp.reports j other hj
    refine ⟨hne', hhas', ?_⟩
    by_cases heq : j = i
    · -- the node that is pinned reports the name it has been given
      subst heq
      rw [hi] at hj
      rw [nameOf?, hself]
      exact hj
    · rw [nameOf?, hother j heq]
      exact hreports'
  · rw [hself]
    rfl

/-- Nodes that have stages can be pinned. -/
theorem BeingPinned.pinAll {stageName : NodeId → Option String} {g h : Pipeline}
    (hp : BeingPinned stageName g h) {ids : List NodeId}
    (hids : ∀ i ∈ ids, ∃ name, stageName i = some name) :
    ∃ h', h.pinAll ids = .ok h' ∧ BeingPinned stageName g h' ∧
      ∀ i, i ∈ ids ∨ h.nodes[i]?.bind Node.userName = stageName i →
        h'.nodes[i]?.bind Node.userName = stageName i := by
  induction ids generalizing h with
  | nil => exact ⟨h, rfl, hp, fun i hi => by simpa using hi⟩
  | cons t ts ih =>
    obtain ⟨name, hname⟩ := hids t List.mem_cons_self
    obtain ⟨h₁, hpin, hp₁, hself, hother⟩ := hp.pin hname
    obtain ⟨h', hall, hp', hdone⟩ := ih hp₁ fun i hi => hids i (List.mem_cons_of_mem t hi)
    refine ⟨h', ?_, hp', fun i hi => hdone i ?_⟩
    · show (t :: ts).foldlM Pipeline.pin h = .ok h'
      rw [List.foldlM_cons, hpin]
      exact hall
    · by_cases heq : i = t
      · rw [heq, hself, hname]
        exact .inr rfl
      · rw [hother i heq]
        simpa [heq] using hi

end Pipeline

/-! ### Retracing a build -/

/-- Names that stages may have are not empty. -/
theorem Node.MayBeCalled.ne_empty {i : NodeId} {n : Node} {name : String} (h : n.MayBeCalled name)
    (hwf : n.WellFormed i) : name ≠ "" := by
  unfold Node.MayBeCalled at h
  cases huser : n.userName with
  | some given =>
    rw [huser] at h
    rintro rfl
    exact hwf.userName_ne_empty (huser.trans (congrArg some h.symm))
  | none =>
    rw [huser] at h
    obtain ⟨k, -, rfl⟩ := h
    intro hempty
    have htext := congrArg String.toList hempty
    simp [StageNames.numbered, Nat.toDigits_ne_nil] at htext

namespace BuildSession

variable {σ : Type}

/-- The session `t` has done what the session `s` has, over nodes some of which are pinned to
the names of `stageName`.  The floors of the names may differ. -/
structure Retraces (stageName : NodeId → Option String) (s t : BuildSession σ) : Prop where
  pinned : s.pipeline.Pinned stageName t.pipeline
  left_wellFormed : s.pipeline.WellFormed
  right_wellFormed : t.pipeline.WellFormed
  sink_eq : t.sink = s.sink
  config_eq : t.config = s.config
  built_eq : t.built = s.built
  taken_eq : t.names.taken = s.names.taken
  left_floors : s.names.FloorsHold
  right_floors : t.names.FloorsHold

section Retraces

variable {stageName : NodeId → Option String} {s t : BuildSession σ}

/-- A node that gets the name it is pinned to gets it again, pinned or not. -/
theorem Retraces.resolveName_eq (h : Retraces stageName s t) {i : NodeId} {m n : Node}
    (hmn : m.IsPinned (stageName i) n) (hname : stageName i = some (s.resolveName m).1) :
    (t.resolveName n).1 = (s.resolveName m).1 := by
  rcases hmn.userName with hsame | ⟨name, hstage, hgiven⟩
  · unfold resolveName
    rw [hsame, hmn.family_eq]
    cases m.userName with
    | some given => rfl
    | none =>
      -- searches from different floors end at the same number
      have hserve := h.left_floors.serve_congr h.right_floors h.taken_eq
        (.allocate m.family.label)
      exact Except.ok.inj hserve.1
  · rw [hname] at hstage
    rw [Option.some.inj hstage, resolveName, hgiven]

theorem Retraces.wiring_eq (h : Retraces stageName s t) {i : NodeId} {m n : Node}
    (hmn : m.IsPinned (stageName i) n) : t.wiring i n = s.wiring i m := by
  unfold wiring stageOf
  rw [hmn.kind_eq, h.built_eq, h.config_eq]

theorem Retraces.contains_eq (h : Retraces stageName s t) (name : String) :
    t.names.contains name = s.names.contains name := by
  unfold StageNames.contains
  rw [h.taken_eq]

variable [PlanSink σ]

/-- Recording a node under the name it had retraces the session that recorded it. -/
theorem Retraces.recorded (h : Retraces stageName s t) {i : NodeId} {m n : Node}
    (hmn : m.IsPinned (stageName i) n) (hname : (t.resolveName n).1 = (s.resolveName m).1)
    (unit : StageUnit) (inputs : List InputEdge) :
    Retraces stageName (s.recorded i m unit inputs) (t.recorded i n unit inputs) := by
  have hleft : (s.recorded i m unit inputs).pipeline.described = s.pipeline.described :=
    Pipeline.described_assignName ..
  have hright : (t.recorded i n unit inputs).pipeline.described = t.pipeline.described :=
    Pipeline.described_assignName ..
  have htaken : ∀ (s : BuildSession σ) (n : Node), (s.resolveName n).2.taken = s.names.taken := by
    intro s n
    unfold resolveName
    cases n.userName <;> rfl
  constructor
  case pinned => exact h.pinned.of_described hleft hright
  case left_wellFormed => exact h.left_wellFormed.of_described hleft
  case right_wellFormed => exact h.right_wellFormed.of_described hright
  case sink_eq => simp only [BuildSession.recorded, h.sink_eq, hname, hmn.partitions_eq]
  case config_eq => exact h.config_eq
  case built_eq => simp only [BuildSession.recorded, h.built_eq, hname]
  case taken_eq =>
    simp only [BuildSession.recorded, StageNames.insert, htaken, h.taken_eq, hname]
  case left_floors => exact (floorsHold_resolveName h.left_floors m).insert _
  case right_floors => exact (floorsHold_resolveName h.right_floors n).insert _

/-- **A lowering that succeeds is retraced.** -/
theorem Retraces.lower (h : Retraces stageName s t) {i : NodeId} {name : String}
    {s' : BuildSession σ} (hlower : s.lower i = (.ok name, s'))
    (hstages : ∀ j stage, s'.stageName? j = some stage → stageName j = some stage) :
    ∃ t', t.lower i = (.ok name, t') ∧ Retraces stageName s' t' := by
  obtain ⟨m, unit, inputs, hm, hwiring, hfree, hallows, hsent, rfl, rfl⟩ :=
    recorded_of_lower hlower
  obtain ⟨n, hn, hmn⟩ := h.pinned i m hm
  have hstage : stageName i = some (s.resolveName m).1 := by
    apply hstages
    rw [stageName?, getElem?_built_recorded, if_pos rfl]
  have hname := h.resolveName_eq hmn hstage
  have hwiring' : t.wiring i n = .ok (unit, inputs) := (h.wiring_eq hmn).trans hwiring
  have hfree' : t.names.contains (t.resolveName n).1 = false := by
    rw [h.contains_eq, hname, hfree]
  have hallows' : t.allows n.partitions = true := by
    rw [allows, h.config_eq, hmn.partitions_eq]
    exact hallows
  refine ⟨t.recorded i n unit inputs, ?_, h.recorded hmn hname unit inputs⟩
  rw [Lowered.lower_eq (.recorded hn hwiring' hfree' hallows'), hname, hmn.partitions_eq, h.sink_eq,
    hsent]
  rfl

/-- Builds in a row that succeed are retraced if each of them is. -/
theorem Retraces.buildAll {ps : List NodeId}
    (hbuild : ∀ p ∈ ps, ∀ (s t s' : BuildSession σ) (name : String), Retraces stageName s t →
      s.build p = (.ok name, s') →
      (∀ j stage, s'.stageName? j = some stage → stageName j = some stage) →
      ∃ t', t.build p = (.ok name, t') ∧ Retraces stageName s' t')
    (h : Retraces stageName s t) {s' : BuildSession σ} (hall : s.buildAll ps = (.ok (), s'))
    (hstages : ∀ j stage, s'.stageName? j = some stage → stageName j = some stage) :
    ∃ t', t.buildAll ps = (.ok (), t') ∧ Retraces stageName s' t' := by
  induction ps generalizing s t with
  | nil =>
    cases hall
    exact ⟨t, rfl, h⟩
  | cons p ps ih =>
    rw [buildAll_cons] at hall
    rcases hfirst : s.build p with ⟨e | name, s₁⟩
    · rw [hfirst, andThen_error] at hall
      cases hall
    · rw [hfirst, andThen_ok] at hall
      -- stages are kept, so those of the first build are among the last ones
      have hkept : ∀ j stage, s₁.stageName? j = some stage → stageName j = some stage := by
        intro j stage hj
        apply hstages
        have hafter : s₁.After (s₁.buildAll ps).2 := After.refl.buildAll ps
        rw [hall] at hafter
        exact hafter.stageName? hj
      obtain ⟨t₁, hfirst', h₁⟩ := hbuild p List.mem_cons_self s t s₁ name h hfirst hkept
      rw [buildAll_cons, hfirst', andThen_ok]
      exact ih (fun q hq => hbuild q (List.mem_cons_of_mem p hq)) h₁ hall

end Retraces

variable [PlanSink σ] {stageName : NodeId → Option String}

/-- **A build that succeeds is retraced over pinned nodes.**  The induction is on the
position of the node: its parents have smaller ones. -/
theorem Retraces.build (i : Nat) : ∀ (s t s' : BuildSession σ) (name : String),
    Retraces stageName s t → s.build i = (.ok name, s') →
      (∀ j stage, s'.stageName? j = some stage → stageName j = some stage) →
      ∃ t', t.build i = (.ok name, t') ∧ Retraces stageName s' t' := by
  induction i using Nat.strong_induction_on with
  | _ i ih =>
    intro s t s' name h hbuild hstages
    cases hm : s.pipeline.nodes[i]? with
    | none =>
      rw [build_of_unknown hm] at hbuild
      cases hbuild
    | some m =>
      obtain ⟨n, hn, hmn⟩ := h.pinned i m hm
      have hsame : t.stageName? i = s.stageName? i := by rw [stageName?, h.built_eq, stageName?]
      cases hname : s.stageName? i with
      | some stage =>
        rw [build_of_built h.left_wellFormed hm hname] at hbuild
        cases hbuild
        exact ⟨t, build_of_built h.right_wellFormed hn (hsame.trans hname), h⟩
      | none =>
        rw [build_eq_andThen h.left_wellFormed hm hname] at hbuild
        rcases hall : s.buildAll m.parents with ⟨e | ⟨⟩, s₁⟩
        · rw [hall, andThen_error] at hbuild
          cases hbuild
        · rw [hall, andThen_ok] at hbuild
          obtain ⟨m', hready⟩ := ready_of_buildAll h.left_wellFormed hm hname hall
          have hkept : ∀ j stage, s₁.stageName? j = some stage → stageName j = some stage := by
            intro j stage hj
            apply hstages
            have hlowered := stageName?_lower hready.new hj
            rw [hbuild] at hlowered
            exact hlowered
          obtain ⟨t₁, hall', h₁⟩ := Retraces.buildAll
            (fun p hp => ih p ((h.left_wellFormed.node i m hm).parents_lt p hp)) h hall hkept
          rw [build_eq_andThen h.right_wellFormed hn (hsame.trans hname), hmn.parents_eq, hall',
            andThen_ok]
          exact h₁.lower hbuild hstages

end BuildSession

/-! ### Whole builds -/

/-- A run that succeeds is retraced over nodes that are pinned to its stages. -/
theorem Pipeline.Pinned.run {σ : Type} [PlanSink σ] {g h : Pipeline} (hg : g.WellFormed)
    (hh : h.WellFormed) {terminals : List NodeId} {sink : σ} {config : Config}
    (hok : (g.run terminals sink config).1 = .ok ())
    (hp : Pinned (g.run terminals sink config).2.stageName? g h) :
    ∃ t, h.run terminals sink config = (.ok (), t) ∧
      BuildSession.Retraces (g.run terminals sink config).2.stageName?
        (g.run terminals sink config).2 t := by
  obtain ⟨hvalid, hbuild⟩ := buildAll_of_run hok
  have hfresh : BuildSession.Retraces (g.run terminals sink config).2.stageName?
      (.fresh g sink config) (.fresh h sink config) :=
    ⟨hp, hg, hh, rfl, rfl, rfl, rfl, StageNames.floorsHold_empty, StageNames.floorsHold_empty⟩
  obtain ⟨t, ht, hretraces⟩ := BuildSession.Retraces.buildAll
    (fun p _ => BuildSession.Retraces.build p) hfresh hbuild fun _ _ hj => hj
  refine ⟨t, ?_, hretraces⟩
  rw [Pipeline.run, hvalid]
  exact ht

/-- **Pinning names does not change the topology.**  After a build that succeeds, any of the
nodes upstream of its end nodes can be pinned to the names they report, in any order; the
next build of the same end nodes succeeds with the same topology, and every node reports the
name that it did. -/
theorem buildTopology_pinned {g g' : Pipeline} (hg : g.Reachable) {terminals : List NodeId}
    {config : Config} {t : Topology} (h : g.buildTopology terminals config = (.ok t, g'))
    {ids : List NodeId} (hids : ∀ i ∈ ids, g.UpstreamOfAny terminals i) :
    ∃ pinned g'', g'.pinAll ids = .ok pinned ∧
      (∀ i ∈ ids, ∃ name, g'.nameOf? i = some name ∧
        pinned.nodes[i]?.bind Node.userName = some name) ∧
      pinned.buildTopology terminals config = (.ok t, g'') ∧
      ∀ i, g.UpstreamOfAny terminals i → g''.nameOf? i = g'.nameOf? i := by
  rw [Pipeline.buildTopology_eq_buildPlan, Pipeline.buildPlan_eq_run, Prod.mk.injEq] at h
  obtain ⟨hanswer, rfl⟩ := h
  obtain ⟨⟨⟩, hok, rfl⟩ := Except.map_eq_ok_iff.mp hanswer
  set s := (g.run terminals Topology.empty config).2
  have hs : s.Coherent g := (g.mirrored_run terminals config).1
  have hstage : ∀ i, g.UpstreamOfAny terminals i → ∃ name, s.stageName? i = some name :=
    fun i hi => BuildSession.contains_built_iff.mp
      ((BuildSession.contains_built_iff_upstream (Pipeline.buildAll_of_run hok).2).mpr hi)
  have hfirst : Pipeline.BeingPinned s.stageName? g s.pipeline := by
    refine ⟨hg.wellFormed.of_described hs.described_eq,
      Pipeline.pinned_of_described hs.described_eq _, fun i name hi => ?_⟩
    obtain ⟨n, hn, hcalled, -⟩ := hs.entry i name hi
    exact ⟨hcalled.ne_empty (hg.wellFormed.node i n hn), Pipeline.has_of_node hn,
      hs.reported i name hi⟩
  obtain ⟨pinned, hpin, hpinned, hdone⟩ := hfirst.pinAll fun i hi => hstage i (hids i hi)
  obtain ⟨t, hrun, hretraces⟩ := hpinned.pinned.run hg.wellFormed hpinned.wellFormed hok
  refine ⟨pinned, t.pipeline, hpin, fun i hi => ?_, ?_, fun i hi => ?_⟩
  · obtain ⟨name, hname⟩ := hstage i (hids i hi)
    refine ⟨name, hs.reported i name hname, ?_⟩
    rw [hdone i (.inl hi), hname]
  · rw [Pipeline.buildTopology_eq_buildPlan, Pipeline.buildPlan_eq_run, hrun, hretraces.sink_eq]
    rfl
  · obtain ⟨name, hname⟩ := hstage i hi
    have hcoherent : t.Coherent pinned := by
      have hmirrored := pinned.mirrored_run terminals config
      rw [hrun] at hmirrored
      exact hmirrored.1
    have hsame : t.stageName? i = some name := by
      rw [BuildSession.stageName?, hretraces.built_eq]
      exact hname
    rw [hcoherent.reported i name hsame, hs.reported i name hname]

/-- The last map of `Pipeline.skipping` and the one with a name are pinned; the map between
them gets its number again. -/
theorem buildTopology_pinned_skipping :
    Pipeline.skipping.Reachable ∧
    ∃ t g', Pipeline.skipping.buildTopology [3] default = (.ok t, g') ∧
      ∃ pinned g'', g'.pinAll [3, 1] = .ok pinned ∧
        pinned.buildTopology [3] default = (.ok t, g'') := by
  have h32 : Pipeline.skipping.HasParent 3 2 := ⟨_, rfl, by decide⟩
  have h21 : Pipeline.skipping.HasParent 2 1 := ⟨_, rfl, by decide⟩
  have hids : ∀ i ∈ [3, 1], Pipeline.skipping.UpstreamOfAny [3] i := by
    intro i hi
    simp only [List.mem_cons, List.not_mem_nil, or_false] at hi
    rcases hi with rfl | rfl
    · exact ⟨3, by simp, .refl⟩
    · exact ⟨3, by simp, .tail (.single h32) h21⟩
  have hok : (Pipeline.skipping.buildTopology [3] default).1.isOk = true := by decide +kernel
  obtain ⟨t, g', hbuild⟩ := Except.exists_ok_of_isOk hok
  obtain ⟨pinned, g'', hpin, -, hagain, -⟩ :=
    buildTopology_pinned Pipeline.reachable_skipping hbuild hids
  exact ⟨Pipeline.reachable_skipping, t, g', hbuild, pinned, g'', hpin, hagain⟩

end StreamPlan
