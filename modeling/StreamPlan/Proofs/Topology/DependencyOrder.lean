import Mathlib.Data.List.Basic
import Mathlib.Logic.Relation
import StreamPlan.Proofs.Topology.Growth

/-!
# The order check, exactly

The second check of a topology goes through the stages and carries a set of names.  A user
of the topology asks for positions instead.  The two agree because the index of a topology
gives the position of every name, whatever calls the topology was made by.

So the check can be described by positions alone: it passes if every edge comes from an
earlier position, and otherwise it reports the first edge that does not.

## Main definitions

* `Topology.ComesEarlier` — an edge comes from an earlier position.
* `Topology.FirstStray` — the first edge, stage by stage, that does not.
* `Topology.ReadsFrom` — a stage has an edge from another one.

## Main results

* `Topology.dependencyOrderFrom_eq_error_iff` — **the check reports the first stray edge.**
* `Topology.WellFormed.acyclic` — stages whose edges come from earlier positions do not read
  from themselves, not even through others.
* `Topology.checkDependencyOrder_exact` — **the check passes exactly if every edge comes from
  an earlier position, and reports the first one that does not.**
-/

namespace StreamPlan
namespace Topology

/-! ### The first stray edge -/

/-- The edge `e` to the stage `s` at position `i` is the first one, stage by stage, whose
producer is not known: `known j name` says that `name` is known to the stage at `j`. -/
structure FirstStray (known : Nat → String → Prop) (stages : List Stage) (i : Nat) (s : Stage)
    (e : InputEdge) : Prop where
  stage : stages[i]? = some s
  /-- No stage before has a stray edge. -/
  earlier : ∀ (j : Nat) (s' : Stage), j < i → stages[j]? = some s' → ∀ e' ∈ s'.inputs,
    known j e'.producer
  /-- No input of the stage before this one is stray. -/
  edge : ∃ before after, s.inputs = before ++ e :: after ∧ ∀ e' ∈ before, known i e'.producer
  stray : ¬ known i e.producer

section FirstStray

variable {seen : Std.TreeSet String} {s s' : Stage} {rest : List Stage} {e : InputEdge} {i : Nat}

/-- A stray edge to the first stage is found among its inputs. -/
theorem firstStray_zero_iff :
    FirstStray (KnownFrom seen (s :: rest)) (s :: rest) 0 s' e ↔
      s = s' ∧ s.inputs.find? (fun e => !seen.contains e.producer) = some e := by
  rw [List.find?_eq_some_iff_append]
  simp only [Bool.not_eq_true', Bool.not_not, ← Bool.not_eq_true]
  constructor
  · rintro ⟨hstage, -, ⟨before, after, hinputs, hbefore⟩, hstray⟩
    cases hstage
    simp only [knownFrom_zero_iff] at hbefore hstray
    exact ⟨rfl, hstray, before, after, hinputs, hbefore⟩
  · rintro ⟨rfl, hstray, before, after, hinputs, hbefore⟩
    refine ⟨rfl, ?_, ⟨before, after, hinputs, ?_⟩, ?_⟩
    · intro j s' hj
      omega
    · intro e' he'
      exact knownFrom_zero_iff.mpr (hbefore e' he')
    · rw [knownFrom_zero_iff]
      exact hstray

/-- A stray edge to a later stage comes after a first stage without one. -/
theorem firstStray_succ_iff :
    FirstStray (KnownFrom seen (s :: rest)) (s :: rest) (i + 1) s' e ↔
      (∀ e' ∈ s.inputs, seen.contains e'.producer = true) ∧
        FirstStray (KnownFrom (seen.insert s.name) rest) rest i s' e := by
  constructor
  · rintro ⟨hstage, hearlier, ⟨before, after, hinputs, hbefore⟩, hstray⟩
    simp only [knownFrom_succ_iff] at hbefore hstray
    refine ⟨?_, hstage, ?_, ⟨before, after, hinputs, hbefore⟩, hstray⟩
    · intro e' he'
      exact knownFrom_zero_iff.mp (hearlier 0 s (by omega) rfl e' he')
    · intro j s'' hj hs'' e' he'
      exact knownFrom_succ_iff.mp (hearlier (j + 1) s'' (by omega) hs'' e' he')
  · rintro ⟨hfirst, hstage, hearlier, ⟨before, after, hinputs, hbefore⟩, hstray⟩
    simp only [← knownFrom_succ_iff] at hbefore hstray
    refine ⟨hstage, ?_, ⟨before, after, hinputs, hbefore⟩, hstray⟩
    intro j s'' hj hs'' e' he'
    cases j with
    | zero =>
      cases hs''
      exact knownFrom_zero_iff.mpr (hfirst e' he')
    | succ j => exact knownFrom_succ_iff.mpr (hearlier j s'' (by omega) hs'' e' he')

end FirstStray

/-- What the check says of a stray edge. -/
def strayReport (s : Stage) (e : InputEdge) : PlanError :=
  .invariant ("stage " ++ s.name ++ " reads from " ++ e.producer ++ " before it is registered")

/-- **The check reports the first stray edge.** -/
theorem dependencyOrderFrom_eq_error_iff (seen : Std.TreeSet String) (stages : List Stage)
    (reason : PlanError) :
    dependencyOrderFrom seen stages = .error reason ↔
      ∃ i s e, FirstStray (KnownFrom seen stages) stages i s e ∧ reason = strayReport s e := by
  induction stages generalizing seen with
  | nil =>
    constructor
    · intro h
      cases h
    · rintro ⟨i, s, e, hstray, -⟩
      cases hstray.stage
  | cons s rest ih =>
    rw [dependencyOrderFrom]
    cases hfind : s.inputs.find? fun e => !seen.contains e.producer with
    | some e =>
      constructor
      · intro h
        cases h
        exact ⟨0, s, e, firstStray_zero_iff.mpr ⟨rfl, hfind⟩, rfl⟩
      · rintro ⟨i, s', e', hstray, rfl⟩
        cases i with
        | zero =>
          obtain ⟨rfl, hfind'⟩ := firstStray_zero_iff.mp hstray
          cases hfind.symm.trans hfind'
          rfl
        | succ i =>
          -- the first stage would have no stray edge, but `e` is one
          have hseen := (firstStray_succ_iff.mp hstray).1 e (List.mem_of_find?_eq_some hfind)
          have hunseen := List.find?_some hfind
          simp [hseen] at hunseen
    | none =>
      have hfirst : ∀ e ∈ s.inputs, seen.contains e.producer = true := by
        intro e he
        simpa using List.find?_eq_none.mp hfind e he
      dsimp only
      rw [ih]
      constructor
      · rintro ⟨i, s', e, hstray, hreason⟩
        exact ⟨i + 1, s', e, firstStray_succ_iff.mpr ⟨hfirst, hstray⟩, hreason⟩
      · rintro ⟨i, s', e, hstray, hreason⟩
        cases i with
        | zero =>
          rw [firstStray_zero_iff, hfind] at hstray
          cases hstray.2
        | succ i => exact ⟨i, s', e, (firstStray_succ_iff.mp hstray).2, hreason⟩

/-! ### Positions -/

/-- The producer of an edge to the stage at position `i` has an earlier position. -/
def ComesEarlier (t : Topology) (i : Nat) (producer : String) : Prop :=
  ∃ j, t.position? producer = some j ∧ j < i

/-- The names that the check has seen when it comes to a position are those with an earlier
position. -/
theorem WellFormed.knownFrom_iff {t : Topology} (h : t.WellFormed) (i : Nat) (name : String) :
    KnownFrom ∅ t.stages.toList i name ↔ t.ComesEarlier i name := by
  simp only [KnownFrom, Std.TreeSet.contains_emptyc, Bool.false_eq_true, false_or,
    Array.getElem?_toList, ComesEarlier, position?, h.position]
  constructor
  · rintro ⟨j, s, hj, hs, hname⟩
    exact ⟨j, ⟨s, hs, hname⟩, hj⟩
  · rintro ⟨j, ⟨s, hs, hname⟩, hj⟩
    exact ⟨j, s, hj, hs, hname⟩

/-- Every edge comes from an earlier position. -/
def EdgesComeEarlier (t : Topology) : Prop :=
  ∀ (i : Nat) (s : Stage), t.stages[i]? = some s → ∀ e ∈ s.inputs, t.ComesEarlier i e.producer

theorem WellFormed.checkDependencyOrder_eq_ok_iff {t : Topology} (h : t.WellFormed) :
    t.checkDependencyOrder = .ok () ↔ t.EdgesComeEarlier := by
  have hknown : InOrderFrom ∅ t.stages.toList ↔ ∀ (i : Nat) (s : Stage),
      t.stages.toList[i]? = some s → ∀ e ∈ s.inputs,
        KnownFrom ∅ t.stages.toList i e.producer := Iff.rfl
  rw [checkDependencyOrder, dependencyOrderFrom_eq_ok_iff, hknown]
  simp only [h.knownFrom_iff, Array.getElem?_toList]
  rfl

theorem WellFormed.checkDependencyOrder_eq_error_iff {t : Topology} (h : t.WellFormed)
    (reason : PlanError) :
    t.checkDependencyOrder = .error reason ↔
      ∃ i s e, FirstStray t.ComesEarlier t.stages.toList i s e ∧ reason = strayReport s e := by
  have hknown : KnownFrom ∅ t.stages.toList = t.ComesEarlier := by
    funext i name
    exact propext (h.knownFrom_iff i name)
  rw [checkDependencyOrder, dependencyOrderFrom_eq_error_iff, hknown]

/-! ### Cycles -/

/-- A stage has an edge from another one. -/
def ReadsFrom (t : Topology) (reader producer : String) : Prop :=
  ∃ s ∈ t.stages, s.name = reader ∧ ∃ e ∈ s.inputs, e.producer = producer

/-- Along edges from earlier positions, positions go down. -/
theorem WellFormed.position_lt_of_readsFrom {t : Topology} (h : t.WellFormed)
    (hearlier : t.EdgesComeEarlier) {reader producer : String}
    (hreads : t.ReadsFrom reader producer) {i : Nat} (hi : t.position? reader = some i) :
    ∃ j, t.position? producer = some j ∧ j < i := by
  obtain ⟨s, hs, rfl, e, he, rfl⟩ := hreads
  obtain ⟨k, hk⟩ := Array.getElem?_of_mem hs
  have hpos : t.position? s.name = some k := (h.position s.name k).mpr ⟨s, hk, rfl⟩
  cases hpos.symm.trans hi
  exact hearlier i s hk e he

/-- A stage does not read from itself, not even through others, if every edge comes from an
earlier position. -/
theorem WellFormed.acyclic {t : Topology} (h : t.WellFormed) (hearlier : t.EdgesComeEarlier)
    (name : String) : ¬ Relation.TransGen t.ReadsFrom name name := by
  -- a path of edges leads from a position to an earlier one
  have hdown : ∀ {reader producer : String}, Relation.TransGen t.ReadsFrom reader producer →
      ∀ i, t.position? reader = some i → ∃ j, t.position? producer = some j ∧ j < i := by
    intro reader producer hpath i hi
    induction hpath with
    | single hreads => exact h.position_lt_of_readsFrom hearlier hreads hi
    | tail _ hreads ih =>
      obtain ⟨j, hj, hji⟩ := ih
      obtain ⟨k, hk, hkj⟩ := h.position_lt_of_readsFrom hearlier hreads hj
      exact ⟨k, hk, by omega⟩
  intro hcycle
  obtain ⟨middle, ⟨s, hs, hname, -⟩, -⟩ := Relation.TransGen.head'_iff.mp hcycle
  obtain ⟨i, hi⟩ := Array.getElem?_of_mem hs
  have hpos : t.position? name = some i := (h.position name i).mpr ⟨s, hi, hname⟩
  obtain ⟨j, hj, hji⟩ := hdown hcycle i hpos
  rw [hpos, Option.some.injEq] at hj
  omega

/-! ### The check -/

/-- **The order check is exact**, whatever calls a topology was made by.  It passes exactly if
every edge comes from an earlier position, and then no stage reads from itself, not even
through others.  It fails with the report of an edge exactly if this is the first stray edge:
no earlier stage has one, and none stands before it among the inputs of its stage. -/
theorem checkDependencyOrder_exact (calls : List PlanCall) :
    ((ofCalls calls).checkDependencyOrder = .ok () ↔
        ∀ (i : Nat) (s : Stage), (ofCalls calls).stages[i]? = some s → ∀ e ∈ s.inputs,
          ∃ j, (ofCalls calls).position? e.producer = some j ∧ j < i) ∧
      ((ofCalls calls).checkDependencyOrder = .ok () →
        ∀ name, ¬ Relation.TransGen (ofCalls calls).ReadsFrom name name) ∧
      ∀ reason, (ofCalls calls).checkDependencyOrder = .error reason ↔
        ∃ i s e, FirstStray (ofCalls calls).ComesEarlier (ofCalls calls).stages.toList i s e ∧
          reason = .invariant
            ("stage " ++ s.name ++ " reads from " ++ e.producer ++ " before it is registered") := by
  have hwell := wellFormed_ofCalls calls
  refine ⟨hwell.checkDependencyOrder_eq_ok_iff, ?_, hwell.checkDependencyOrder_eq_error_iff⟩
  intro hok
  exact hwell.acyclic (hwell.checkDependencyOrder_eq_ok_iff.mp hok)

/-- Three stages that read from earlier ones. -/
def forward : List PlanCall :=
  [.register "a" 1 (.transform .repartition), .register "b" 1 (.transform .repartition),
    .register "c" 1 (.transform .repartition), .wire "b" "a" .shuffle, .wire "c" "a" .shuffle,
    .wire "c" "b" .shuffle]

/-- The same with edges of two stages from themselves, and one that goes back. -/
def crossed : List PlanCall :=
  forward ++ [.wire "c" "c" .shuffle, .wire "b" "c" .shuffle, .wire "b" "b" .shuffle]

/-- The stages of `forward` pass.  In `crossed` the first stray edge is the second one of the
stage `b`. -/
theorem checkDependencyOrder_exact_crossed :
    (ofCalls forward).checkDependencyOrder = .ok () ∧
      (∀ name, ¬ Relation.TransGen (ofCalls forward).ReadsFrom name name) ∧
      (ofCalls crossed).checkDependencyOrder =
        .error (.invariant "stage b reads from c before it is registered") ∧
      ∃ i s e, FirstStray (ofCalls crossed).ComesEarlier (ofCalls crossed).stages.toList i s e ∧
        PlanError.invariant "stage b reads from c before it is registered" = .invariant
          ("stage " ++ s.name ++ " reads from " ++ e.producer ++ " before it is registered") := by
  have hpasses : (ofCalls forward).checkDependencyOrder = .ok () := by decide +kernel
  have hfails : (ofCalls crossed).checkDependencyOrder =
      .error (.invariant "stage b reads from c before it is registered") := by decide +kernel
  exact ⟨hpasses, (checkDependencyOrder_exact forward).2.1 hpasses, hfails,
    ((checkDependencyOrder_exact crossed).2.2 _).mp hfails⟩

end Topology
end StreamPlan
