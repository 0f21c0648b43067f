import StreamPlan.Topology.Check

/-!
# What the checks of a topology accept

Both checks go through the stages once and carry the names seen so far.  What they
accept is said here in terms of the list of stages alone.

## Main definitions

* `Topology.KnownFrom` — what the second check has seen when it comes to a stage.
* `Topology.InOrder` — every edge comes from a stage that was registered earlier.

## Main results

* `Topology.checkUniqueNames_eq_ok_iff` — **no name occurs twice.**
* `Topology.checkDependencyOrder_eq_ok_iff` — **every edge comes from an earlier stage.**
-/

namespace StreamPlan
namespace Topology

theorem contains_insert_eq_true_iff {seen : Std.TreeSet String} {name other : String} :
    (seen.insert name).contains other = true ↔ name = other ∨ seen.contains other = true := by
  simp [Std.TreeSet.contains_insert]

theorem contains_insert_eq_false_iff {seen : Std.TreeSet String} {name other : String} :
    (seen.insert name).contains other = false ↔ name ≠ other ∧ seen.contains other = false := by
  simp [Std.TreeSet.contains_insert]

theorem uniqueNamesFrom_eq_ok_iff (seen : Std.TreeSet String) (stages : List Stage) :
    uniqueNamesFrom seen stages = .ok () ↔
      (∀ s ∈ stages, seen.contains s.name = false) ∧ (stages.map Stage.name).Nodup := by
  induction stages generalizing seen with
  | nil => simp [uniqueNamesFrom]
  | cons s rest ih =>
    rw [uniqueNamesFrom]
    by_cases hseen : seen.contains s.name = true
    · simp [hseen]
    · rw [if_neg hseen, ih, List.map_cons, List.nodup_cons]
      rw [Bool.not_eq_true] at hseen
      constructor
      · rintro ⟨hfree, hnodup⟩
        refine ⟨fun s' hs' => ?_, fun hmem => ?_, hnodup⟩
        · rcases List.mem_cons.mp hs' with rfl | hs'
          · exact hseen
          · exact (contains_insert_eq_false_iff.mp (hfree s' hs')).2
        · obtain ⟨s', hs', heq⟩ := List.mem_map.mp hmem
          exact (contains_insert_eq_false_iff.mp (hfree s' hs')).1 heq.symm
      · rintro ⟨hfree, hnot, hnodup⟩
        refine ⟨fun s' hs' => contains_insert_eq_false_iff.mpr ⟨fun heq => hnot ?_, ?_⟩, hnodup⟩
        · rw [heq]
          exact List.mem_map_of_mem hs'
        · exact hfree s' (List.mem_cons_of_mem s hs')

/-- **The first check accepts exactly the topologies in which no name occurs twice.** -/
theorem checkUniqueNames_eq_ok_iff (t : Topology) :
    t.checkUniqueNames = .ok () ↔ t.names.Nodup := by
  rw [checkUniqueNames, uniqueNamesFrom_eq_ok_iff, names]
  simp

/-- A name has been seen, or is that of one of the first `k` stages. -/
def KnownFrom (seen : Std.TreeSet String) (stages : List Stage) (k : Nat) (name : String) : Prop :=
  seen.contains name = true ∨ ∃ j s, j < k ∧ stages[j]? = some s ∧ s.name = name

theorem knownFrom_zero_iff {seen : Std.TreeSet String} {stages : List Stage} {name : String} :
    KnownFrom seen stages 0 name ↔ seen.contains name = true := by
  simp [KnownFrom]

/-- A stage that has been seen counts as an earlier one. -/
theorem knownFrom_succ_iff {seen : Std.TreeSet String} {s : Stage} {rest : List Stage} {k : Nat}
    {name : String} :
    KnownFrom seen (s :: rest) (k + 1) name ↔ KnownFrom (seen.insert s.name) rest k name := by
  unfold KnownFrom
  rw [contains_insert_eq_true_iff]
  constructor
  · rintro (hseen | ⟨j, s', hj, hs', hname⟩)
    · exact .inl (.inr hseen)
    · cases j with
      | zero =>
        cases hs'
        exact .inl (.inl hname)
      | succ j => exact .inr ⟨j, s', by omega, hs', hname⟩
  · rintro ((hname | hseen) | ⟨j, s', hj, hs', hname⟩)
    · exact .inr ⟨0, s, by omega, rfl, hname⟩
    · exact .inl hseen
    · exact .inr ⟨j + 1, s', by omega, hs', hname⟩

/-- Every edge of the stages comes from a name seen or from an earlier stage. -/
def InOrderFrom (seen : Std.TreeSet String) (stages : List Stage) : Prop :=
  ∀ (k : Nat) (s : Stage), stages[k]? = some s → ∀ e ∈ s.inputs,
    seen.contains e.producer = true ∨
      ∃ j s', j < k ∧ stages[j]? = some s' ∧ s'.name = e.producer

theorem inOrderFrom_cons {seen : Std.TreeSet String} {s : Stage} {rest : List Stage} :
    InOrderFrom seen (s :: rest) ↔
      (∀ e ∈ s.inputs, seen.contains e.producer = true) ∧ InOrderFrom (seen.insert s.name) rest := by
  constructor
  · intro h
    constructor
    · intro e he
      exact knownFrom_zero_iff.mp (h 0 s rfl e he)
    · intro k s' hs' e he
      exact knownFrom_succ_iff.mp (h (k + 1) s' hs' e he)
  · rintro ⟨hfirst, hrest⟩ k s' hs' e he
    cases k with
    | zero =>
      cases hs'
      exact .inl (hfirst e he)
    | succ k => exact knownFrom_succ_iff.mpr (hrest k s' hs' e he)

theorem dependencyOrderFrom_eq_ok_iff (seen : Std.TreeSet String) (stages : List Stage) :
    dependencyOrderFrom seen stages = .ok () ↔ InOrderFrom seen stages := by
  induction stages generalizing seen with
  | nil => simp [dependencyOrderFrom, InOrderFrom]
  | cons s rest ih =>
    rw [dependencyOrderFrom, inOrderFrom_cons]
    cases hfind : s.inputs.find? fun e => !seen.contains e.producer with
    | some e =>
      have hunseen := List.find?_some hfind
      have hmem := List.mem_of_find?_eq_some hfind
      constructor
      · intro h
        cases h
      · rintro ⟨hfirst, -⟩
        rw [hfirst e hmem] at hunseen
        cases hunseen
    | none =>
      have hfirst : ∀ e ∈ s.inputs, seen.contains e.producer = true := by
        intro e he
        simpa using List.find?_eq_none.mp hfind e he
      dsimp only
      rw [ih, and_iff_right hfirst]

/-- Every edge comes from a stage that was registered earlier. -/
def InOrder (t : Topology) : Prop :=
  ∀ (k : Nat) (s : Stage), t.stages.toList[k]? = some s → ∀ e ∈ s.inputs,
    ∃ j s', j < k ∧ t.stages.toList[j]? = some s' ∧ s'.name = e.producer

/-- **The second check accepts exactly the topologies in which every edge comes from an
earlier stage.** -/
theorem checkDependencyOrder_eq_ok_iff (t : Topology) :
    t.checkDependencyOrder = .ok () ↔ t.InOrder := by
  rw [checkDependencyOrder, dependencyOrderFrom_eq_ok_iff]
  simp [InOrderFrom, InOrder]

end Topology
end StreamPlan
